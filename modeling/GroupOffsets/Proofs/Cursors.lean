import GroupOffsets.Proofs.Aloft
import GroupOffsets.Proofs.Cache

/-!
# What moves a cursor

Objects of the store keep their numbers and names, whatever happens, and every handle that the cache
or a resolution gives out for a partition refers to an object of that name.  So a durable cursor
moves only where somebody says so: a persist pass that asks for the partition, and the operations
that reset the cursor or delete the partition.
-/

namespace GroupOffsets

open World (Choice Event Task)

/-! ## Stores -/

namespace Partition

variable {p : Partition} {g g' : String} {x : Position}

theorem name_openCursor : (p.openCursor g).name = p.name := by
  rw [openCursor, openCursorAt]
  split <;> rfl

theorem cursor?_openCursor_of_ne (h : g' ≠ g) : (p.openCursor g).cursor? g' = p.cursor? g' := by
  rw [openCursor, cursor?_openCursorAt, if_neg h.symm, Option.or_none]

theorem cursor?_openCursor_of_some (h : p.cursor? g' = some x) :
    (p.openCursor g).cursor? g' = some x := by
  rw [openCursor, cursor?_openCursorAt, h, Option.some_or]

end Partition

namespace Store

variable {s s' s'' : Store} {tp tp' : TopicPartition} {n : Nat} {p : Partition} {h : Handle}
variable {g g' : String} {x y : Position}

theorem Tidy.setObject_of_name (hs : s.Tidy) (hname : p.name = (s.object n).name) :
    (s.setObject n p).Tidy := by
  refine ⟨hs.old, hs.apart, fun {tp m} hm ↦ ?_⟩
  rw [object_setObject]
  split
  · rename_i heq
    rw [hname, ← heq]
    exact hs.named hm
  · exact hs.named hm

theorem object_allocate (p : Partition) (m : Nat) :
    (s.allocate p).2.object m = if m = s.nextObject then p else s.object m :=
  object_setObject p m

theorem Tidy.allocate (hs : s.Tidy) (p : Partition) : (s.allocate p).2.Tidy := by
  have hobject? : ∀ tp, (s.allocate p).2.object? tp = s.object? tp := fun _ ↦ rfl
  refine ⟨fun hm ↦ Nat.lt_succ_of_lt (hs.old hm), hs.apart, fun {tp m} hm ↦ ?_⟩
  rw [object_allocate, if_neg (Nat.ne_of_lt (hs.old hm)), hs.named hm]

theorem object?_deletePartition (tp tp' : TopicPartition) :
    (s.deletePartition tp).2.object? tp' = if tp' = tp then none else s.object? tp' := by
  by_cases htp : tp' = tp
  · simp [deletePartition, object?, htp]
  · have hne : tp ≠ tp' := fun heq ↦ htp heq.symm
    simp [deletePartition, object?, htp, hne, Std.ExtTreeMap.getElem?_erase]

theorem Tidy.deletePartition (hs : s.Tidy) (tp : TopicPartition) :
    (s.deletePartition tp).2.Tidy := by
  have hkept : ∀ {tp' m}, (s.deletePartition tp).2.object? tp' = some m →
      s.object? tp' = some m := by
    intro tp' m hm
    rw [object?_deletePartition] at hm
    split at hm
    · cases hm
    · exact hm
  exact ⟨fun hm ↦ hs.old (hkept hm), fun hm hm' ↦ hs.apart (hkept hm) (hkept hm'),
    fun hm ↦ hs.named (hkept hm)⟩

/-- No object goes away or gets another name. -/
structure Evolves (s s' : Store) : Prop where
  tidy : s.Tidy → s'.Tidy
  next : s.nextObject ≤ s'.nextObject
  name : ∀ m < s.nextObject, (s'.object m).name = (s.object m).name

theorem Evolves.refl : Evolves s s := ⟨id, Nat.le_refl _, fun _ _ ↦ rfl⟩

/-- How a store behaves, and what it counts, has nothing to do with its objects. -/
theorem evolves_behaviour (unavailable : Std.ExtTreeSet TopicPartition)
    (lookupDelay failing lookups : Nat) (faults : Std.ExtTreeMap TopicPartition LookupFault)
    (nextWrapper : Nat) :
    Evolves s { s with unavailable, lookupDelay, failing, lookups, faults, nextWrapper } :=
  ⟨fun h ↦ ⟨h.old, h.apart, h.named⟩, Nat.le_refl _, fun _ _ ↦ rfl⟩

theorem evolves_setObject (hname : p.name = (s.object n).name) : Evolves s (s.setObject n p) := by
  refine ⟨fun hs ↦ hs.setObject_of_name hname, Nat.le_refl _, fun m _ ↦ ?_⟩
  rw [object_setObject]
  split
  · rename_i heq
    rw [hname, heq]
  · rfl

theorem evolves_allocate (p : Partition) : Evolves s (s.allocate p).2 := by
  refine ⟨fun hs ↦ hs.allocate p, Nat.le_succ _, fun m hm ↦ ?_⟩
  rw [object_allocate, if_neg (Nat.ne_of_lt hm)]

theorem evolves_createPartition (s : Store) (tp : TopicPartition) :
    Evolves s (s.createPartition tp).2 := by
  have hnext : s.nextObject ≤ (s.ensure tp).2.nextObject := by
    rw [ensure]
    split
    · exact Nat.le_refl _
    · exact Nat.le_succ _
  refine ⟨fun hs ↦ hs.createPartition tp, createPartition_eq s tp ▸ hnext, fun m hm ↦ ?_⟩
  rw [object_createPartition]
  split
  · rename_i heq
    rw [restored, Partition.name_foldl_restore, ← heq, object_ensure_of_lt hm]
  · rw [object_ensure_of_lt hm]

/-- Writing a cursor changes nothing but that cursor. -/
theorem writeCursor_cases (s : Store) (h : Handle) (g : String) (x : Position) :
    (s.writeCursor h g x).2 = s ∨ ∃ p, (s.writeCursor h g x).2 = s.setObject h.object p ∧
      p.name = (s.partition h).name ∧
      (∀ g', g' ≠ g → p.cursor? g' = (s.partition h).cursor? g') ∧
      ∀ y, (s.partition h).cursor? g = some y → p.cursor? g = some y ∨ p.cursor? g = some x := by
  rw [writeCursor]
  split
  · exact .inl rfl
  · right
    split
    · exact ⟨_, rfl, Partition.name_openCursor,
        fun g' hg ↦ Partition.cursor?_openCursor_of_ne hg,
        fun y hy ↦ .inl (Partition.cursor?_openCursor_of_some hy)⟩
    · refine ⟨_, rfl, name_resetCursor, fun g' hg ↦ ?_, fun y hy ↦ .inr ?_⟩
      · rw [cursor?_resetCursor, if_neg hg]
      · rw [cursor?_resetCursor, if_pos rfl]

theorem evolves_writeCursor (s : Store) (h : Handle) (g : String) (x : Position) :
    Evolves s (s.writeCursor h g x).2 := by
  obtain hs | ⟨p, hs, hname, -⟩ := s.writeCursor_cases h g x
  · rw [hs]
    exact .refl
  · rw [hs]
    exact evolves_setObject hname

/-- A handle refers to an object of this name. -/
structure Refers (s : Store) (h : Handle) (tp : TopicPartition) : Prop where
  old : h.object < s.nextObject
  name : (s.partition h).name = tp

theorem Refers.evolve (h' : s.Refers h tp) (hs : Evolves s s') : s'.Refers h tp :=
  ⟨Nat.lt_of_lt_of_le h'.old hs.next, (hs.name _ h'.old).trans h'.name⟩

theorem Tidy.refers (hs : s.Tidy) (hn : s.object? tp = some h.object) : s.Refers h tp :=
  ⟨hs.old hn, hs.named hn⟩

end Store

namespace Bridge

variable {b b' : Bridge} {order : Itinerary} {now n : Nat} {c : Call} {draw : Option Nat}

/-! ## Steps -/

theorem store_moveCursor_ok (h : Handle) (g : String) (x : Position) :
    (b.moveCursor (.ok h) g x).2.store = (b.store.writeCursor h g x).2 := by
  rw [moveCursor]
  split
  · rename_i store heq
    rw [heq]
  · rename_i e store heq
    rw [heq]

theorem store_deliver_persist (t : Nat) (s : Persist) (r : Attempt Handle) :
    (b.deliver order (.persist t s) r).1.store =
      (b.moveCursor r s.key.group s.position).2.store := by
  obtain ⟨metrics, persistTurn, hb⟩ := continuePersist_eq
    (b.moveCursor r s.key.group s.position).2 t s.report
    (s.answer order (b.moveCursor r s.key.group s.position).2.table
      (b.moveCursor r s.key.group s.position).2.isSystemGroup
      (b.moveCursor r s.key.group s.position).1)
  exact (congrArg Bridge.store hb).trans rfl

theorem store_stepCall_persist {t : Nat} {s : Persist} {h : Handle} (order : Itinerary)
    (hh : b.handed now c = some (.persist t s, .ok h)) :
    (b.stepCall order now c).1.store = (b.store.writeCursor h s.key.group s.position).2 := by
  obtain ⟨metrics, hb⟩ := stepCall_of_handed order hh
  rw [hb, store_deliver_persist, store_moveCursor_ok]

/-- A step of a call writes to the store what a persist pass was handed a partition for, and nothing
else. -/
theorem store_stepCall_cases (b : Bridge) (order : Itinerary) (now : Nat) (c : Call) :
    (∃ failing lookups,
        (b.stepCall order now c).1.store = { b.store with failing, lookups }) ∨
      ∃ t s h, b.handed now c = some (.persist t s, .ok h) ∧
        (b.stepCall order now c).1.store =
          (b.store.writeCursor h s.key.group s.position).2 := by
  cases hp : c.purpose? with
  | none =>
      obtain ⟨failing, lookups, _, _, hb⟩ := b.stepCall_idle_eq order now hp
      exact .inl ⟨failing, lookups, by rw [hb]⟩
  | some p =>
      cases hh : b.handed now c with
      | none =>
          left
          obtain ⟨-, hb | ⟨-, hb⟩⟩ := stepCall_of_not_handed order hp hh
          · exact ⟨_, _, by rw [hb]⟩
          · exact ⟨_, _, by rw [hb]; rfl⟩
      | some pr =>
          obtain ⟨q, r⟩ := pr
          obtain ⟨metrics, hb⟩ := stepCall_of_handed order hh
          cases q with
          | persist t s =>
              cases r with
              | error e =>
                  rw [hb, store_deliver_persist]
                  exact .inl ⟨_, _, rfl⟩
              | ok h => exact .inr ⟨t, s, h, rfl, store_stepCall_persist order hh⟩
          | _ =>
              rw [hb]
              exact .inl ⟨_, _, rfl⟩

theorem evolves_stepCall (b : Bridge) (order : Itinerary) (now : Nat) (c : Call) :
    b.store.Evolves (b.stepCall order now c).1.store := by
  obtain ⟨failing, lookups, hs⟩ | ⟨t, s, h, -, hs⟩ := b.store_stepCall_cases order now c
  · rw [hs]
    exact Store.evolves_behaviour ..
  · rw [hs]
    exact Store.evolves_writeCursor ..

theorem evolves_stepFlight (b : Bridge) (draw : Option Nat) (now n : Nat) :
    b.store.Evolves (b.stepFlight draw now n).store := by
  obtain ⟨_, _, _, _, _, _, _, hb⟩ := b.stepFlight_eq now n draw
  rw [hb]
  exact Store.evolves_behaviour ..

theorem evolves_onPartition {f : Partition → Reply Handle × Partition}
    (hf : ∀ p, (f p).2.name = p.name) (tp : TopicPartition) :
    b.store.Evolves (b.onPartition tp f).2.store := by
  unfold onPartition
  split
  · exact .refl
  · exact Store.evolves_setObject (hf _)

theorem evolves_operate (b : Bridge) (op : Operation) :
    b.store.Evolves (b.operate op).2.store := by
  cases op with
  | register tp =>
      simp only [operate]
      split <;> exact .refl
  | registerDetached p => exact Store.evolves_allocate p
  | insertDetached p => exact Store.evolves_allocate p
  | refreshDetached p => exact Store.evolves_allocate p
  | createPartition tp => exact Store.evolves_createPartition b.store tp
  | deletePartition tp =>
      exact ⟨fun hs ↦ hs.deletePartition tp, Nat.le_refl _, fun _ _ ↦ rfl⟩
  | setRange | append | roll | trim => exact evolves_onPartition (fun _ ↦ rfl) _
  | openCursor tp g => exact evolves_onPartition (fun _ ↦ Partition.name_openCursor) tp
  | resetCursor tp g x => exact evolves_onPartition (fun _ ↦ Store.name_resetCursor) tp
  | range | cursor | cursors =>
      simp only [operate, atPartition]
      split <;> exact .refl
  | setUnavailable tp yes => exact Store.evolves_behaviour ..
  | failNext n => exact Store.evolves_behaviour ..
  | setLookupDelay ms => exact Store.evolves_behaviour ..
  | setFault tp fault => exact Store.evolves_behaviour ..
  | _ => exact .refl

end Bridge

/-! ## Handles -/

namespace Store

variable {s : Store} {c : Cache} {tp : TopicPartition} {h : Handle}

/-- Whatever is cached for a partition refers to an object of that name. -/
def Names (s : Store) (c : Cache) : Prop :=
  ∀ ⦃tp h⦄, c.get? tp = some h → s.Refers h tp

theorem Names.evolve {s' : Store} (hc : s.Names c) (hs : Evolves s s') : s'.Names c :=
  fun _ _ hget ↦ (hc hget).evolve hs

theorem Names.refresh (hc : s.Names c) (hh : s.Refers h tp) : s.Names (c.refresh tp h) := by
  intro tp' h' hget
  rw [Cache.get?_refresh] at hget
  split at hget
  · rename_i htp
    cases hget
    exact htp ▸ hh
  · exact hc hget

theorem Names.insertIfAbsent (hc : s.Names c) (hh : s.Refers h tp) :
    s.Names (c.insertIfAbsent tp h).2 := by
  rw [Cache.insertIfAbsent]
  split
  · exact hc
  · exact hc.refresh hh

theorem Names.invalidate (hc : s.Names c) (tp : TopicPartition) : s.Names (c.invalidate tp).2 := by
  intro tp' h' hget
  rw [Cache.get?_invalidate] at hget
  split at hget
  · cases hget
  · exact hc hget

theorem Names.invalidateTopic (hc : s.Names c) (t : String) : s.Names (c.invalidateTopic t).2 := by
  intro tp' h' hget
  rw [Cache.get?_invalidateTopic] at hget
  split at hget
  · cases hget
  · exact hc hget

theorem refers_allocate (s : Store) (p : Partition) :
    (s.allocate p).2.Refers ⟨s.nextObject, none⟩ p.name := by
  refine ⟨Nat.lt_succ_self _, ?_⟩
  rw [partition, object_allocate, if_pos rfl]

end Store

namespace Bridge

variable {b : Bridge} {draw : Option Nat} {now n m : Nat} {tp : TopicPartition} {h : Handle}

theorem names_register (hc : b.store.Names b.cache) (order : List Nat)
    (hh : h.object < b.store.nextObject) :
    (b.register order h).2.2.store.Names (b.register order h).2.2.cache :=
  hc.insertIfAbsent ⟨hh, rfl⟩

theorem names_operate (hs : b.store.Tidy) (hc : b.store.Names b.cache) (op : Operation) :
    (b.operate op).2.store.Names (b.operate op).2.cache := by
  have hdetached : ∀ p, (b.store.allocate p).2.Names b.cache :=
    fun p ↦ hc.evolve (Store.evolves_allocate p)
  have hkept : (b.operate op).2.cache = b.cache →
      (b.operate op).2.store.Names (b.operate op).2.cache :=
    fun hcache ↦ hcache ▸ hc.evolve (b.evolves_operate op)
  cases op with
  | register tp =>
      simp only [operate]
      split
      · exact hc
      · rename_i n hn
        exact names_register hc [] (hs.old hn)
  | registerDetached p =>
      exact names_register (hdetached p) [] (b.store.refers_allocate p).old
  | insertDetached p => exact (hdetached p).insertIfAbsent (b.store.refers_allocate p)
  | refreshDetached p => exact (hdetached p).refresh (b.store.refers_allocate p)
  | unregister tp => exact hc.invalidate tp
  | invalidate tp => exact hc.invalidate tp
  | unregisterTopic t => exact hc.invalidateTopic t
  | invalidateTopic t => exact hc.invalidateTopic t
  | setRange | append | roll | trim | openCursor | resetCursor =>
      refine hkept ?_
      simp only [operate, onPartition]
      split <;> rfl
  | range | cursor | cursors =>
      refine hkept ?_
      simp only [operate, atPartition]
      split <;> rfl
  | _ => exact hkept rfl

/-- What is newly cached by a resolution the store serves, and what it comes to was cached, or the
store serves it. -/
theorem yields_stepFlight (b : Bridge) (draw : Option Nat) (now n : Nat) :
    (∀ tp h, (b.stepFlight draw now n).cache.get? tp = some h →
      b.cache.get? tp = some h ∨ b.store.object? tp = some h.object) ∧
    ∀ m h, (b.stepFlight draw now n).flights.outcome? m = some (some (.found h)) →
      b.flights.outcome? m = some (some (.found h)) ∨ ∃ f, b.aloft[m]? = some f ∧
        (b.cache.get? f.target = some h ∨ b.store.object? f.target = some h.object) := by
  cases hf : b.aloft[n]? with
  | none =>
      rw [Bridge.stepFlight, hf]
      exact ⟨fun tp h ↦ .inl, fun m h ↦ .inl⟩
  | some f =>
      have hflies := flies_stepFlight draw now hf
      generalize b.obtains now n = obtained at hflies
      have hkept : (b.stepFlight draw now n).cache = b.cache → ∀ tp h,
          (b.stepFlight draw now n).cache.get? tp = some h →
            b.cache.get? tp = some h ∨ b.store.object? tp = some h.object :=
        fun hcache tp h hget ↦ .inl (hcache ▸ hget)
      have hlands : ∀ {o}, (b.stepFlight draw now n).flights = b.flights.finish n o →
          (∀ h, o = some (.found h) →
            b.cache.get? f.target = some h ∨ b.store.object? f.target = some h.object) →
          ∀ m h, (b.stepFlight draw now n).flights.outcome? m = some (some (.found h)) →
            b.flights.outcome? m = some (some (.found h)) ∨ ∃ f, b.aloft[m]? = some f ∧
              (b.cache.get? f.target = some h ∨ b.store.object? f.target = some h.object) := by
        intro o hflights ho m h hm
        rw [hflights] at hm
        by_cases hmn : m = n
        · subst hmn
          exact (Flights.outcome?_finish hm).imp_right fun heq ↦ ⟨f, hf, ho h heq.symm⟩
        · rw [Flights.outcome?_finish_of_ne hmn] at hm
          exact .inl hm
      cases hflies with
      | waits departed same =>
          rw [same]
          exact ⟨fun tp h ↦ .inl, fun m h ↦ .inl⟩
      | goesOn departed target generation cache flights aloft =>
          rw [cache, flights]
          exact ⟨fun tp h ↦ .inl, fun m h ↦ .inl⟩
      | lands lost cache flights aloft =>
          exact ⟨hkept cache, hlands flights fun h ho ↦ absurd ho (lost h)⟩
      | meets boarding cached cache flights aloft =>
          refine ⟨hkept cache, hlands flights fun h ho ↦ .inl ?_⟩
          cases ho
          exact cached
      | finds found cache flights aloft =>
          obtain ⟨hcached, hresult⟩ :=
            b.cache.insertResolved_cases f.target _ (b.generationOf f)
          refine ⟨fun tp h hget ↦ ?_, hlands flights fun h ho ↦ ?_⟩
          · rw [cache] at hget
            rcases hcached tp h hget with hold | ⟨rfl, rfl⟩
            · exact .inl hold
            · exact .inr (Store.lookup_found found)
          · cases ho
            refine hresult.imp_right fun hfound ↦ ?_
            rw [hfound]
            exact Store.lookup_found found

/-- What a resolution caches, and what it comes to, has the name that it looked for. -/
theorem names_stepFlight (hs : b.store.Tidy) (hc : b.store.Names b.cache) (draw : Option Nat)
    (now n : Nat) :
    b.store.Names (b.stepFlight draw now n).cache ∧
      ∀ m h, (b.stepFlight draw now n).flights.outcome? m = some (some (.found h)) →
        b.flights.outcome? m = some (some (.found h)) ∨
          ∃ f, b.aloft[m]? = some f ∧ b.store.Refers h f.target := by
  obtain ⟨hcached, hlanded⟩ := b.yields_stepFlight draw now n
  refine ⟨fun tp h hget ↦ ?_, fun m h hm ↦ ?_⟩
  · exact (hcached tp h hget).elim (fun hold ↦ hc hold) hs.refers
  · refine (hlanded m h hm).imp_right ?_
    rintro ⟨f, hf, hyields⟩
    exact ⟨f, hf, hyields.elim (fun hold ↦ hc hold) hs.refers⟩

end Bridge

namespace World

variable {w w' : World} {ch : Choice} {e : Event} {es : List (Choice × Event)}
variable {tp : TopicPartition} {h : Handle}

theorem evolves_step (w : World) (ch : Choice) (e : Event) :
    w.bridge.store.Evolves (w.step ch e).bridge.store := by
  have hmove : Move w ch (w.step ch e) e := move_step e
  generalize w.step ch e = w' at hmove
  cases hmove with
  | @operates op bridge calls => exact bridge ▸ w.bridge.evolves_operate op
  | @flies n bridge calls => exact bridge ▸ w.bridge.evolves_stepFlight ch.draw w.now n
  | @goes τ c was bridge self others => exact bridge ▸ w.bridge.evolves_stepCall ch.order w.now c
  | @cancels n c was bridge self others =>
      obtain ⟨_, hb⟩ := w.bridge.cancelCall_eq c
      rw [bridge, hb]
      exact .refl
  | begins bridge self others => exact bridge ▸ .refl
  | idles bridge calls => exact bridge ▸ .refl

theorem tidy_steps (h : w.bridge.store.Tidy) (es : List (Choice × Event)) :
    (w.steps es).bridge.store.Tidy := by
  refine steps_of_step (·.bridge.store.Tidy) (fun v ch e hv ↦ ?_) h es
  exact (evolves_step v ch e).tidy hv

/-- Whatever handle is given out for a partition, by the cache or to those who wait for a
resolution, refers to an object of that name. -/
structure Named (w : World) : Prop where
  aboard : w.Aboard
  tidy : w.bridge.store.Tidy
  cached : w.bridge.store.Names w.bridge.cache
  landed : ∀ {τ p n d h}, w.callOf τ = some (.waiting p n d) →
    w.bridge.flights.outcome? n = some (some (.found h)) → w.bridge.store.Refers h p.target

theorem named_new (now : Nat) (settings : Bridge.Settings) (owner : String) (points : CursorPoints)
    (manualClock : Option Nat) :
    (new now (.new settings (.new owner points) manualClock)).Named := by
  refine ⟨aboard_new (Bridge.aboard_new ..) now, Store.tidy_new owner points, fun {tp h} hget ↦ ?_,
    fun {τ p n d h} hc ho ↦ ?_⟩
  · have hcache : (new now (.new settings (.new owner points) manualClock)).bridge.cache = ∅ := rfl
    rw [hcache, Cache.get?_empty] at hget
    cases hget
  · have houtcomes : (new now (.new settings (.new owner points) manualClock)).bridge.flights.outcomes
        = ∅ := rfl
    rw [Flights.outcome?, houtcomes] at ho
    simp at ho

theorem names_step (h : w.Named) (ch : Choice) (e : Event) :
    (w.step ch e).bridge.store.Names (w.step ch e).bridge.cache := by
  have hevolves := evolves_step w ch e
  have hmove : Move w ch (w.step ch e) e := move_step e
  generalize w.step ch e = w' at hmove hevolves
  cases hmove with
  | @operates op bridge calls => exact bridge ▸ Bridge.names_operate h.tidy h.cached op
  | @flies n bridge calls =>
      have hnames := (Bridge.names_stepFlight h.tidy h.cached ch.draw w.now n).1
      exact Store.Names.evolve (bridge ▸ hnames) hevolves
  | @goes τ c was bridge self others =>
      have hcache : w'.bridge.cache = w.bridge.cache := by rw [bridge, Bridge.cache_stepCall]
      exact hcache ▸ Store.Names.evolve h.cached hevolves
  | @cancels n c was bridge self others =>
      obtain ⟨_, hb⟩ := w.bridge.cancelCall_eq c
      exact bridge ▸ hb ▸ h.cached
  | begins bridge self others => exact bridge ▸ h.cached
  | idles bridge calls => exact bridge ▸ h.cached

/-- What is newly known of how a work ended was cached before, or the store served it. -/
theorem yields_step (w : World) (ch : Choice) (e : Event) {n : Nat} {hd : Handle}
    (ho : (w.step ch e).bridge.flights.outcome? n = some (some (.found hd))) :
    w.bridge.flights.outcome? n = some (some (.found hd)) ∨
      ∃ f, w.bridge.aloft[n]? = some f ∧ (w.bridge.cache.get? f.target = some hd ∨
        w.bridge.store.object? f.target = some hd.object) := by
  have hmove : Move w ch (w.step ch e) e := move_step e
  generalize w.step ch e = w' at hmove ho
  cases hmove with
  | @operates op bridge calls =>
      rw [bridge, (w.bridge.flights_operate op).1] at ho
      exact .inl ho
  | @flies m bridge calls =>
      exact (w.bridge.yields_stepFlight ch.draw w.now m).2 n hd (bridge ▸ ho)
  | @goes τ c was bridge self others =>
      left
      rw [bridge] at ho
      obtain ⟨hb, -⟩ | ⟨tp, hb⟩ := w.bridge.flights_stepCall_cases ch.order w.now c
      · rwa [hb] at ho
      · rw [hb, Bridge.joinFlight, Flights.outcome?_join] at ho
        exact ho
  | @cancels m c was bridge self others =>
      obtain ⟨_, hb⟩ := w.bridge.cancelCall_eq c
      rw [bridge, hb] at ho
      exact .inl ho
  | begins bridge self others => exact .inl (bridge ▸ ho)
  | idles bridge calls => exact .inl (bridge ▸ ho)

/-- What is newly known of how a work ended was found for the partition that it looked for. -/
theorem found_step (h : w.Named) {n : Nat} {hd : Handle}
    (ho : (w.step ch e).bridge.flights.outcome? n = some (some (.found hd))) :
    w.bridge.flights.outcome? n = some (some (.found hd)) ∨
      ∃ f, w.bridge.aloft[n]? = some f ∧ w.bridge.store.Refers hd f.target := by
  refine (yields_step w ch e ho).imp_right ?_
  rintro ⟨f, hf, hyields⟩
  exact ⟨f, hf, hyields.elim (fun hold ↦ h.cached hold) h.tidy.refers⟩

theorem named_step (h : w.Named) (ch : Choice) (e : Event) : (w.step ch e).Named := by
  have hevolves := evolves_step w ch e
  refine ⟨aboard_step h.aboard ch e, hevolves.tidy h.tidy, names_step h ch e,
    fun {τ p n d hd} hc ho ↦ ?_⟩
  have waited : w.callOf τ = some (.waiting p n d) →
      (w.step ch e).bridge.store.Refers hd p.target := by
    intro hwas
    rcases found_step h ho with hold | ⟨f, hf, hrefers⟩
    · exact (h.landed hwas hold).evolve hevolves
    · rw [(h.aboard.waits hwas).target (h.aboard.bridge.works_eq hf)]
      exact hrefers.evolve hevolves
  obtain hsame | ⟨-, -, -, -, rfl, -⟩ := waiting_step_cases hc
  · exact waited hsame
  · -- whoever joins a work joins one that runs, for the partition that is needed
    rcases found_step h ho with hold | ⟨f, hf, hrefers⟩
    · cases (h.aboard.bridge.outcome?_joined p.target).symm.trans hold
    · have hruns := h.aboard.bridge.sound.works_join_of_some (h.aboard.bridge.works_eq hf) p.target
      rw [(h.aboard.bridge.boards_join p).target hruns]
      exact hrefers.evolve hevolves

theorem named_steps (h : w.Named) (es : List (Choice × Event)) : (w.steps es).Named :=
  steps_of_step Named (fun _ ch e h ↦ named_step h ch e) h es

/-- What a call is handed for a partition refers to an object of its name. -/
theorem Named.refers_of_handed (h : w.Named) {τ : Task} {c : Call} {p : Purpose} {hd : Handle}
    (hc : w.callOf τ = some c) (hh : w.bridge.handed w.now c = some (p, .ok hd)) :
    w.bridge.store.Refers hd p.target := by
  cases c with
  | asking q =>
      obtain ⟨hd', hget, heq⟩ := Option.map_eq_some_iff.mp hh
      cases heq
      exact h.cached hget
  | waiting q n d =>
      simp only [Bridge.handed] at hh
      split at hh
      · rename_i outcome hout
        rcases outcome with _ | hd' | _ | attempts
        · cases hh
        · cases hh
          exact h.landed hc hout
        · cases hh
        · cases hh
      · split at hh <;> cases hh
  | _ => cases hh

end World

/-! ## Cursors -/

namespace Store

variable {s : Store} {tp tp' : TopicPartition} {h : Handle} {g g' : String} {x y : Position}

/-- A cursor that is written through a handle on another partition, or for another group, is another
cursor. -/
theorem cursorOf_writeCursor (hs : s.Tidy) (hh : s.Refers h tp') (hx : s.cursorOf tp g = some x)
    (hy : tp' = tp → g' = g → y = x) : (s.writeCursor h g' y).2.cursorOf tp g = some x := by
  obtain hsame | ⟨p, hset, -, hothers, hself⟩ := s.writeCursor_cases h g' y
  · rw [hsame, hx]
  · obtain ⟨m, hm, hcursor⟩ := Option.bind_eq_some_iff.mp hx
    rw [hset, cursorOf, object?_setObject, hm, Option.bind_some, object_setObject]
    split
    · rename_i heq
      have htp : tp' = tp := by rw [← hh.name, partition, ← heq, hs.named hm]
      have hcursor : (s.partition h).cursor? g = some x := by rw [partition, ← heq, hcursor]
      by_cases hg : g' = g
      · subst hg
        rcases hself x hcursor with hold | hnew
        · exact hold
        · rw [hnew, hy htp rfl]
      · rw [hothers g fun heq' ↦ hg heq'.symm, hcursor]
    · exact hcursor

theorem cursorOf_allocate (hs : s.Tidy) (p : Partition) :
    (s.allocate p).2.cursorOf tp g = s.cursorOf tp g := by
  have hobject? : (s.allocate p).2.object? tp = s.object? tp := rfl
  rw [cursorOf, cursorOf, hobject?]
  cases hm : s.object? tp with
  | none => rfl
  | some m =>
      rw [Option.bind_some, Option.bind_some, object_allocate, if_neg (Nat.ne_of_lt (hs.old hm))]

end Store

/-- Whether an event could move the cursor of a group on a partition, other than a persist pass. -/
def World.Event.resets (tp : TopicPartition) (g : String) : Event → Bool
  | .operate (.deletePartition tp') => tp' == tp
  | .operate (.resetCursor tp' g' _) => tp' == tp && g' == g
  | _ => false

namespace Bridge

variable {b : Bridge} {tp tp' : TopicPartition} {g : String} {x : Position}

theorem cursorOf_onPartition {f : Partition → Reply Handle × Partition} (hs : b.store.Tidy)
    (hf : ∀ p, tp' = tp → p.cursor? g = some x → (f p).2.cursor? g = some x)
    (hx : b.store.cursorOf tp g = some x) :
    (b.onPartition tp' f).2.store.cursorOf tp g = some x := by
  unfold onPartition
  split
  · exact hx
  · rename_i n hn
    refine (Store.cursorOf_setObject hs hn _).trans ?_
    split
    · rename_i htp
      subst htp
      rw [Store.cursorOf, hn, Option.bind_some] at hx
      exact hf _ rfl hx
    · exact hx

theorem cursorOf_operate (hs : b.store.Tidy) (hx : b.store.cursorOf tp g = some x)
    (op : Operation) (hop : Event.resets tp g (.operate op) = false) :
    (b.operate op).2.store.cursorOf tp g = some x := by
  cases op with
  | register tp' =>
      simp only [operate]
      split <;> exact hx
  | registerDetached p => exact (Store.cursorOf_allocate hs p).trans hx
  | insertDetached p => exact (Store.cursorOf_allocate hs p).trans hx
  | refreshDetached p => exact (Store.cursorOf_allocate hs p).trans hx
  | createPartition tp' =>
      refine (Store.cursorOf_createPartition hs).trans ?_
      rw [hx, Option.some_or]
  | deletePartition tp' =>
      have hne : tp ≠ tp' := fun heq ↦ by simp [Event.resets, heq] at hop
      have hobject : (b.store.deletePartition tp').2.object? tp = b.store.object? tp := by
        rw [Store.object?_deletePartition, if_neg hne]
      rw [Store.cursorOf, ← hobject] at hx
      exact hx
  | setRange | append | roll | trim => exact cursorOf_onPartition hs (fun _ _ h ↦ h) hx
  | openCursor tp' g' =>
      exact cursorOf_onPartition hs (fun _ _ h ↦ Partition.cursor?_openCursor_of_some h) hx
  | resetCursor tp' g' y =>
      refine cursorOf_onPartition hs (fun p htp h ↦ ?_) hx
      have hne : g ≠ g' := fun heq ↦ by simp [Event.resets, htp, heq] at hop
      dsimp only
      rw [Store.cursor?_resetCursor, if_neg hne, h]
  | range | cursor | cursors =>
      simp only [operate, atPartition]
      split <;> exact hx
  | _ => exact hx

end Bridge

namespace World

variable {w : World} {ch : Choice} {e : Event} {tp : TopicPartition} {g : String} {x : Position}

/-- A cursor that nobody resets stays where it is, unless a persist pass has another position for
it. -/
theorem cursorOf_step (h : w.Named) (hx : w.bridge.store.cursorOf tp g = some x)
    (he : e.resets tp g = false)
    (hpasses : ∀ τ c t s, w.callOf τ = some c → c.purpose? = some (.persist t s) →
      s.target = tp → s.key.group = g → s.position = x) :
    (w.step ch e).bridge.store.cursorOf tp g = some x := by
  have hmove : Move w ch (w.step ch e) e := move_step e
  generalize w.step ch e = w' at hmove
  cases hmove with
  | @operates op bridge calls => exact bridge ▸ Bridge.cursorOf_operate h.tidy hx op he
  | @flies n bridge calls =>
      obtain ⟨_, _, _, _, _, _, _, hb⟩ := w.bridge.stepFlight_eq w.now n ch.draw
      rw [bridge, hb]
      exact hx
  | @goes τ c was bridge self others =>
      obtain ⟨_, _, hs⟩ | ⟨t, s, hd, hh, hs⟩ := w.bridge.store_stepCall_cases ch.order w.now c
      · rw [bridge, hs]
        exact hx
      · rw [bridge, hs]
        exact Store.cursorOf_writeCursor h.tidy (h.refers_of_handed was hh) hx
          (hpasses τ c t s was (Bridge.purpose?_of_handed hh))
  | @cancels n c was bridge self others =>
      obtain ⟨_, hb⟩ := w.bridge.cancelCall_eq c
      rw [bridge, hb]
      exact hx
  | begins bridge self others => exact bridge ▸ hx
  | idles bridge calls => exact bridge ▸ hx

end World

/-! ## Cursors of an object

An object keeps its cursors also when the store does not serve it any more.
-/

namespace Store

variable {s : Store} {tp : TopicPartition} {n : Nat} {h : Handle} {g g' : String} {x y : Position}

theorem cursor?_writeCursor (hx : (s.object n).cursor? g = some x)
    (hy : h.object = n → g' = g → y = x) :
    ((s.writeCursor h g' y).2.object n).cursor? g = some x := by
  obtain hsame | ⟨p, hset, -, hothers, hself⟩ := s.writeCursor_cases h g' y
  · rw [hsame, hx]
  · rw [hset, object_setObject]
    split
    · rename_i heq
      have hcursor : (s.partition h).cursor? g = some x := by rw [partition, ← heq, hx]
      by_cases hg : g' = g
      · subst hg
        rcases hself x hcursor with hold | hnew
        · exact hold
        · rw [hnew, hy heq.symm rfl]
      · rw [hothers g fun heq' ↦ hg heq'.symm, hcursor]
    · exact hx

/-- A cursor that was moved stands where it was moved to. -/
theorem cursor?_writeCursor_self (hok : (s.writeCursor h g x).1 = .ok ()) :
    ((s.writeCursor h g x).2.partition h).cursor? g = some x := by
  rw [writeCursor] at hok ⊢
  split at hok
  · cases hok
  · dsimp only at hok ⊢
    split at hok
    · cases hok
    · rename_i hopen hreset
      rw [if_neg hopen, if_neg hreset, partition, object_setObject, if_pos rfl,
        cursor?_resetCursor, if_pos rfl]

theorem cursor?_createPartition (hn : n < s.nextObject) (hx : (s.object n).cursor? g = some x)
    (tp : TopicPartition) : ((s.createPartition tp).2.object n).cursor? g = some x := by
  have hobject : (s.createPartition tp).2.object n =
      ((s.ensure tp).2.setObject (s.ensure tp).1 (s.restored tp)).object n := by
    rw [createPartition_eq]
    rfl
  have hensure : ((s.ensure tp).2.object n).cursor? g = some x := by
    cases htp : s.object? tp with
    | some m => rwa [ensure_of_some htp]
    | none => rwa [object_ensure_of_none htp, if_neg (Nat.ne_of_lt hn)]
  rw [hobject, object_setObject]
  split
  · rename_i heq
    rw [restored, Partition.cursor?_foldl_restore, ← heq, hensure, Option.some_or]
  · exact hensure

end Store

namespace Bridge

variable {b : Bridge} {tp tp' : TopicPartition} {h : Handle} {g : String} {x : Position}

theorem cursor?_onPartition {f : Partition → Reply Handle × Partition}
    (hf : ∀ p, b.store.object? tp' = some h.object → p.cursor? g = some x →
      (f p).2.cursor? g = some x)
    (hx : (b.store.partition h).cursor? g = some x) :
    ((b.onPartition tp' f).2.store.partition h).cursor? g = some x := by
  unfold onPartition
  split
  · exact hx
  · rename_i n hn
    refine (congrArg (·.cursor? g) (Store.object_setObject _ h.object)).trans ?_
    split
    · rename_i heq
      subst heq
      exact hf _ hn hx
    · exact hx

theorem cursor?_operate (hs : b.store.Tidy) (hh : b.store.Refers h tp)
    (hx : (b.store.partition h).cursor? g = some x) (op : Operation)
    (hop : ∀ y, op ≠ .resetCursor tp g y) :
    ((b.operate op).2.store.partition h).cursor? g = some x := by
  have hallocate : ∀ p, ((b.store.allocate p).2.partition h).cursor? g = some x := by
    intro p
    rwa [Store.partition, Store.object_allocate, if_neg (Nat.ne_of_lt hh.old)]
  cases op with
  | register tp' =>
      simp only [operate]
      split <;> exact hx
  | registerDetached p => exact hallocate p
  | insertDetached p => exact hallocate p
  | refreshDetached p => exact hallocate p
  | createPartition tp' => exact Store.cursor?_createPartition hh.old hx tp'
  | setRange | append | roll | trim => exact cursor?_onPartition (fun _ _ h ↦ h) hx
  | openCursor tp' g' =>
      exact cursor?_onPartition (fun _ _ h ↦ Partition.cursor?_openCursor_of_some h) hx
  | resetCursor tp' g' y =>
      refine cursor?_onPartition (fun p hn hp ↦ ?_) hx
      have htp : tp' = tp := (hs.named hn).symm.trans hh.name
      have hne : g ≠ g' := fun heq ↦ hop y (by rw [htp, heq])
      dsimp only
      rw [Store.cursor?_resetCursor, if_neg hne, hp]
  | range | cursor | cursors =>
      simp only [operate, atPartition]
      split <;> exact hx
  | _ => exact hx

end Bridge

namespace World

variable {w : World} {ch : Choice} {e : Event} {tp : TopicPartition} {h : Handle} {g : String}
variable {x : Position}

/-- A cursor of an object that nobody resets stays where it is, unless a persist pass has another
position for it. -/
theorem cursor?_step (hw : w.Named) (hh : w.bridge.store.Refers h tp)
    (hx : (w.bridge.store.partition h).cursor? g = some x)
    (he : ∀ y, e ≠ .operate (.resetCursor tp g y))
    (hpasses : ∀ τ c t s, w.callOf τ = some c → c.purpose? = some (.persist t s) →
      s.target = tp → s.key.group = g → s.position = x) :
    ((w.step ch e).bridge.store.partition h).cursor? g = some x := by
  have hmove : Move w ch (w.step ch e) e := move_step e
  generalize w.step ch e = w' at hmove
  cases hmove with
  | @operates op bridge calls =>
      exact bridge ▸ Bridge.cursor?_operate hw.tidy hh hx op fun y heq ↦ he y (heq ▸ rfl)
  | @flies n bridge calls =>
      obtain ⟨_, _, _, _, _, _, _, hb⟩ := w.bridge.stepFlight_eq w.now n ch.draw
      rw [bridge, hb]
      exact hx
  | @goes τ c was bridge self others =>
      obtain ⟨_, _, hs⟩ | ⟨t, s, hd, hhanded, hs⟩ := w.bridge.store_stepCall_cases ch.order w.now c
      · rw [bridge, hs]
        exact hx
      · rw [bridge, hs]
        refine Store.cursor?_writeCursor hx fun hobject ↦ ?_
        have htarget : s.target = tp := by
          rw [← hh.name, Store.partition, ← hobject]
          exact (hw.refers_of_handed was hhanded).name.symm
        exact hpasses τ c t s was (Bridge.purpose?_of_handed hhanded) htarget
  | @cancels n c was bridge self others =>
      obtain ⟨_, hb⟩ := w.bridge.cancelCall_eq c
      rw [bridge, hb]
      exact hx
  | begins bridge self others => exact bridge ▸ hx
  | idles bridge calls => exact bridge ▸ hx

end World

end GroupOffsets
