import GroupOffsets.Proofs.Aloft

/-!
# Serving

A bridge *serves* when every partition that exists is cached, by the handle on its object, and no
resolution is under way for one.  As long as partitions are neither made, deleted, registered nor
thrown out of the cache, it goes on serving, whatever else happens to it; and a durable cursor moves
only when a persist pass asks for its partition.
-/

namespace GroupOffsets

open World (Choice Event Task)

/-! ## Stores -/

namespace Store

variable {s s' s'' : Store} {tp : TopicPartition} {n : Nat} {p : Partition}

/-- Two stores with the same partitions, in the same objects, and the same cursors waiting. -/
structure SamePartitions (s s' : Store) : Prop where
  tidy : s.Tidy → s'.Tidy
  objects : ∀ tp, s'.object? tp = s.object? tp
  pending : s'.pending = s.pending

theorem SamePartitions.refl : SamePartitions s s := ⟨id, fun _ ↦ rfl, rfl⟩

theorem SamePartitions.trans (h : SamePartitions s s') (h' : SamePartitions s' s'') :
    SamePartitions s s'' :=
  ⟨h'.tidy ∘ h.tidy, fun tp ↦ (h'.objects tp).trans (h.objects tp), h'.pending.trans h.pending⟩

/-- Neither how a store behaves nor what it counts has to do with its partitions. -/
theorem samePartitions_behaviour (unavailable : Std.ExtTreeSet TopicPartition)
    (lookupDelay failing lookups : Nat) (faults : Std.ExtTreeMap TopicPartition LookupFault)
    (nextWrapper : Nat) :
    SamePartitions s { s with unavailable, lookupDelay, failing, lookups, faults, nextWrapper } :=
  ⟨fun h ↦ ⟨h.old, h.apart, h.named⟩, fun _ ↦ rfl, rfl⟩

theorem samePartitions_setObject (hn : s.object? tp = some n) (hp : p.name = tp) :
    SamePartitions s (s.setObject n p) :=
  ⟨fun h ↦ h.setObject hn hp, fun _ ↦ rfl, rfl⟩

end Store

/-! ## Bridges -/

namespace Bridge

variable {b b' : Bridge} {order : Itinerary} {now n : Nat} {c : Call} {draw : Option Nat}

/-- Every existing partition is cached, and no resolution is out for one, nor has found one. -/
structure Serving (b : Bridge) : Prop where
  tidy : b.store.Tidy
  cached : ∀ {tp h}, b.cache.get? tp = some h ↔ ∃ n, b.store.object? tp = some n ∧ h = ⟨n, none⟩
  aloft : ∀ {n : Nat} {f : Flight}, b.aloft[n]? = some f → b.store.object? f.target = none
  landed : ∀ n h, b.flights.outcome? n ≠ some (some (.found h))

/-- A bridge that serves the partitions that another one has, with every cursor where it was. -/
structure Steady (b b' : Bridge) : Prop where
  serving : b'.Serving
  partitions : b.store.SamePartitions b'.store
  cursors : b'.store.cursorOf = b.store.cursorOf

theorem Steady.refl (h : b.Serving) : Steady b b := ⟨h, .refl, rfl⟩

theorem Serving.get?_eq_none {tp : TopicPartition} (h : b.Serving)
    (hget : b.cache.get? tp = none) : b.store.object? tp = none := by
  cases hn : b.store.object? tp with
  | none => rfl
  | some n =>
      have hsome := h.cached.mpr ⟨n, hn, rfl⟩
      rw [hget] at hsome
      cases hsome

theorem Serving.get?_of_object? {tp : TopicPartition} (h : b.Serving)
    (hn : b.store.object? tp = none) : b.cache.get? tp = none := by
  cases hget : b.cache.get? tp with
  | none => rfl
  | some hd =>
      obtain ⟨n, hsome, -⟩ := h.cached.mp hget
      rw [hn] at hsome
      cases hsome

/-- Serving is about the partitions, the cache and the resolutions. -/
theorem Serving.congr (h : b.Serving) (hstore : b.store.SamePartitions b'.store)
    (hcache : b'.cache = b.cache) (haloft : b'.aloft = b.aloft)
    (hflights : b'.flights = b.flights) : b'.Serving where
  tidy := hstore.tidy h.tidy
  cached := by
    intro tp hd
    rw [hcache, hstore.objects]
    exact h.cached
  aloft := by
    intro n f hf
    rw [haloft] at hf
    rw [hstore.objects]
    exact h.aloft hf
  landed := by
    intro n hd
    rw [hflights]
    exact h.landed n hd

/-- A resolution of a partition that does not exist may be under way. -/
theorem Serving.board {f : Flight} (h : b.Serving) (hf : b.store.object? f.target = none)
    (n : Nat) :
    ({ b with aloft := b.aloft.insert n f } : Bridge).Serving where
  tidy := h.tidy
  cached := h.cached
  aloft := by
    intro m f' hf'
    have hf' : (b.aloft.insert n f)[m]? = some f' := hf'
    by_cases hm : n = m
    · subst hm
      rw [Std.ExtTreeMap.getElem?_insert_self] at hf'
      cases hf'
      exact hf
    · simp only [Std.ExtTreeMap.getElem?_insert, Std.LawfulEqCmp.compare_eq_iff_eq, hm,
        if_false] at hf'
      exact h.aloft hf'
  landed := h.landed

theorem Serving.join {tp : TopicPartition} (h : b.Serving) (hn : b.store.object? tp = none) :
    (b.joinFlight tp).2.Serving := by
  have hflights : ({ b with flights := (b.flights.join tp).2 } : Bridge).Serving := by
    refine ⟨h.tidy, h.cached, h.aloft, fun n hd ↦ ?_⟩
    rw [Flights.outcome?_join]
    exact h.landed n hd
  rw [joinFlight]
  dsimp only
  split
  · exact hflights.board hn _
  · exact hflights

/-! ### Resolutions -/

theorem Serving.land {outcome : Option Resolution} (h : b.Serving)
    (hout : ∀ hd, outcome ≠ some (.found hd)) (n : Nat) : (b.land n outcome).Serving where
  tidy := h.tidy
  cached := h.cached
  aloft := by
    intro m f hf
    have hf : (b.aloft.erase n)[m]? = some f := hf
    rw [Std.ExtTreeMap.getElem?_erase] at hf
    split at hf
    · cases hf
    · exact h.aloft hf
  landed := by
    intro m hd heq
    rcases Flights.outcome?_finish heq with hold | hnew
    · exact h.landed m hd hold
    · exact hout hd hnew.symm

theorem Serving.conclude {f : Flight} {l : Option Lookup} (h : b.Serving)
    (hf : b.store.object? f.target = none) (hl : ∀ hd, l ≠ some (.found hd)) :
    (b.conclude draw now n f l).Serving := by
  have hfound : ∀ hd, (f.judge b.settings.retry draw (b.clock now) l).1 ≠ .settled (.found hd) :=
    fun hd hj ↦ hl hd (Flight.judge_found hj)
  have htarget : (f.judge b.settings.retry draw (b.clock now) l).2.target = f.target :=
    Flight.target_judge
  rw [Bridge.conclude]
  split
  · rename_i hd f' heq
    exact absurd (congrArg Prod.fst heq) (hfound hd)
  · rename_i r f' hr heq
    refine h.land (fun hd hrd ↦ ?_) n
    cases hrd
    exact hr hd rfl
  · exact h.land (fun hd hrd ↦ by cases hrd) n
  · rename_i delay f' heq
    refine h.board ?_ n
    rw [heq] at htarget
    exact htarget ▸ hf

theorem Serving.answerLookup {f : Flight} (h : b.Serving) (hf : b.store.object? f.target = none) :
    Steady b (b.answerLookup draw now n f) := by
  obtain ⟨failing, nextWrapper, hs⟩ := b.store.lookup_eq f.target
  have hsame : b.store.SamePartitions (b.store.lookup f.target).2 :=
    hs ▸ Store.samePartitions_behaviour _ _ _ _ _ _
  have hserving : ({ b with store := (b.store.lookup f.target).2 } : Bridge).Serving :=
    h.congr hsame rfl rfl rfl
  have hstore : (b.answerLookup draw now n f).store = (b.store.lookup f.target).2 := by
    obtain ⟨_, _, _, _, hb⟩ := conclude_eq { b with store := (b.store.lookup f.target).2 } now n
      draw f (some (b.store.lookup f.target).1)
    exact congrArg Bridge.store hb
  refine ⟨?_, hstore ▸ hsame, ?_⟩
  · refine hserving.conclude ((hsame.objects _).trans hf) fun hd hl ↦ ?_
    exact Store.lookup_ne_found hf hd (Option.some.inj hl)
  · rw [hstore, hs]
    rfl

theorem Serving.beginLookup {f : Flight} (h : b.Serving) (hf : b.store.object? f.target = none) :
    Steady b (b.beginLookup draw now n f) := by
  have hsame : b.store.SamePartitions b.store.beginLookup :=
    Store.samePartitions_behaviour _ _ _ _ _ _
  have hserving : ({ b with store := b.store.beginLookup } : Bridge).Serving :=
    h.congr hsame rfl rfl rfl
  unfold Bridge.beginLookup
  dsimp only
  split
  · have hanswer : Steady { b with store := b.store.beginLookup }
        (Bridge.answerLookup { b with store := b.store.beginLookup } draw now n f) :=
      hserving.answerLookup hf
    exact ⟨hanswer.serving, hsame.trans hanswer.partitions, hanswer.cursors⟩
  · refine ⟨hserving.board ?_ n, hsame, rfl⟩
    exact hf

/-- What is resolved is not there, so nothing comes of it. -/
theorem Serving.stepFlight (h : b.Serving) : Steady b (b.stepFlight draw now n) := by
  unfold Bridge.stepFlight
  split
  · exact .refl h
  · rename_i f hf
    have hnone := h.aloft hf
    split
    · rw [h.get?_of_object? hnone]
      exact h.beginLookup hnone
    · split
      · exact h.answerLookup hnone
      · split
        · refine ⟨h.conclude hnone fun hd hl ↦ (by cases hl), ?_, ?_⟩
          all_goals
            obtain ⟨_, _, _, _, hb⟩ := b.conclude_eq now n draw f none
            rw [hb]
          exact .refl
        · exact .refl h
    · split
      · exact h.beginLookup hnone
      · exact .refl h

/-! ### Operations -/

end Bridge

/-- Whether an operation leaves alone which partitions there are and which are cached, and where
the cursors stand. -/
def Operation.sparesPartitions : Operation → Bool
  | register _ | registerDetached _ | unregister _ | unregisterTopic _ | insertDetached _
  | refreshDetached _ | invalidate _ | invalidateTopic _ | createPartition _ | deletePartition _
  | openCursor _ _ | resetCursor _ _ _ => false
  | _ => true

namespace Bridge

variable {b b' : Bridge} {order : Itinerary} {now n : Nat} {c : Call} {draw : Option Nat}

theorem Serving.onPartition {f : Partition → Reply Handle × Partition} (h : b.Serving)
    (hf : ∀ p, (f p).2.name = p.name ∧ (f p).2.cursors = p.cursors) (tp : TopicPartition) :
    Steady b (b.onPartition tp f).2 := by
  unfold Bridge.onPartition
  split
  · exact .refl h
  · rename_i n hn
    obtain ⟨hname, hcursors⟩ := hf (b.store.object n)
    have hsame := Store.samePartitions_setObject hn (hname.trans (h.tidy.named hn))
    refine ⟨h.congr hsame rfl rfl rfl, hsame, ?_⟩
    funext tp' g
    rw [Store.cursorOf_setObject h.tidy hn]
    split
    · rename_i htp
      rw [htp, Store.cursorOf, hn, Option.bind_some, Partition.cursor?, Partition.cursor?, hcursors]
    · rfl

theorem Serving.operate {op : Operation} (h : b.Serving) (hop : op.sparesPartitions) :
    Steady b (b.operate op).2 := by
  have behaves : ∀ unavailable lookupDelay failing lookups faults nextWrapper,
      Steady b { b with store := { b.store with
        unavailable, lookupDelay, failing, lookups, faults, nextWrapper } } :=
    fun _ _ _ _ _ _ ↦ ⟨h.congr (Store.samePartitions_behaviour ..) rfl rfl rfl,
      Store.samePartitions_behaviour .., rfl⟩
  cases op with
  | setRange tp first last => exact h.onPartition (fun p ↦ ⟨rfl, rfl⟩) tp
  | append tp => exact h.onPartition (fun p ↦ ⟨rfl, rfl⟩) tp
  | roll tp => exact h.onPartition (fun p ↦ ⟨rfl, rfl⟩) tp
  | trim tp x => exact h.onPartition (fun p ↦ ⟨rfl, rfl⟩) tp
  | range | cursor | cursors =>
      unfold Bridge.operate atPartition
      dsimp only
      split <;> exact .refl h
  | setUnavailable tp yes => exact behaves ..
  | failNext n => exact behaves ..
  | setLookupDelay ms => exact behaves ..
  | setFault tp fault => exact behaves ..
  | register | registerDetached | unregister | unregisterTopic | insertDetached => cases hop
  | refreshDetached | invalidate | invalidateTopic | createPartition | deletePartition => cases hop
  | openCursor | resetCursor => cases hop
  | _ => exact ⟨h.congr .refl rfl rfl rfl, .refl, rfl⟩

end Bridge

/-! ### Calls -/

namespace Bridge

variable {b b' : Bridge} {order : Itinerary} {now n : Nat} {c : Call} {p : Purpose}
variable {r : Attempt Handle} {tp : TopicPartition} {t : Nat} {s : Persist}

/-- What a delivery can change that moves no cursor. -/
theorem deliver_eq_of_unmoved (b : Bridge) (order : Itinerary)
    (h : (∀ t s, p ≠ .persist t s) ∨ ∃ e, r = .error e) : ∃ table metrics persistTurn,
      (b.deliver order p r).1 = { b with table, metrics, persistTurn } := by
  cases p with
  | persist t s =>
      rcases h with h | ⟨e, rfl⟩
      · exact absurd rfl (h t s)
      · obtain ⟨metrics, persistTurn, hb⟩ := b.continuePersist_eq t s.report
          (s.answer order b.table b.isSystemGroup false)
        exact ⟨b.table, metrics, persistTurn, hb⟩
  | _ => exact ⟨_, _, _, rfl⟩

/-- Who waits for a resolution is not given a partition. -/
theorem Serving.handed_of_awaits (h : b.Serving) (hc : c.awaits? = some tp)
    (hh : b.handed now c = some (p, r)) : ∃ e, r = .error e := by
  cases c with
  | waiting q n deadline =>
      simp only [handed] at hh
      split at hh
      · rename_i outcome hout
        cases hh
        rcases outcome with _ | hd | _ | attempts
        · exact ⟨_, rfl⟩
        · exact absurd hout (h.landed n hd)
        · exact ⟨_, rfl⟩
        · exact ⟨_, rfl⟩
      · split at hh
        · cases hh
          exact ⟨_, rfl⟩
        · cases hh
  | _ => cases hc

/-- A call that moves no cursor leaves the partitions as they are. -/
theorem Serving.steady_stepCall (h : b.Serving)
    (hc : ∀ t s, c = .asking (.persist t s) → b.store.object? s.target = none) :
    Steady b (b.stepCall order now c).1 := by
  cases hp : c.purpose? with
  | none =>
      obtain ⟨failing, lookups, _, _, hb⟩ := b.stepCall_idle_eq order now hp
      have hsame := Store.samePartitions_behaviour (s := b.store) b.store.unavailable
        b.store.lookupDelay failing lookups b.store.faults b.store.nextWrapper
      rw [hb]
      exact ⟨h.congr hsame rfl rfl rfl, hsame, rfl⟩
  | some p =>
      cases hh : b.handed now c with
      | none =>
          obtain ⟨-, hb | ⟨hget, hb⟩⟩ := stepCall_of_not_handed order hp hh
          · rw [hb]
            exact .refl h
          · rw [hb]
            exact ⟨h.join (h.get?_eq_none hget), .refl, rfl⟩
      | some pr =>
          obtain ⟨q, r⟩ := pr
          have hunmoved : (∀ t s, q ≠ .persist t s) ∨ ∃ e, r = .error e := by
            cases c with
            | asking q' =>
                left
                intro t s hq
                cases purpose?_of_handed hh
                subst hq
                rw [handed, Purpose.target, h.get?_of_object? (hc t s rfl)] at hh
                cases hh
            | waiting q' n deadline => exact .inr (h.handed_of_awaits rfl hh)
            | _ => cases hp
          obtain ⟨metrics, hb⟩ := stepCall_of_handed order hh
          obtain ⟨table, metrics', persistTurn, hb'⟩ :=
            deliver_eq_of_unmoved { b with metrics } order hunmoved
          rw [hb, hb']
          exact ⟨h.congr .refl rfl rfl rfl, .refl, rfl⟩

/-- After a step a call waits only for what does not exist. -/
theorem Serving.awaits_stepCall (h : b.Serving)
    (hc : ∀ tp, c.awaits? = some tp → b.store.object? tp = none)
    (htp : (b.stepCall order now c).2.awaits? = some tp) : b.store.object? tp = none := by
  cases hp : c.purpose? with
  | none =>
      rw [awaits?_stepCall_idle hp] at htp
      cases htp
  | some p =>
      cases hh : b.handed now c with
      | none =>
          have htarget : tp = p.target := by
            obtain ⟨hp', -⟩ := stepCall_of_not_handed order hp hh
            cases hc' : (b.stepCall order now c).2 with
            | waiting q n deadline =>
                rw [hc'] at hp' htp
                cases hp'
                exact (Option.some.inj htp).symm
            | _ =>
                rw [hc'] at htp
                cases htp
          rw [htarget]
          cases c with
          | asking q =>
              cases hp
              exact h.get?_eq_none (Option.map_eq_none_iff.mp hh)
          | waiting q n deadline =>
              cases hp
              exact hc _ rfl
          | _ => cases hp
      | some pr =>
          obtain ⟨metrics, hb⟩ := stepCall_of_handed order hh
          rw [hb, awaits?_deliver] at htp
          cases htp

/-- A persist pass that asks for a partition which exists moves the cursor that it is about. -/
theorem Serving.stepCall_persist (h : b.Serving) (hn : b.store.object? s.target = some n)
    (order : Itinerary) (now t : Nat) :
    (b.stepCall order now (.asking (.persist t s))).1.Serving ∧
      b.store.SamePartitions (b.stepCall order now (.asking (.persist t s))).1.store ∧
      ∀ tp g, (b.stepCall order now (.asking (.persist t s))).1.store.cursorOf tp g =
        if tp = s.target ∧ g = s.key.group then some s.position else b.store.cursorOf tp g := by
  have hget : b.cache.get? (Purpose.persist t s).target = some ⟨n, none⟩ :=
    h.cached.mpr ⟨n, hn, rfl⟩
  obtain ⟨store, hstore⟩ : ∃ store, store = b.store.setObject n
    (((b.store.object n).openCursor s.key.group).resetCursor s.key.group s.position) := ⟨_, rfl⟩
  have hb : ∃ metrics persistTurn, (b.stepCall order now (.asking (.persist t s))).1 =
      { b with store, metrics, persistTurn } := by
    simp only [Bridge.stepCall, hget, deliver, moveCursor, Store.writeCursor_plain, ← hstore]
    obtain ⟨metrics, persistTurn, hb⟩ := continuePersist_eq { b with store } t s.report _
    exact ⟨metrics, persistTurn, hb⟩
  have hsame : b.store.SamePartitions store := by
    rw [hstore]
    exact Store.samePartitions_setObject hn (Store.name_resetCursor.trans (h.tidy.named hn))
  obtain ⟨metrics, persistTurn, hb⟩ := hb
  rw [hb]
  refine ⟨h.congr hsame rfl rfl rfl, hsame, fun tp g ↦ ?_⟩
  dsimp only
  rw [hstore, Store.cursorOf_setObject h.tidy hn, Store.cursor?_resetCursor]
  by_cases htp : tp = s.target
  · by_cases hg : g = s.key.group
    · rw [if_pos htp, if_pos hg, if_pos ⟨htp, hg⟩]
    · rw [if_pos htp, if_neg hg, if_neg fun hand ↦ hg hand.2, htp, Store.cursorOf, hn]
      rfl
  · rw [if_neg htp, if_neg fun hand ↦ htp hand.1]

theorem Serving.stepCall (h : b.Serving) (order : Itinerary) (now : Nat) (c : Call) :
    (b.stepCall order now c).1.Serving ∧
      b.store.SamePartitions (b.stepCall order now c).1.store := by
  by_cases hc : ∀ t s, c = .asking (.persist t s) → b.store.object? s.target = none
  · have hsteady : Steady b (b.stepCall order now c).1 := h.steady_stepCall hc
    exact ⟨hsteady.serving, hsteady.partitions⟩
  · simp only [not_forall] at hc
    obtain ⟨t, s, rfl, hsome⟩ := hc
    obtain ⟨n, hn⟩ := Option.ne_none_iff_exists'.mp hsome
    have hmoved := h.stepCall_persist hn order now t
    exact ⟨hmoved.1, hmoved.2.1⟩

end Bridge

/-! ## Worlds -/

namespace World

variable {w : World} {ch : Choice} {e : Event} {es : List (Choice × Event)}

/-- Whether an event leaves alone which partitions there are and which are cached. -/
def Event.sparesPartitions : Event → Bool
  | .operate op => op.sparesPartitions
  | _ => true

/-- A world whose bridge serves, and where nobody waits for a partition that exists. -/
structure Serving (w : World) : Prop where
  bridge : w.bridge.Serving
  awaits : ∀ {τ c tp}, w.callOf τ = some c → c.awaits? = some tp → w.bridge.store.object? tp = none

theorem serving_new {b : Bridge} (h : b.Serving) (now : Nat) : (new now b).Serving := by
  refine ⟨h, fun {τ} _ _ hc ↦ ?_⟩
  cases τ <;> simp [new, callOf] at hc

/-- A world goes on serving. -/
theorem serving_step (h : w.Serving) (ch : Choice) (he : e.sparesPartitions) :
    (w.step ch e).Serving ∧ w.bridge.store.SamePartitions (w.step ch e).bridge.store := by
  have hbridge : (w.step ch e).bridge.Serving ∧
      w.bridge.store.SamePartitions (w.step ch e).bridge.store := by
    have hmove : Move w ch (w.step ch e) e := move_step e
    generalize w.step ch e = w' at hmove ⊢
    cases hmove with
    | operates bridge calls =>
        have hsteady := h.bridge.operate he
        rw [bridge]
        exact ⟨hsteady.serving, hsteady.partitions⟩
    | @flies n bridge calls =>
        have hsteady : w.bridge.Steady (w.bridge.stepFlight ch.draw w.now n) := h.bridge.stepFlight
        rw [bridge]
        exact ⟨hsteady.serving, hsteady.partitions⟩
    | @goes τ c was bridge self others =>
        rw [bridge]
        exact h.bridge.stepCall ch.order w.now c
    | @cancels n c was bridge self others =>
        obtain ⟨persistTurn, hb⟩ := w.bridge.cancelCall_eq c
        rw [bridge, hb]
        exact ⟨h.bridge.congr .refl rfl rfl rfl, .refl⟩
    | begins bridge self others =>
        rw [bridge]
        exact ⟨h.bridge, .refl⟩
    | idles bridge calls =>
        rw [bridge]
        exact ⟨h.bridge, .refl⟩
  obtain ⟨hserving, hsame⟩ := hbridge
  refine ⟨⟨hserving, ?_⟩, hsame⟩
  intro τ c' tp hc htp
  rw [hsame.objects]
  rcases callOf_step_cases hc with hold | ⟨r, rfl⟩ | ⟨c, hwas, rfl⟩
  · exact h.awaits hold htp
  · cases htp
  · exact h.bridge.awaits_stepCall (fun _ ↦ h.awaits hwas) htp

/-- A durable cursor moves only in a persist pass that asks for its partition. -/
theorem cursors_step (h : w.Serving) (ch : Choice) (he : e.sparesPartitions) :
    (w.step ch e).bridge.store.cursorOf = w.bridge.store.cursorOf ∨
      ∃ τ t s, w.callOf τ = some (.asking (.persist t s)) ∧
        ∀ tp g, (w.step ch e).bridge.store.cursorOf tp g =
          if tp = s.target ∧ g = s.key.group then some s.position
          else w.bridge.store.cursorOf tp g := by
  have hmove : Move w ch (w.step ch e) e := move_step e
  generalize w.step ch e = w' at hmove ⊢
  cases hmove with
  | operates bridge calls => exact .inl (bridge ▸ (h.bridge.operate he).cursors)
  | @flies n bridge calls =>
      have hsteady : w.bridge.Steady (w.bridge.stepFlight ch.draw w.now n) := h.bridge.stepFlight
      exact .inl (bridge ▸ hsteady.cursors)
  | @goes τ c was bridge self others =>
      by_cases hc : ∀ t s, c = .asking (.persist t s) → w.bridge.store.object? s.target = none
      · have hsteady : w.bridge.Steady (w.bridge.stepCall ch.order w.now c).1 :=
          h.bridge.steady_stepCall hc
        exact .inl (bridge ▸ hsteady.cursors)
      · simp only [not_forall] at hc
        obtain ⟨t, s, rfl, hsome⟩ := hc
        obtain ⟨n, hn⟩ := Option.ne_none_iff_exists'.mp hsome
        have hmoved := h.bridge.stepCall_persist hn ch.order w.now t
        exact .inr ⟨τ, t, s, was, bridge ▸ hmoved.2.2⟩
  | @cancels n c was bridge self others =>
      obtain ⟨persistTurn, hb⟩ := w.bridge.cancelCall_eq c
      exact .inl (by rw [bridge, hb])
  | begins bridge self others => exact .inl (by rw [bridge])
  | idles bridge calls => exact .inl (by rw [bridge])

theorem serving_steps (h : w.Serving) (hes : ∀ e ∈ es, e.2.sparesPartitions) :
    (w.steps es).Serving ∧ w.bridge.store.SamePartitions (w.steps es).bridge.store := by
  induction es generalizing w with
  | nil => exact ⟨h, .refl⟩
  | cons e es ih =>
      obtain ⟨hserving, hsame⟩ := serving_step h e.1 (hes e (List.mem_cons_self ..))
      obtain ⟨hserving', hsame'⟩ := ih hserving fun e' he' ↦ hes e' (List.mem_cons_of_mem _ he')
      exact ⟨hserving', hsame.trans hsame'⟩

end World

end GroupOffsets
