import GroupOffsets.Proofs.Ledger
import GroupOffsets.Proofs.Opening
import GroupOffsets.Proofs.Shutdown.Phases
import GroupOffsets.Proofs.Sweep.Step
import GroupOffsets.Proofs.Teardown

/-!
# Where offsets come from

The table makes up no offset.  `World.Gives` says how one can get there: by a commit, by a clone,
from a snapshot that is restored, or from a cursor when its partition is registered.  Whatever a run
has left in the table is traced back through the clones to one of the others, which was for the same
partition.

Of all calls only the sweep passes change the table, and they only drop entries.
-/

namespace GroupOffsets

open World (Choice Event Task Use)

/-- Whether an operation may change the table. -/
def Operation.writes : Operation → Bool
  | commit .. | cloneGroup .. | deleteGroup _ | remove _ | restore _ | register _
  | registerDetached _ => true
  | _ => false

/-! ## Calls -/

namespace Call

/-- Whether a call may drop entries: a sweep pass that is not done. -/
def mayDrop : Call → Bool
  | begun .sweep | asking (.sweep _) | waiting (.sweep _) _ _ => true
  | _ => false

theorem mayDrop_of_purpose? {c : Call} {p : Purpose} (h : c.purpose? = some p) :
    c.mayDrop = true ↔ ∃ s, p = .sweep s := by
  have hasking : c.mayDrop = (asking p).mayDrop := by
    cases c with
    | asking q =>
        cases h
        rfl
    | waiting q n deadline =>
        cases h
        cases p <;> rfl
    | _ => cases h
  rw [hasking]
  cases p <;> simp [mayDrop]

end Call

namespace Bridge

variable {b : Bridge} {order : Itinerary} {now : Nat} {c : Call} {k : GroupTopic} {p : Int32}

theorem mayDrop_continuePersist (t : Nat) (before : PersistReport)
    (q : Progress Persist PersistReport) : (b.continuePersist t before q).2.mayDrop = false := by
  cases q <;> rfl

theorem mayDrop_continueWatermark (q : Progress Watermark PartitionOffsets) :
    (continueWatermark q).mayDrop = false := by
  cases q <;> rfl

theorem mayDrop_deliver {q : Purpose} (h : ¬∃ s, q = .sweep s) (r : Attempt Handle) :
    (b.deliver order q r).2.mayDrop = false := by
  cases q with
  | sweep s => exact absurd ⟨s, rfl⟩ h
  | persist t s => exact mayDrop_continuePersist ..
  | watermark s => exact mayDrop_continueWatermark _
  | _ => rfl

/-- No call turns into a sweep pass on its way. -/
theorem mayDrop_stepCall (order : Itinerary) (now : Nat) (h : c.mayDrop = false) :
    (b.stepCall order now c).2.mayDrop = false := by
  cases hp : c.purpose? with
  | some q =>
      have hq : ¬∃ s, q = .sweep s := by
        rw [← Call.mayDrop_of_purpose? hp, h]
        exact Bool.false_ne_true
      cases hh : b.handed now c with
      | none =>
          rw [← Bool.not_eq_true]
          rwa [Call.mayDrop_of_purpose? (stepCall_of_not_handed order hp hh).1]
      | some pr =>
          obtain ⟨q', r⟩ := pr
          cases (purpose?_of_handed hh).symm.trans hp
          obtain ⟨metrics, hb⟩ := stepCall_of_handed order hh
          rw [hb]
          exact mayDrop_deliver hq r
  | none =>
      cases c with
      | asking q => cases hp
      | waiting q n deadline => cases hp
      | begun r =>
          cases r with
          | sweep => cases h
          | watermark topic excluded => exact mayDrop_continueWatermark _
          | persist =>
              simp only [stepCall, beginCall]
              split
              · exact mayDrop_continuePersist ..
              · rfl
          | locateOwner tp =>
              simp only [stepCall, beginCall]
              split <;> rfl
          | _ => rfl
      | queued turn =>
          simp only [stepCall]
          split
          · exact mayDrop_continuePersist ..
          · rfl
      | sleeping upTo locating =>
          simp only [stepCall]
          split
          · split <;> rfl
          · rfl
      | answered r => rfl

end Bridge

/-- An answer leaves the table as it is, or makes the pass drop the entry that it looks at. -/
theorem Sweep.Step.table_cases {order : Itinerary} {t t' : OffsetTable}
    {subscriptions : Subscriptions} {s : Sweep} {min : Attempt Offset}
    {progress : Progress Sweep (List GroupTopic)}
    (h : Step order t subscriptions s min t' progress) : t' = t ∨ t' = t.erase s.key := by
  cases h with
  | next behind more => exact .inl rfl
  | removes behind last same => exact .inr rfl
  | spares why => exact .inl rfl

namespace Bridge

variable {b : Bridge} {order : Itinerary} {now : Nat} {c : Call} {op : Operation}

theorem table_deliver_cases (q : Purpose) (r : Attempt Handle) :
    (b.deliver order q r).1.table = b.table ∨
      ∃ s, q = .sweep s ∧ (b.deliver order q r).1.table = b.table.erase s.key := by
  cases q with
  | persist t s => exact .inl (table_deliver_persist r)
  | sweep s => exact (Sweep.step_answer s (b.minOffset r)).table_cases.imp_right fun h ↦ ⟨s, rfl, h⟩
  | _ => exact .inl rfl

/-- A step of a call changes the table only if the call is a sweep pass and drops an entry. -/
theorem table_stepCall_cases (b : Bridge) (order : Itinerary) (now : Nat) (c : Call) :
    (b.stepCall order now c).1.table = b.table ∨
      c.mayDrop = true ∧ ∃ k, (b.stepCall order now c).1.table = b.table.erase k := by
  cases hp : c.purpose? with
  | none =>
      obtain ⟨_, _, _, _, hb⟩ := b.stepCall_idle_eq order now hp
      exact .inl (by rw [hb])
  | some q =>
      cases hh : b.handed now c with
      | none =>
          obtain ⟨-, hb | ⟨-, hb⟩⟩ := stepCall_of_not_handed order hp hh
          · exact .inl (by rw [hb])
          · exact .inl (by rw [hb]; rfl)
      | some pr =>
          obtain ⟨q', r⟩ := pr
          cases (purpose?_of_handed hh).symm.trans hp
          obtain ⟨metrics, hb⟩ := stepCall_of_handed order hh
          rw [hb]
          refine (table_deliver_cases q r).imp_right ?_
          rintro ⟨s, rfl, htable⟩
          exact ⟨(Call.mayDrop_of_purpose? hp).mpr ⟨s, rfl⟩, s.key, htable⟩

theorem table_operate (h : op.writes = false) : (b.operate op).2.table = b.table := by
  cases op with
  | commit | cloneGroup | deleteGroup | remove | restore | register | registerDetached => cases h
  | setRange | append | roll | trim | openCursor | resetCursor =>
      simp only [operate, onPartition]
      split <;> rfl
  | range | cursor | cursors =>
      simp only [operate, atPartition]
      split <;> rfl
  | _ => rfl

end Bridge

/-! ## Registrations -/

namespace Bridge

/-- The cached handle on a registered partition gives the offsets of its cursors to the groups of
users that have none. -/
theorem query_register (b : Bridge) (order : List Nat) (h : Handle) (k : GroupTopic) (p : Int32) :
    (b.register order h).2.2.table.query k p = (b.table.query k p).or
      (if (⟨k.topic, p⟩ : TopicPartition) = (b.store.partition h).name then
        if b.isSystemGroup k.group then none
        else ((b.store.partition (b.register order h).1).cursor? k.group).bind
          fun x : Position ↦ x.encode.toOption
      else none) := by
  simp only [register]
  rw [query_seedCursors, findSome?_seedOf (arrange_perm order _)]
  rfl

theorem get?_register (b : Bridge) (order : List Nat) (h : Handle) :
    (b.register order h).2.2.cache.get? (b.store.partition h).name =
      some (b.register order h).1 :=
  Cache.get?_insertIfAbsent_self ..

end Bridge

namespace World

variable {w : World} {u : Use} {us : List Use} {ch : Choice} {e : Event} {k : GroupTopic}
variable {p : Int32} {o : Offset} {x : Position} {tp : TopicPartition} {m : Nat}

/-- The partition that a use registers. -/
def registers (w : World) : Use → Option TopicPartition
  | .register _ h => some (w.bridge.store.partition h).name
  | .event _ (.operate (.register tp)) =>
    (w.bridge.store.object? tp).map fun n ↦ (w.bridge.store.object n).name
  | .event _ (.operate (.registerDetached p)) => some p.name
  | _ => none

/-- What registering a partition makes of the table. -/
theorem query_use_of_registers (h : w.registers u = some tp) :
    ∃ hd, (w.use u).bridge.cache.get? tp = some hd ∧ ∀ k p,
      (w.use u).bridge.table.query k p = (w.bridge.table.query k p).or
        (if (⟨k.topic, p⟩ : TopicPartition) = tp then
          if w.bridge.isSystemGroup k.group then none
          else (((w.use u).bridge.store.partition hd).cursor? k.group).bind
            fun x : Position ↦ x.encode.toOption
        else none) := by
  cases u with
  | register order hd =>
      cases h
      exact ⟨_, w.bridge.get?_register order hd, w.bridge.query_register order hd⟩
  | event ch e =>
      cases e with
      | operate op =>
          cases op with
          | register tp' =>
              obtain ⟨n, hn, rfl⟩ := Option.map_eq_some_iff.mp h
              have huse : (w.use (.event ch (.operate (.register tp')))).bridge =
                  (w.bridge.register [] ⟨n, none⟩).2.2 := by
                simp only [use, step, operate, Bridge.operate, hn, Bridge.registered]
              rw [huse]
              exact ⟨_, w.bridge.get?_register [] ⟨n, none⟩, w.bridge.query_register [] ⟨n, none⟩⟩
          | registerDetached q =>
              cases h
              have hname := (w.bridge.store.refers_allocate q).name
              have hcached := (w.bridge.detach q).2.get?_register []
                ⟨w.bridge.store.nextObject, none⟩
              have hquery := (w.bridge.detach q).2.query_register []
                ⟨w.bridge.store.nextObject, none⟩
              exact ⟨_, hname ▸ hcached, hname ▸ hquery⟩
          | _ => cases h
      | _ => cases h
  | _ => cases h

/-- A use registers a partition, and the cursor of a group of users, on the handle that is cached
for it then, stands at this position. -/
structure Seeds (w : World) (u : Use) (k : GroupTopic) (p : Int32) (x : Position) : Prop where
  registers : w.registers u = some ⟨k.topic, p⟩
  user : w.bridge.isSystemGroup k.group = false
  stands : ∃ h, (w.use u).bridge.cache.get? ⟨k.topic, p⟩ = some h ∧
    ((w.use u).bridge.store.partition h).cursor? k.group = some x

/-- A cursor gives its offset to a group that has none. -/
theorem Seeds.query_use (h : w.Seeds u k p x) (ho : x.encode = .ok o)
    (hnone : w.bridge.table.query k p = none) : (w.use u).bridge.table.query k p = some o := by
  obtain ⟨hregisters, huser, hd, hcached, hstands⟩ := h
  obtain ⟨hd', hcached', hquery⟩ := query_use_of_registers hregisters
  cases hcached.symm.trans hcached'
  rw [hquery, hnone, if_pos rfl, huser, if_neg Bool.false_ne_true, hstands, Option.none_or,
    Option.bind_some, ho]
  rfl

/-! ## What a use gives to a group -/

/-- How an offset that was not there comes to a group on a partition. -/
inductive Gives (w : World) (k : GroupTopic) (p : Int32) (o : Offset) : Use → Prop
  | commit {ch : Choice} : Gives w k p o (.event ch (.operate (.commit k p o)))
  | clone {ch : Choice} {source : String}
      (held : w.bridge.table.query ⟨source, k.topic⟩ p = some o) :
      Gives w k p o (.event ch (.operate (.cloneGroup source k.group k.topic)))
  | restore {ch : Choice} {s : Snapshot} (held : Ledger.ofSnapshot s k p = some o) :
      Gives w k p o (.event ch (.operate (.restore s)))
  | cursor {u : Use} {x : Position} (seeds : w.Seeds u k p x) (encodes : x.encode = .ok o) :
      Gives w k p o u

theorem gives_of_registers (h : w.registers u = some tp)
    (ho : (w.use u).bridge.table.query k p = some o) :
    w.bridge.table.query k p = some o ∨ w.Gives k p o u := by
  obtain ⟨hd, hcached, hquery⟩ := query_use_of_registers h
  rw [hquery] at ho
  rcases Option.or_eq_some_iff.mp ho with hold | ⟨-, hnew⟩
  · exact .inl hold
  · split at hnew
    · rename_i htp
      subst htp
      split at hnew
      · cases hnew
      · rename_i huser
        obtain ⟨x, hx, hencode⟩ := Option.bind_eq_some_iff.mp hnew
        refine .inr (.cursor (x := x) ⟨h, by simpa using huser, hd, hcached, hx⟩ ?_)
        cases he : x.encode with
        | error e => simp [he, Except.toOption] at hencode
        | ok o' =>
            rw [he] at hencode
            cases hencode
            rfl
    · cases hnew

theorem query_of_erase {t t' : OffsetTable} {k' : GroupTopic} (h : t' = t.erase k')
    (ho : t'.query k p = some o) : t.query k p = some o := by
  rw [h, OffsetTable.query_erase] at ho
  split at ho
  · cases ho
  · exact ho

theorem gives_of_operate {op : Operation} (ch : Choice)
    (ho : (w.bridge.operate op).2.table.query k p = some o) :
    w.bridge.table.query k p = some o ∨ w.Gives k p o (.event ch (.operate op)) := by
  cases op with
  | commit k' p' o' =>
      replace ho : (w.bridge.table.commit k' p' o').query k p = some o := ho
      rw [OffsetTable.query_commit] at ho
      split at ho
      · rename_i hat
        obtain ⟨rfl, rfl⟩ := hat
        cases ho
        exact .inr .commit
      · exact .inl ho
  | cloneGroup source dest topic =>
      replace ho : (w.bridge.table.cloneGroup source dest topic).query k p = some o := ho
      rw [OffsetTable.query_cloneGroup] at ho
      split at ho
      · rename_i hk
        subst hk
        rcases Option.or_eq_some_iff.mp ho with hnew | ⟨-, hold⟩
        · exact .inr (.clone hnew)
        · exact .inl hold
      · exact .inl ho
  | deleteGroup group =>
      replace ho : (w.bridge.table.deleteGroup group).2.query k p = some o := ho
      rw [OffsetTable.query_deleteGroup] at ho
      split at ho
      · cases ho
      · exact .inl ho
  | remove k' => exact .inl (query_of_erase rfl ho)
  | restore s =>
      replace ho : (w.bridge.table.restore s).query k p = some o := ho
      rw [OffsetTable.query_restore] at ho
      exact .inr (.restore ho)
  | register tp =>
      cases hn : w.bridge.store.object? tp with
      | none =>
          simp only [Bridge.operate, hn] at ho
          exact .inl ho
      | some n => exact gives_of_registers (congrArg (Option.map _) hn) ho
  | registerDetached q =>
      exact gives_of_registers (u := .event ch (.operate (.registerDetached q))) rfl ho
  | setRange | append | roll | trim | openCursor | resetCursor =>
      simp only [Bridge.operate, Bridge.onPartition] at ho
      split at ho <;> exact .inl ho
  | range | cursor | cursors =>
      simp only [Bridge.operate, Bridge.atPartition] at ho
      split at ho <;> exact .inl ho
  | _ => exact .inl ho

theorem query_step_cases (ho : (w.step ch e).bridge.table.query k p = some o) :
    w.bridge.table.query k p = some o ∨ w.Gives k p o (.event ch e) := by
  have hmove : Move w ch (w.step ch e) e := move_step e
  generalize w.step ch e = w' at hmove ho
  cases hmove with
  | operates bridge calls => exact gives_of_operate ch (bridge ▸ ho)
  | @flies n bridge calls =>
      rw [bridge, Bridge.table_stepFlight] at ho
      exact .inl ho
  | @goes τ c was bridge self others =>
      rw [bridge] at ho
      obtain hsame | ⟨-, k', herase⟩ := w.bridge.table_stepCall_cases ch.order w.now c
      · exact .inl (hsame ▸ ho)
      · exact .inl (query_of_erase herase ho)
  | @cancels n c was bridge self others =>
      obtain ⟨_, hb⟩ := w.bridge.cancelCall_eq c
      rw [bridge, hb] at ho
      exact .inl ho
  | begins bridge self others => exact .inl (bridge ▸ ho)
  | idles bridge calls => exact .inl (bridge ▸ ho)

/-- An offset that is there after a use was there before, or has come in one of the four ways. -/
theorem query_use_cases (ho : (w.use u).bridge.table.query k p = some o) :
    w.bridge.table.query k p = some o ∨ w.Gives k p o u := by
  cases u with
  | event ch e => exact query_step_cases ho
  | register order hd => exact gives_of_registers (u := .register order hd) rfl ho
  | _ => exact .inl ho

/-! ## What leaves the table alone -/

/-- Whether a use may change the table: an operation that does, a registration, or a step of a sweep
pass. -/
def Writes (w : World) : Use → Prop
  | .event _ (.operate op) => op.writes = true
  | .event _ (.step τ) => ∃ c, w.callOf τ = some c ∧ c.mayDrop = true
  | .register _ _ => True
  | _ => False

theorem table_step_of_not_writes (h : ¬ w.Writes (.event ch e)) :
    (w.step ch e).bridge.table = w.bridge.table := by
  have hmove : Move w ch (w.step ch e) e := move_step e
  generalize w.step ch e = w' at hmove
  cases hmove with
  | @operates op bridge calls =>
      rw [bridge]
      exact Bridge.table_operate (Bool.eq_false_iff.mpr h)
  | @flies n bridge calls => rw [bridge, Bridge.table_stepFlight]
  | @goes τ c was bridge self others =>
      rw [bridge]
      obtain hsame | ⟨hdrops, -⟩ := w.bridge.table_stepCall_cases ch.order w.now c
      · exact hsame
      · exact absurd ⟨c, was, hdrops⟩ h
  | @cancels n c was bridge self others =>
      obtain ⟨_, hb⟩ := w.bridge.cancelCall_eq c
      rw [bridge, hb]
  | begins bridge self others => rw [bridge]
  | idles bridge calls => rw [bridge]

theorem table_use_of_not_writes (h : ¬ w.Writes u) :
    (w.use u).bridge.table = w.bridge.table := by
  cases u with
  | event ch e => exact table_step_of_not_writes h
  | register order hd => exact absurd trivial h
  | _ => rfl

/-- A call of the users that drops nothing. -/
structure Spares (w : World) (m : Nat) : Prop where
  old : m < w.nextCall
  call : ∀ c, w.calls[m]? = some c → c.mayDrop = false

theorem spares_use (h : w.Spares m) (u : Use) : (w.use u).Spares m := by
  cases u with
  | event ch e =>
      refine ⟨Nat.lt_of_lt_of_le h.old nextCall_le_step, fun c' hc' ↦ ?_⟩
      obtain hgone | hsame | ⟨c, -, hc, hnext, -⟩ := leaves_call h.old ch e
      · cases hgone.symm.trans hc'
      · exact h.call c' (hsame.symm.trans hc')
      · cases hnext.symm.trans hc'
        exact Bridge.mayDrop_stepCall _ _ (h.call c hc)
  | _ => exact ⟨h.old, h.call⟩

theorem spares_uses (h : w.Spares m) (us : List Use) : (w.uses us).Spares m :=
  uses_of_use (Spares · m) (fun _ u h ↦ spares_use h u) h us

theorem spares_call {r : Request} (hr : r ≠ .sweep) : (w.call r).2.Spares w.nextCall := by
  refine ⟨Nat.lt_succ_self _, fun c hc ↦ ?_⟩
  cases (w.calls_call r).symm.trans hc
  cases r with
  | sweep => exact absurd rfl hr
  | _ => rfl

end World

/-- The passes of the persist loop persist. -/
theorem Service.persists_stepPersister {s : Service} {c : Call}
    (h : ∀ c, s.persister.pass? = some c → c.Persists) (b : Bridge) (tickFirst : Bool)
    (order : Itinerary) (now : Nat)
    (hc : (s.stepPersister b tickFirst order now).2.persister.pass? = some c) : c.Persists := by
  rw [stepPersister] at hc
  cases hl : s.persister with
  | begun =>
      rw [hl] at hc
      cases hc
  | idle tickAt =>
      rw [hl] at hc
      dsimp only at hc
      split at hc
      · exact h c hc
      · cases hc
        exact .awaits .begun
      · cases hc
        exact .awaits .begun
  | passing tickAt pass =>
      rw [hl] at hc
      dsimp only at hc
      split at hc
      · split at hc <;> cases hc
      · cases hc
        exact (b.persists_stepCall order now (h pass (hl ▸ rfl))).1
  | ended =>
      rw [hl] at hc
      exact h c hc

theorem Call.Persists.mayDrop_eq_false {c : Call} (h : c.Persists) : c.mayDrop = false := by
  cases h with
  | awaits waits => cases waits <;> rfl
  | asks pass =>
      rw [← Bool.not_eq_true, mayDrop_of_purpose? pass]
      rintro ⟨s, hs⟩
      cases hs
  | done report => rfl

namespace World

variable {w : World} {u : Use} {us us' : List Use} {ch : Choice} {e : Event} {k : GroupTopic}
variable {p : Int32} {o : Offset} {x : Position} {tp : TopicPartition} {P : World → Use → Prop}

/-- Every pass that the persist loop is in the midst of is a persist pass. -/
def LoopPersists (w : World) : Prop := ∀ c, w.callOf .persister = some c → c.Persists

theorem loopPersists_step (h : w.LoopPersists) (ch : Choice) (e : Event) :
    (w.step ch e).LoopPersists := by
  intro c hc
  cases hserve : e.isServe with
  | true =>
      cases e with
      | serve sweepEvery persistEvery => cases hc
      | _ => cases hserve
  | false =>
      cases hs : w.service with
      | none =>
          rw [callOf, service_step w ch hserve, hs] at hc
          cases hc
      | some s =>
          have hpass : ∀ c, s.persister.pass? = some c → c.Persists :=
            fun c hc ↦ h c ((callOf_persister hs).trans hc)
          rw [callOf_persister (service_step_of_some hs ch hserve)] at hc
          by_cases hstep : e = .step .persister
          · subst hstep
            exact Service.persists_stepPersister hpass _ _ _ _ hc
          · rw [(samePersister_onService s w ch hstep).persister] at hc
            exact hpass c hc

theorem loopPersists_uses (h : w.LoopPersists) (us : List Use) : (w.uses us).LoopPersists := by
  refine uses_of_use LoopPersists (fun w u h ↦ ?_) h us
  cases u with
  | event ch e => exact loopPersists_step h ch e
  | _ => exact h

/-! ## Runs -/

/-- Something happens in the course of some uses. -/
def Happens (w : World) (us : List Use) (P : World → Use → Prop) : Prop :=
  ∃ before u after, us = before ++ u :: after ∧ P (w.uses before) u

/-- Something is true of every one of some uses, at its moment. -/
def Throughout (w : World) (us : List Use) (P : World → Use → Prop) : Prop :=
  ∀ before u after, us = before ++ u :: after → P (w.uses before) u

theorem Happens.append (h : w.Happens us P) (us' : List Use) : w.Happens (us ++ us') P := by
  obtain ⟨before, u, after, rfl, hrest⟩ := h
  exact ⟨before, u, after ++ us', by simp, hrest⟩

theorem Throughout.init (h : w.Throughout (us ++ us') P) : w.Throughout us P := by
  rintro before u after rfl
  exact h before u (after ++ us') (by simp)

theorem Throughout.rest (h : w.Throughout (us ++ us') P) : (w.uses us).Throughout us' P := by
  rintro before u after rfl
  rw [← uses_append]
  exact h (us ++ before) u after (List.append_assoc ..).symm

theorem Throughout.last (h : w.Throughout (us ++ [u]) P) : P (w.uses us) u := h us u [] rfl

theorem throughout_nil : w.Throughout [] P := by
  intro before u after h
  simp at h

theorem throughout_cons : w.Throughout (u :: us) P ↔ P w u ∧ (w.use u).Throughout us P := by
  constructor
  · intro h
    exact ⟨h [] u us rfl, fun before u' after hus ↦ h (u :: before) u' after (by rw [hus]; rfl)⟩
  · rintro ⟨hu, hus⟩ before u' after heq
    cases before with
    | nil =>
        cases heq
        exact hu
    | cons u'' before =>
        cases heq
        exact hus before u' after rfl

/-- A handle that a user hands in is on an object of the name that it is handed in for. -/
def Honest (w : World) : Use → Prop
  | .insertIfAbsent tp h | .refresh tp h => w.bridge.store.Refers h tp
  | .register _ h => h.object < w.bridge.store.nextObject
  | _ => True

theorem named_use (h : w.Named) (hu : w.Honest u) : (w.use u).Named := by
  cases u with
  | event ch e => exact named_step h ch e
  | insertIfAbsent tp hd =>
      exact ⟨aboard_use h.aboard _, h.tidy, h.cached.insertIfAbsent hu, h.landed⟩
  | refresh tp hd => exact ⟨aboard_use h.aboard _, h.tidy, h.cached.refresh hu, h.landed⟩
  | register order hd =>
      exact ⟨aboard_use h.aboard _, h.tidy, Bridge.names_register h.cached order hu, h.landed⟩

theorem named_uses (h : w.Named) (hus : w.Throughout us Honest) : (w.uses us).Named := by
  induction us using List.reverseRecOn with
  | nil => exact h
  | append_singleton us u ih =>
      rw [uses_append]
      exact named_use (ih hus.init) hus.last

/-- What a use brings in for a partition from outside of the table: it commits an offset, restores a
snapshot that has it, or registers the partition when a cursor of a group of users is where it
stands for. -/
inductive Supplies (w : World) (tp : TopicPartition) (o : Offset) : Use → Prop
  | commit {ch : Choice} (group : String) :
      Supplies w tp o (.event ch (.operate (.commit ⟨group, tp.topic⟩ tp.partition o)))
  | restore {ch : Choice} {s : Snapshot} (group : String)
      (held : Ledger.ofSnapshot s ⟨group, tp.topic⟩ tp.partition = some o) :
      Supplies w tp o (.event ch (.operate (.restore s)))
  | cursor {u : Use} {group : String} {x : Position} {n : Nat} (registers : w.registers u = some tp)
      (user : w.bridge.isSystemGroup group = false)
      (name : ((w.use u).bridge.store.object n).name = tp)
      (stands : ((w.use u).bridge.store.object n).cursor? group = some x)
      (encodes : x.encode = .ok o) : Supplies w tp o u

/-- What is in the table of a bridge that began empty has been supplied, and for the same
partition. -/
theorem supplied_of_query (hw : w.Named) (hempty : ∀ k p, w.bridge.table.query k p = none)
    (hus : w.Throughout us Honest) (ho : (w.uses us).bridge.table.query k p = some o) :
    w.Happens us fun v u ↦ v.Supplies ⟨k.topic, p⟩ o u := by
  induction us using List.reverseRecOn generalizing k with
  | nil => cases (hempty k p).symm.trans ho
  | append_singleton us u ih =>
      rw [uses_append] at ho
      have hnamed : (w.uses (us ++ [u])).Named := named_uses hw hus
      rw [uses_append] at hnamed
      rcases query_use_cases ho with hold | hgives
      · exact (ih hus.init hold).append [u]
      · cases hgives with
        | commit => exact ⟨us, _, [], rfl, .commit k.group⟩
        | clone held => exact (ih hus.init held).append _
        | restore held => exact ⟨us, _, [], rfl, .restore k.group held⟩
        | cursor seeds encodes =>
            obtain ⟨hregisters, huser, hd, hcached, hstands⟩ := seeds
            exact ⟨us, u, [], rfl,
              .cursor hregisters huser (hnamed.cached hcached).name hstands encodes⟩

/-- **Provenance.**  Every offset in the table was supplied before, for the same topic and the same
partition: by a commit, by a snapshot that was restored, or by the cursor of a group of users on
that partition when it was registered.  Only the operations that say so, registrations and sweep
passes change the table: no other operation does, no step of a resolution, no step of any other
call, and no pass of the persist loop. -/
theorem table_invents_nothing (now : Nat) (settings : Bridge.Settings) (owner : String)
    (points : CursorPoints) (manualClock : Option Nat) (us : List Use)
    (hhonest : (new now (.new settings (.new owner points) manualClock)).Throughout us Honest) :
    let start := new now (.new settings (.new owner points) manualClock)
    let w := start.uses us
    (∀ k p o, w.bridge.table.query k p = some o →
      start.Happens us fun v u ↦ v.Supplies ⟨k.topic, p⟩ o u) ∧
    (∀ u, ¬ w.Writes u → (w.use u).bridge.table = w.bridge.table) ∧
    (∀ before ch r after, us = before ++ .event ch (.call r) :: after → r ≠ .sweep →
      ∀ ch', ¬ w.Writes (.event ch' (.step (.call (start.uses before).nextCall)))) ∧
    ∀ ch, ¬ w.Writes (.event ch (.step .persister)) := by
  intro start w
  refine ⟨fun k p o ho ↦ ?_, fun u ↦ table_use_of_not_writes, ?_, ?_⟩
  · exact supplied_of_query (named_new ..) (fun _ _ ↦ OffsetTable.query_empty) hhonest ho
  · rintro before ch r after rfl hr ch' ⟨c, hc, hdrops⟩
    have hspares : w.Spares (start.uses before).nextCall := by
      have hcalled := spares_uses (spares_call (w := start.uses before) hr) after
      simp only [w, uses_append]
      exact hcalled
    cases (hspares.call c hc).symm.trans hdrops
  · rintro ch ⟨c, hc, hdrops⟩
    have hloop : start.LoopPersists := by
      intro c hc
      cases hc
    cases ((loopPersists_uses hloop us) c hc).mayDrop_eq_false.symm.trans hdrops

/-- A group gets the offset of a cursor when its partition is registered, and another group gets it
from that one. -/
def clonedCursor : List Use :=
  [.event .plain (.operate (.createPartition ⟨"t", 0⟩)),
    .event .plain (.operate (.resetCursor ⟨"t", 0⟩ "h" ⟨1, 5⟩)), .register [] ⟨0, none⟩,
    .event .plain (.operate (.cloneGroup "h" "g" "t")),
    .event .plain (.call (.minOffset ⟨"t", 0⟩))]

theorem cursor_supplies_clone :
    let start := new 0 (.new ⟨["sys/"], ⟨1, 1, 10, 3⟩, 100⟩ (.new "node" ∅) none)
    let w := start.uses clonedCursor
    w.bridge.table.query ⟨"g", "t"⟩ 0 = some 268435461 ∧
      (start.Happens clonedCursor fun v u ↦ v.Supplies ⟨"t", 0⟩ 268435461 u) ∧
      (w.use (.event .plain (.step (.call 0)))).bridge.table = w.bridge.table := by
  intro start w
  have hhonest : start.Throughout clonedCursor Honest := by
    have hobject : 0 < ((start.use (.event .plain (.operate (.createPartition ⟨"t", 0⟩)))).use
        (.event .plain (.operate (.resetCursor ⟨"t", 0⟩ "h" ⟨1, 5⟩)))).bridge.store.nextObject :=
      Nat.one_pos
    simp only [clonedCursor, throughout_cons]
    exact ⟨trivial, trivial, hobject, trivial, trivial, throughout_nil⟩
  have hquery : w.bridge.table.query ⟨"g", "t"⟩ 0 = some 268435461 := by decide +kernel
  obtain ⟨hsupplied, hkept, hcalls, -⟩ := table_invents_nothing 0 _ "node" ∅ none _ hhonest
  have hcall := hcalls (clonedCursor.take 4) .plain (.minOffset ⟨"t", 0⟩) [] rfl (by decide) .plain
  exact ⟨hquery, hsupplied _ _ _ hquery, hkept _ hcall⟩

end World

end GroupOffsets
