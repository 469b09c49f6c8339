import GroupOffsets.Proofs.Isolation.Store
import GroupOffsets.Proofs.Seeding

/-!
# Bridges over stores with hidden cursors

Two bridges that differ only in their stores, and the stores only in the cursors of the system's
groups, cannot be told apart by what is done to them: resolutions, calls and registrations go the
same way and are answered alike.  Registering reads cursors, but it passes over those of the system,
and the order in which it comes to the others does not matter.
-/

namespace GroupOffsets

/-- Of two partitions that are alike the same visible cursors are listed, if perhaps in another
order. -/
theorem Partition.AlikeBut.perm_cursors {hidden : String → Bool} {p p' : Partition}
    (h : p.AlikeBut hidden p') (order order' : List Nat) :
    ((arrange order p.cursors.toList).filter fun c ↦ !hidden c.1).Perm
      ((arrange order' p'.cursors.toList).filter fun c ↦ !hidden c.1) := by
  have hfilter : p.cursors.filter (fun g _ ↦ !hidden g) =
      p'.cursors.filter fun g _ ↦ !hidden g := by
    refine Std.ExtTreeMap.ext_getElem? fun g ↦ ?_
    rw [Std.ExtTreeMap.getElem?_filter', Std.ExtTreeMap.getElem?_filter']
    cases hg : hidden g with
    | true => simp
    | false =>
        have hcursor : p'.cursors[g]? = p.cursors[g]? := h.cursor g hg
        rw [hcursor]
  have hlist := congrArg Std.ExtTreeMap.toList hfilter
  rw [Std.ExtTreeMap.toList_filter, Std.ExtTreeMap.toList_filter] at hlist
  refine ((arrange_perm order _).filter _).trans ?_
  rw [hlist]
  exact ((arrange_perm order' _).filter _).symm

/-! ## Bridges -/

namespace Bridge

variable {hidden : String → Bool} {created : List TopicPartition} {b b' c' : Bridge}
variable {order : Itinerary} {now n : Nat} {draw : Option Nat} {c : Call} {tp : TopicPartition}

/-- The bridge over a store with other objects and other waiting cursors. -/
def holding (b : Bridge) (objects : Std.ExtTreeMap Nat Partition) (pending : CursorPoints) :
    Bridge := { b with store := b.store.holding objects pending }

/-- Two bridges that differ at most in their stores, and these in the cursors of hidden groups. -/
structure AlikeBut (hidden : String → Bool) (created : List TopicPartition) (b b' : Bridge) :
    Prop where
  same : b' = { b with store := b'.store }
  store : b.store.AlikeBut hidden created b'.store

theorem AlikeBut.exists_eq (h : b.AlikeBut hidden created b') :
    ∃ store, b' = { b with store } ∧ b.store.AlikeBut hidden created store := ⟨_, h.same, h.store⟩

theorem AlikeBut.exists_holding (h : b.AlikeBut hidden created b') :
    ∃ objects pending, b' = b.holding objects pending := by
  obtain ⟨store, rfl, hs⟩ := h.exists_eq
  obtain ⟨objects, pending, rfl⟩ := hs.exists_eq
  exact ⟨objects, pending, rfl⟩

section Holding

variable {objects : Std.ExtTreeMap Nat Partition} {pending : CursorPoints}

/-- What leaves the objects and the waiting cursors alone keeps bridges alike. -/
theorem AlikeBut.frame (h : b.AlikeBut hidden created (b.holding objects pending))
    (hobjects : c'.store.objects = b.store.objects)
    (hpending : c'.store.pending = b.store.pending) :
    c'.AlikeBut hidden created (c'.holding objects pending) := by
  refine ⟨rfl, rfl, fun m ↦ ?_, fun k hk ↦ ?_⟩
  · have hobject : c'.store.object m = b.store.object m := by
      rw [Store.object, Store.object, hobjects]
    rw [hobject]
    exact h.store.object m
  · rw [hpending]
    exact h.store.pending k hk

/-! ### Resolutions -/

theorem conclude_holding (f : Flight) (l : Option Lookup) :
    (b.holding objects pending).conclude draw now n f l =
      (b.conclude draw now n f l).holding objects pending := by
  have hjudge : f.judge (b.holding objects pending).settings.retry draw
      ((b.holding objects pending).clock now) l =
        f.judge b.settings.retry draw (b.clock now) l := rfl
  rw [conclude, conclude, hjudge]
  rcases f.judge b.settings.retry draw (b.clock now) l with ⟨⟨r⟩ | _ | _, f'⟩
  · cases r <;> rfl
  · rfl
  · rfl

theorem answerLookup_holding (f : Flight) :
    (b.holding objects pending).answerLookup draw now n f =
      (b.answerLookup draw now n f).holding objects pending := by
  have hlookup : (b.holding objects pending).store.lookup f.target =
      ((b.store.lookup f.target).1, (b.store.lookup f.target).2.holding objects pending) :=
    Store.lookup_holding
  rw [answerLookup, hlookup, answerLookup]
  exact conclude_holding (b := { b with store := (b.store.lookup f.target).2 }) f _

theorem beginLookup_holding (f : Flight) :
    (b.holding objects pending).beginLookup draw now n f =
      (b.beginLookup draw now n f).holding objects pending := by
  have hdelay : (b.holding objects pending).store.beginLookup.lookupDelay =
      b.store.beginLookup.lookupDelay := rfl
  rw [beginLookup, beginLookup]
  dsimp only
  rw [hdelay]
  split
  · exact answerLookup_holding (b := { b with store := b.store.beginLookup }) f
  · rfl

/-- A resolution does not look into the partitions. -/
theorem stepFlight_holding : (b.holding objects pending).stepFlight draw now n =
    (b.stepFlight draw now n).holding objects pending := by
  have haloft : (b.holding objects pending).aloft[n]? = b.aloft[n]? := rfl
  rw [stepFlight, stepFlight, haloft]
  cases b.aloft[n]? with
  | none => rfl
  | some f =>
      dsimp only
      cases f.phase with
      | boarding =>
          have hcache : (b.holding objects pending).cache = b.cache := rfl
          dsimp only
          rw [hcache]
          cases b.cache.get? f.target with
          | some h => rfl
          | none => exact beginLookup_holding _
      | locating answerAt giveUpAt =>
          dsimp only
          split
          · exact answerLookup_holding f
          · split
            · exact conclude_holding f none
            · rfl
      | pausing upTo =>
          dsimp only
          split
          · exact beginLookup_holding f
          · rfl

/-! ### Calls that need no partition -/

theorem ownerAnswers_holding : (b.holding objects pending).ownerAnswers tp =
    ((b.ownerAnswers tp).1.holding objects pending, (b.ownerAnswers tp).2) := by
  have hlocate : (b.holding objects pending).store.locateOwner tp =
      ((b.store.locateOwner tp).1, (b.store.locateOwner tp).2.holding objects pending) :=
    Store.locateOwner_holding
  rw [ownerAnswers, ownerAnswers, hlocate]
  rfl

theorem continuePersist_holding (turn : Nat) (before : PersistReport)
    (q : Progress Persist PersistReport) :
    (b.holding objects pending).continuePersist turn before q =
      ((b.continuePersist turn before q).1.holding objects pending,
        (b.continuePersist turn before q).2) := by
  cases q <;> rfl

theorem beginCall_holding (r : Request) : (b.holding objects pending).beginCall order now r =
    ((b.beginCall order now r).1.holding objects pending, (b.beginCall order now r).2) := by
  cases r with
  | persist =>
      have henter : (b.holding objects pending).persistTurn.enter = b.persistTurn.enter := rfl
      simp only [beginCall, henter]
      split
      · exact continuePersist_holding (b := { b with persistTurn := b.persistTurn.enter.2 }) ..
      · rfl
  | locateOwner tp =>
      have hdelay : (b.holding objects pending).store.beginLookup.lookupDelay =
          b.store.beginLookup.lookupDelay := rfl
      simp only [beginCall, hdelay]
      split
      · exact ownerAnswers_holding (b := { b with store := b.store.beginLookup })
      · rfl
  | _ => rfl

/-- A call that needs no partition does not look into any. -/
theorem stepCall_idle_holding (hp : c.purpose? = none) :
    (b.holding objects pending).stepCall order now c =
      ((b.stepCall order now c).1.holding objects pending, (b.stepCall order now c).2) := by
  cases c with
  | asking p => cases hp
  | waiting p n deadline => cases hp
  | begun r => exact beginCall_holding r
  | queued turn =>
      have hturn : (b.holding objects pending).persistTurn = b.persistTurn := rfl
      simp only [stepCall, hturn]
      split
      · exact continuePersist_holding ..
      · rfl
  | sleeping upTo locating =>
      simp only [stepCall]
      split
      · cases locating with
        | some tp => exact ownerAnswers_holding
        | none => rfl
      · rfl
  | answered r => rfl

end Holding

theorem AlikeBut.stepFlight (h : b.AlikeBut hidden created b') (draw : Option Nat) (now n : Nat) :
    (b.stepFlight draw now n).AlikeBut hidden created (b'.stepFlight draw now n) := by
  obtain ⟨objects, pending, rfl⟩ := h.exists_holding
  obtain ⟨_, _, _, _, _, _, _, hb⟩ := b.stepFlight_eq now n draw
  rw [stepFlight_holding]
  refine h.frame ?_ ?_
  · rw [hb]
  · rw [hb]

/-! ### Calls that are handed a partition -/

theorem AlikeBut.minOffset (h : b.AlikeBut hidden created b') (r : Attempt Handle) :
    b'.minOffset r = b.minOffset r := by
  cases r with
  | error e => rfl
  | ok hd => rw [Bridge.minOffset, Bridge.minOffset, h.store.firstPosition]

theorem AlikeBut.maxOffset (h : b.AlikeBut hidden created b') (r : Attempt Handle) :
    b'.maxOffset r = b.maxOffset r := by
  cases r with
  | error e => rfl
  | ok hd => rw [Bridge.maxOffset, Bridge.maxOffset, h.store.lastPosition]

theorem AlikeBut.moveCursor (h : b.AlikeBut hidden created b') (r : Attempt Handle) (g : String)
    (x : Position) : (b'.moveCursor r g x).1 = (b.moveCursor r g x).1 ∧
      (b.moveCursor r g x).2.AlikeBut hidden created (b'.moveCursor r g x).2 := by
  cases r with
  | error e => exact ⟨rfl, h⟩
  | ok hd =>
      obtain ⟨store, rfl, hs⟩ := h.exists_eq
      obtain ⟨hanswer, halike⟩ := hs.writeCursor hd g x
      simp only [Bridge.moveCursor]
      generalize b.store.writeCursor hd g x = written at hanswer halike ⊢
      generalize store.writeCursor hd g x = written' at hanswer halike ⊢
      obtain ⟨answer, s⟩ := written
      obtain ⟨answer', s'⟩ := written'
      cases (hanswer : answer' = answer)
      cases answer <;> exact ⟨rfl, rfl, halike⟩

theorem AlikeBut.continuePersist (h : b.AlikeBut hidden created b') (turn : Nat)
    (before : PersistReport) (q : Progress Persist PersistReport) :
    (b'.continuePersist turn before q).2 = (b.continuePersist turn before q).2 ∧
      (b.continuePersist turn before q).1.AlikeBut hidden created
        (b'.continuePersist turn before q).1 := by
  obtain ⟨store, rfl, hs⟩ := h.exists_eq
  cases q <;> exact ⟨rfl, rfl, hs⟩

theorem AlikeBut.deliver (h : b.AlikeBut hidden created b') (order : Itinerary) (p : Purpose)
    (r : Attempt Handle) : (b'.deliver order p r).2 = (b.deliver order p r).2 ∧
      (b.deliver order p r).1.AlikeBut hidden created (b'.deliver order p r).1 := by
  cases p with
  | resolve tp => exact ⟨rfl, h⟩
  | minOffset tp => exact ⟨by simp only [Bridge.deliver, h.minOffset], h⟩
  | maxOffset tp => exact ⟨by simp only [Bridge.deliver, h.maxOffset], h⟩
  | watermark s => exact ⟨by simp only [Bridge.deliver, h.minOffset], h⟩
  | sweep s =>
      have hmin := h.minOffset r
      obtain ⟨store, rfl, hs⟩ := h.exists_eq
      rw [Bridge.deliver, Bridge.deliver, hmin]
      exact ⟨rfl, rfl, hs⟩
  | persist turn s =>
      obtain ⟨hmoved, halike⟩ := h.moveCursor r s.key.group s.position
      have hanswer : s.answer order (b'.moveCursor r s.key.group s.position).2.table
          (b'.moveCursor r s.key.group s.position).2.isSystemGroup
          (b'.moveCursor r s.key.group s.position).1 =
        s.answer order (b.moveCursor r s.key.group s.position).2.table
          (b.moveCursor r s.key.group s.position).2.isSystemGroup
          (b.moveCursor r s.key.group s.position).1 := by
        rw [hmoved, halike.same]
        rfl
      simp only [Bridge.deliver, hanswer]
      exact halike.continuePersist turn s.report _

theorem AlikeBut.receive (h : b.AlikeBut hidden created b') (tp : TopicPartition)
    (outcome : Option (Option Resolution)) :
    (b'.receive tp outcome).1 = (b.receive tp outcome).1 ∧
      (b.receive tp outcome).2.AlikeBut hidden created (b'.receive tp outcome).2 := by
  obtain ⟨store, rfl, hs⟩ := h.exists_eq
  rcases outcome with _ | _ | r
  · exact ⟨rfl, rfl, hs⟩
  · exact ⟨rfl, rfl, hs⟩
  · cases r <;> exact ⟨rfl, rfl, hs⟩

/-- A call goes the same way over stores that are alike. -/
theorem AlikeBut.stepCall (h : b.AlikeBut hidden created b') (order : Itinerary) (now : Nat)
    (c : Call) : (b'.stepCall order now c).2 = (b.stepCall order now c).2 ∧
      (b.stepCall order now c).1.AlikeBut hidden created (b'.stepCall order now c).1 := by
  -- a call that needs no partition does not care what the objects and the waiting cursors are
  have hidle : c.purpose? = none → (b'.stepCall order now c).2 = (b.stepCall order now c).2 ∧
      (b.stepCall order now c).1.AlikeBut hidden created (b'.stepCall order now c).1 := by
    intro hp
    obtain ⟨objects, pending, rfl⟩ := h.exists_holding
    obtain ⟨_, _, _, _, hb⟩ := b.stepCall_idle_eq order now hp
    rw [stepCall_idle_holding hp]
    refine ⟨rfl, h.frame ?_ ?_⟩
    · rw [hb]
    · rw [hb]
  have hflights : b'.flights = b.flights := by rw [h.same]
  have hcache : b'.cache = b.cache := by rw [h.same]
  cases c with
  | asking p =>
      simp only [Bridge.stepCall, hcache]
      cases b.cache.get? p.target with
      | some hd => exact h.deliver order p (.ok hd)
      | none =>
          obtain ⟨store, rfl, hs⟩ := h.exists_eq
          exact ⟨rfl, rfl, hs⟩
  | waiting p n deadline =>
      simp only [Bridge.stepCall, hflights]
      cases b.flights.outcome? n with
      | some outcome =>
          obtain ⟨hr, halike⟩ := h.receive p.target (some outcome)
          dsimp only
          rw [hr]
          exact halike.deliver order p _
      | none =>
          obtain ⟨hr, halike⟩ := h.receive p.target none
          dsimp only
          split
          · rw [hr]
            exact halike.deliver order p _
          · exact ⟨rfl, h⟩
  | _ => exact hidle rfl

theorem AlikeBut.cancelCall (h : b.AlikeBut hidden created b') (c : Call) :
    (b.cancelCall c).AlikeBut hidden created (b'.cancelCall c) := by
  obtain ⟨store, rfl, hs⟩ := h.exists_eq
  unfold Bridge.cancelCall
  split <;> exact ⟨rfl, hs⟩

/-! ### Operations -/

/-- Registering looks only at the cursors that are not hidden. -/
theorem AlikeBut.register (h : b.AlikeBut hidden created b') (hsystem : b.isSystemGroup = hidden)
    (order : List Nat) (hd : Handle) : (b'.register order hd).1 = (b.register order hd).1 ∧
      (b.register order hd).2.2.AlikeBut hidden created (b'.register order hd).2.2 := by
  obtain ⟨store, rfl, hs⟩ := h.exists_eq
  have hname : (store.partition hd).name = (b.store.partition hd).name := (hs.object _).name
  have hsystem' : ({ b with store } : Bridge).isSystemGroup = hidden := hsystem
  have hseeded : ∀ tp (hd' : Handle),
      (seedCursors b.table tp ((arrange order (store.partition hd').cursors.toList).filter
        fun c ↦ !hidden c.1)).2 =
      (seedCursors b.table tp ((arrange order (b.store.partition hd').cursors.toList).filter
        fun c ↦ !hidden c.1)).2 := by
    intro tp hd'
    have hnodup := (((arrange_perm order (b.store.partition hd').cursors.toList).map
      Prod.fst).nodup_iff.mpr (nodup_fst_toList _)).sublist
        ((List.filter_sublist (p := fun c ↦ !hidden c.1)).map Prod.fst)
    exact (seedCursors_perm ((hs.object hd'.object).perm_cursors order order) hnodup).symm
  constructor
  · simp only [Bridge.register, hname]
  · -- what is left after the filter is the same in both, if in another order
    simp only [Bridge.register, hname, hsystem, hsystem', hseeded]
    exact ⟨rfl, hs⟩

theorem AlikeBut.onPartition (h : b.AlikeBut hidden created b') (tp : TopicPartition)
    {f : Partition → Reply Handle × Partition}
    (hf : ∀ {p p'}, p.AlikeBut hidden p' → (f p).2.AlikeBut hidden (f p').2) :
    (b.onPartition tp f).2.AlikeBut hidden created (b'.onPartition tp f).2 := by
  rw [Bridge.onPartition, Bridge.onPartition, h.store.object? tp]
  cases b.store.object? tp with
  | none => exact h
  | some n =>
      obtain ⟨store, rfl, hs⟩ := h.exists_eq
      exact ⟨rfl, hs.setObject n (hf (hs.object n))⟩

theorem AlikeBut.atPartition (h : b.AlikeBut hidden created b') (tp : TopicPartition)
    (f : Partition → Reply Handle) :
    (b.atPartition tp f).2.AlikeBut hidden created (b'.atPartition tp f).2 := by
  rw [Bridge.atPartition, Bridge.atPartition, h.store.object? tp]
  cases b.store.object? tp with
  | none => exact h
  | some n => exact h

theorem AlikeBut.detach (h : b.AlikeBut hidden created b') (p : Partition) :
    (b'.detach p).1 = (b.detach p).1 ∧
      (b.detach p).2.AlikeBut hidden created (b'.detach p).2 := by
  obtain ⟨store, rfl, hs⟩ := h.exists_eq
  obtain ⟨hnumber, hallocate⟩ := hs.allocate p
  exact ⟨congrArg (fun n ↦ (⟨n, none⟩ : Handle)) hnumber, rfl, hallocate⟩

/-- An operation keeps bridges alike. -/
theorem AlikeBut.operate (h : b.AlikeBut hidden created b') (hsystem : b.isSystemGroup = hidden)
    {op : Operation} (hop : ∀ tp, op = .createPartition tp → tp ∈ created) :
    (b.operate op).2.AlikeBut hidden created (b'.operate op).2 := by
  cases op with
  | register tp =>
      simp only [Bridge.operate, h.store.object? tp]
      cases b.store.object? tp with
      | none => exact h
      | some n => exact (h.register hsystem [] ⟨n, none⟩).2
  | registerDetached p =>
      obtain ⟨hnumber, hdetached⟩ := h.detach p
      simp only [Bridge.operate, hnumber]
      exact (hdetached.register hsystem [] _).2
  | insertDetached p =>
      obtain ⟨hnumber, hdetached⟩ := h.detach p
      obtain ⟨store, hb, hs⟩ := hdetached.exists_eq
      simp only [Bridge.operate, hnumber, hb]
      exact ⟨rfl, hs⟩
  | refreshDetached p =>
      obtain ⟨hnumber, hdetached⟩ := h.detach p
      obtain ⟨store, hb, hs⟩ := hdetached.exists_eq
      simp only [Bridge.operate, hnumber, hb]
      exact ⟨rfl, hs⟩
  | createPartition tp =>
      obtain ⟨store, rfl, hs⟩ := h.exists_eq
      exact ⟨rfl, (hs.createPartition (hop tp rfl)).2⟩
  | deletePartition tp =>
      obtain ⟨store, rfl, hs⟩ := h.exists_eq
      exact ⟨rfl, (hs.deletePartition tp).2⟩
  | setRange tp x y => exact h.onPartition tp fun hp ↦ hp.setRange x y
  | append tp => exact h.onPartition tp fun hp ↦ hp.append
  | roll tp => exact h.onPartition tp fun hp ↦ hp.roll
  | trim tp x => exact h.onPartition tp fun hp ↦ hp.trim x
  | openCursor tp g => exact h.onPartition tp fun hp ↦ hp.openCursor g
  | resetCursor tp g x => exact h.onPartition tp fun hp ↦ (hp.openCursor g).resetCursor g x
  | range tp => exact h.atPartition tp _
  | cursor tp g => exact h.atPartition tp _
  | cursors tp => exact h.atPartition tp _
  | setUnavailable | failNext | setLookupDelay | setFault =>
      obtain ⟨objects, pending, rfl⟩ := h.exists_holding
      exact h.frame rfl rfl
  | _ =>
      obtain ⟨store, rfl, hs⟩ := h.exists_eq
      exact ⟨rfl, hs⟩

end Bridge

end GroupOffsets
