import GroupOffsets.Proofs.Frame

/-!
# Persist passes take turns

At most one persist pass is under way at a time, whoever began it: the users' calls and the loop of
the service draw numbers from one turnstile.  `World.Exclusive` is the invariant.  The numbers that
are drawn differ, and who is in a pass holds the turn.
-/

namespace GroupOffsets

open World (Choice Event Task)

/-! ## The turnstile -/

namespace Turnstile

variable {q : Turnstile} {n m : Nat}

@[simp] theorem enter_fst : q.enter.1 = q.next := by
  rw [enter]
  split <;> rfl

@[simp] theorem next_enter : q.enter.2.next = q.next + 1 := by
  rw [enter]
  split <;> rfl

/-- Who holds the turn keeps it when others ask for it. -/
theorem holder_enter (h : q.holder = some m) : q.enter.2.holder = some m := by
  rw [enter, h]

@[simp] theorem next_leave : (q.leave n).next = q.next := by
  rw [leave]
  split <;> rfl

/-- Who holds the turn keeps it when others leave. -/
theorem holder_leave (hne : n ≠ m) (h : q.holder = some m) : (q.leave n).holder = some m := by
  have hother : ¬ q.holder = some n := by
    rw [h]
    exact fun heq ↦ hne (Option.some.inj heq).symm
  rw [leave, if_neg hother]
  exact h

end Turnstile

/-! ## One call -/

/-- The number by which a persist pass holds its turn. -/
def Purpose.turn? : Purpose → Option Nat
  | persist t _ => some t
  | _ => none

namespace Call

/-- The number by which a persist pass waits for its turn or holds it. -/
def turn? : Call → Option Nat
  | queued t => some t
  | asking p | waiting p _ _ => p.turn?
  | _ => none

theorem turn?_of_purpose {c : Call} {p : Purpose} (h : c.purpose? = some p) :
    c.turn? = p.turn? := by
  cases c with
  | asking q =>
      cases h
      rfl
  | waiting q n deadline =>
      cases h
      rfl
  | _ => cases h

end Call

namespace Bridge

variable {b b' : Bridge} {c c' : Call} {order : Itinerary} {now : Nat}

/-- What a step of a call does at the turnstile: nothing, ask for a turn, give one up, or both at
once. -/
inductive Turns (b : Bridge) (c : Call) (b' : Bridge) (c' : Call) : Prop
  | keeps (queue : b'.persistTurn = b.persistTurn) (same : c'.turn? = c.turn?)
      (holds : ∀ {t s}, c'.purpose? = some (.persist t s) →
        (∃ s, c.purpose? = some (.persist t s)) ∨ b.persistTurn.holder = some t)
  | enters (idle : c.turn? = none) (queue : b'.persistTurn = b.persistTurn.enter.2)
      (drawn : c'.turn? = some b.persistTurn.next)
      (holds : ∀ {t s}, c'.purpose? = some (.persist t s) → b'.persistTurn.holder = some t)
  | leaves {t : Nat} (had : c.turn? = some t) (queue : b'.persistTurn = b.persistTurn.leave t)
      (idle : c'.turn? = none)
  | passes (before : c.turn? = none)
      (queue : b'.persistTurn = b.persistTurn.enter.2.leave b.persistTurn.next)
      (after : c'.turn? = none)

theorem Turns.of_idle (hb : b'.persistTurn = b.persistTurn) (hc : c.turn? = none)
    (hc' : c'.turn? = none) : Turns b c b' c' := by
  apply Turns.keeps hb (hc'.trans hc.symm)
  intro t s h
  cases hc'.symm.trans (Call.turn?_of_purpose h)

theorem turns_continuePersist (b : Bridge) (turn : Nat) (before : PersistReport)
    (p : Progress Persist PersistReport) :
    ((b.continuePersist turn before p).1.persistTurn = b.persistTurn ∧
        ∃ s, (b.continuePersist turn before p).2 = .asking (.persist turn s)) ∨
      (b.continuePersist turn before p).1.persistTurn = b.persistTurn.leave turn ∧
        (b.continuePersist turn before p).2.turn? = none := by
  cases p with
  | asks s => exact .inl ⟨rfl, s, rfl⟩
  | done report => exact .inr ⟨rfl, rfl⟩

theorem turn?_continueSweep (p : Progress Sweep (List GroupTopic)) :
    (continueSweep p).turn? = none := by
  cases p <;> rfl

theorem turn?_continueWatermark (p : Progress Watermark PartitionOffsets) :
    (continueWatermark p).turn? = none := by
  cases p <;> rfl

/-- A pass that goes on with what it is handed keeps its turn, or is done and gives it up. -/
theorem turns_deliver {p : Purpose} (hp : c.purpose? = some p) (hb : b'.persistTurn = b.persistTurn)
    (r : Attempt Handle) : Turns b c (b'.deliver order p r).1 (b'.deliver order p r).2 := by
  have hturn := Call.turn?_of_purpose hp
  cases p with
  | persist t s =>
      obtain ⟨store, hmove⟩ := b'.moveCursor_eq r s.key.group s.position
      have hqueue : (b'.moveCursor r s.key.group s.position).2.persistTurn = b.persistTurn := by
        rw [hmove, ← hb]
      rcases turns_continuePersist (b'.moveCursor r s.key.group s.position).2 t s.report
          (s.answer order (b'.moveCursor r s.key.group s.position).2.table
            (b'.moveCursor r s.key.group s.position).2.isSystemGroup
            (b'.moveCursor r s.key.group s.position).1) with ⟨hq, s', hc⟩ | ⟨hq, hc⟩
      · refine .keeps (hq.trans hqueue) ?_ fun h ↦ .inl ⟨s, ?_⟩
        · exact (congrArg Call.turn? hc).trans hturn.symm
        · cases (congrArg Call.purpose? hc).symm.trans h
          exact hp
      · exact .leaves hturn (hq.trans (congrArg (·.leave t) hqueue)) hc
  | resolve tp => exact .of_idle hb hturn rfl
  | minOffset tp => exact .of_idle hb hturn rfl
  | maxOffset tp => exact .of_idle hb hturn rfl
  | sweep s => exact .of_idle hb hturn (turn?_continueSweep _)
  | watermark s => exact .of_idle hb hturn (turn?_continueWatermark _)

theorem turns_beginCall (r : Request) :
    Turns b (.begun r) (b.beginCall order now r).1 (b.beginCall order now r).2 := by
  cases r with
  | persist =>
      rw [beginCall]
      dsimp only
      split
      · rename_i hholds
        rcases turns_continuePersist { b with persistTurn := b.persistTurn.enter.2 }
          b.persistTurn.enter.1 ∅ (Persist.start order b.table b.isSystemGroup) with
          ⟨hq, s, hc⟩ | ⟨hq, hc⟩
        · refine .enters rfl hq ?_ fun h ↦ ?_
          · exact (congrArg Call.turn? hc).trans (congrArg some Turnstile.enter_fst)
          · cases (congrArg Call.purpose? hc).symm.trans h
            exact (congrArg Turnstile.holder hq).trans hholds
        · exact .passes rfl (hq.trans (congrArg _ Turnstile.enter_fst)) hc
      · exact .enters rfl rfl (congrArg some Turnstile.enter_fst) fun h ↦ by cases h
  | sweep => exact .of_idle rfl rfl (turn?_continueSweep _)
  | watermark topic excluded => exact .of_idle rfl rfl (turn?_continueWatermark _)
  | locateOwner tp =>
      rw [beginCall]
      dsimp only
      split <;> exact .of_idle rfl rfl rfl
  | _ => exact .of_idle rfl rfl rfl

/-- Every step of a call does one of these things at the turnstile. -/
theorem turns_stepCall (b : Bridge) (order : Itinerary) (now : Nat) (c : Call) :
    Turns b c (b.stepCall order now c).1 (b.stepCall order now c).2 := by
  cases hp : c.purpose? with
  | some p =>
      cases hh : b.handed now c with
      | some pr =>
          obtain ⟨metrics, hb⟩ := stepCall_of_handed order hh
          rw [hb]
          refine turns_deliver (purpose?_of_handed hh) ?_ pr.2
          rfl
      | none =>
          obtain ⟨hp', hb⟩ := stepCall_of_not_handed order hp hh
          refine .keeps ?_ ((Call.turn?_of_purpose hp').trans (Call.turn?_of_purpose hp).symm) ?_
          · rcases hb with hb | ⟨-, hb⟩ <;> rw [hb]
            rfl
          · intro t s h
            cases hp'.symm.trans h
            exact .inl ⟨s, hp⟩
  | none =>
      cases c with
      | asking p => cases hp
      | waiting p n deadline => cases hp
      | begun r => exact turns_beginCall r
      | queued turn =>
          simp only [stepCall, startPersist]
          split
          · rename_i hholds
            rcases turns_continuePersist b turn ∅ (Persist.start order b.table b.isSystemGroup) with
              ⟨hq, s, hc⟩ | ⟨hq, hc⟩
            · refine .keeps hq ((congrArg Call.turn? hc).trans rfl) fun h ↦ .inr ?_
              cases (congrArg Call.purpose? hc).symm.trans h
              exact hholds
            · exact .leaves rfl hq hc
          · exact .keeps rfl rfl fun h ↦ by cases h
      | sleeping upTo locating =>
          simp only [stepCall]
          split
          · split <;> exact .of_idle rfl rfl rfl
          · exact .of_idle rfl rfl rfl
      | answered r => exact .of_idle rfl rfl rfl

/-- A call that is given up gives up its turn. -/
theorem persistTurn_cancelCall (b : Bridge) (c : Call) : (b.cancelCall c).persistTurn =
    (c.turn?.map b.persistTurn.leave).getD b.persistTurn := by
  cases c with
  | asking p => cases p <;> rfl
  | waiting p n deadline => cases p <;> rfl
  | _ => rfl

@[simp] theorem persistTurn_stepFlight (draw : Option Nat) (n : Nat) :
    (b.stepFlight draw now n).persistTurn = b.persistTurn := by
  obtain ⟨_, _, _, _, _, _, _, hb⟩ := b.stepFlight_eq now n draw
  rw [hb]

theorem persistTurn_operate (op : Operation) :
    (b.operate op).2.persistTurn = b.persistTurn := by
  cases op with
  | register tp =>
      simp only [operate]
      split <;> rfl
  | setRange | append | roll | trim | openCursor | resetCursor =>
      simp only [operate, onPartition]
      split <;> rfl
  | range | cursor | cursors =>
      simp only [operate, atPartition]
      split <;> rfl
  | _ => rfl

end Bridge

/-! ## Runs -/

namespace World

variable {w w' : World} {ch : Choice} {e : Event} {es : List (Choice × Event)}

/-- The persist passes of a world take turns: nobody has a number that was not given out, or that
another one has, and a pass under way holds the turn. -/
structure Exclusive (w : World) : Prop where
  drawn : ∀ {τ c t}, w.callOf τ = some c → c.turn? = some t → t < w.bridge.persistTurn.next
  apart : ∀ {τ τ' c c' t}, w.callOf τ = some c → w.callOf τ' = some c' → c.turn? = some t →
    c'.turn? = some t → τ = τ'
  holds : ∀ {τ c t s}, w.callOf τ = some c → c.purpose? = some (.persist t s) →
    w.bridge.persistTurn.holder = some t

/-- Two persist passes that are under way are one. -/
theorem Exclusive.eq {τ τ' : Task} {c c' : Call} {t t' : Nat} {s s' : Persist} (h : Exclusive w)
    (hτ : w.callOf τ = some c) (hc : c.purpose? = some (.persist t s)) (hτ' : w.callOf τ' = some c')
    (hc' : c'.purpose? = some (.persist t' s')) : τ = τ' := by
  have ht : t = t' := Option.some.inj ((h.holds hτ hc).symm.trans (h.holds hτ' hc'))
  subst ht
  exact h.apart hτ hτ' (Call.turn?_of_purpose hc) (Call.turn?_of_purpose hc')

theorem exclusive_new (now : Nat) (b : Bridge) : Exclusive (new now b) := by
  have hnone : ∀ τ, (new now b).callOf τ = none := by
    intro τ
    cases τ <;> simp [new, callOf]
  constructor <;> simp [hnone]

/-- Nobody is in the way of others by being forgotten. -/
theorem Exclusive.forget (h : Exclusive w)
    (calls : ∀ τ c, w'.callOf τ = some c → w.callOf τ = some c)
    (queue : w'.bridge.persistTurn = w.bridge.persistTurn) : Exclusive w' where
  drawn hc := queue ▸ h.drawn (calls _ _ hc)
  apart hc hc' := h.apart (calls _ _ hc) (calls _ _ hc')
  holds hc := queue ▸ h.holds (calls _ _ hc)

/-- One task acts at the turnstile for itself: it keeps the number that it has or draws the next
one, and takes the turn from nobody. -/
theorem Exclusive.act (h : Exclusive w) (τ : Task)
    (others : ∀ τ', τ' ≠ τ → w'.callOf τ' = w.callOf τ')
    (next : w.bridge.persistTurn.next ≤ w'.bridge.persistTurn.next)
    (spares : ∀ {t}, w.bridge.persistTurn.holder = some t → t < w.bridge.persistTurn.next →
      (∀ c, w.callOf τ = some c → c.turn? ≠ some t) → w'.bridge.persistTurn.holder = some t)
    (draws : ∀ {c' t}, w'.callOf τ = some c' → c'.turn? = some t →
      (∃ c, w.callOf τ = some c ∧ c.turn? = some t) ∨
        t = w.bridge.persistTurn.next ∧ t < w'.bridge.persistTurn.next)
    (holds : ∀ {c' t s}, w'.callOf τ = some c' → c'.purpose? = some (.persist t s) →
      w'.bridge.persistTurn.holder = some t) : Exclusive w' := by
  have hself : ∀ {τ' c c' t}, w'.callOf τ = some c → w'.callOf τ' = some c' → c.turn? = some t →
      c'.turn? = some t → τ = τ' := by
    intro τ' c c' t hc hc' ht ht'
    apply Decidable.byContradiction
    intro hne
    rw [others τ' (Ne.symm hne)] at hc'
    rcases draws hc ht with ⟨c₀, hc₀, ht₀⟩ | ⟨rfl, -⟩
    · exact hne (h.apart hc₀ hc' ht₀ ht')
    · exact Nat.lt_irrefl _ (h.drawn hc' ht')
  refine ⟨?_, ?_, ?_⟩
  · intro τ' c t hc ht
    by_cases hτ : τ' = τ
    · subst hτ
      rcases draws hc ht with ⟨c₀, hc₀, ht₀⟩ | ⟨-, hlt⟩
      · exact Nat.lt_of_lt_of_le (h.drawn hc₀ ht₀) next
      · exact hlt
    · rw [others τ' hτ] at hc
      exact Nat.lt_of_lt_of_le (h.drawn hc ht) next
  · intro τ₁ τ₂ c₁ c₂ t hc₁ hc₂ ht₁ ht₂
    by_cases hτ₁ : τ₁ = τ
    · subst hτ₁
      exact hself hc₁ hc₂ ht₁ ht₂
    · by_cases hτ₂ : τ₂ = τ
      · subst hτ₂
        exact (hself hc₂ hc₁ ht₂ ht₁).symm
      · rw [others τ₁ hτ₁] at hc₁
        rw [others τ₂ hτ₂] at hc₂
        exact h.apart hc₁ hc₂ ht₁ ht₂
  · intro τ' c t s hc hs
    by_cases hτ : τ' = τ
    · subst hτ
      exact holds hc hs
    · rw [others τ' hτ] at hc
      have ht := Call.turn?_of_purpose hs
      refine spares (h.holds hc hs) (h.drawn hc ht) fun c₀ hc₀ ht₀ ↦ ?_
      exact hτ (h.apart hc hc₀ ht ht₀)

/-- The turns stay apart when a call goes on. -/
theorem Exclusive.goes {τ : Task} {c c' : Call} (h : Exclusive w) (was : w.callOf τ = some c)
    (turns : Bridge.Turns w.bridge c w'.bridge c')
    (self : w'.callOf τ = some c' ∨ w'.callOf τ = none)
    (others : ∀ τ', τ' ≠ τ → w'.callOf τ' = w.callOf τ') : Exclusive w' := by
  have hself : ∀ {d}, w'.callOf τ = some d → d = c' := by
    intro d hd
    rcases self with hc' | hnone
    · exact Option.some.inj (hd.symm.trans hc')
    · cases hnone.symm.trans hd
  cases turns with
  | keeps queue same holds =>
      refine h.act τ others (queue ▸ Nat.le_refl _) (fun ht _ _ ↦ queue ▸ ht) ?_ ?_
      · intro d t hd ht
        rw [hself hd, same] at ht
        exact .inl ⟨c, was, ht⟩
      · intro d t s hd hs
        rw [hself hd] at hs
        rw [queue]
        rcases holds hs with ⟨s₀, hs₀⟩ | hholds
        · exact h.holds was hs₀
        · exact hholds
  | enters idle queue drawn holds =>
      have hnext : w'.bridge.persistTurn.next = w.bridge.persistTurn.next + 1 := by
        rw [queue, Turnstile.next_enter]
      refine h.act τ others (by omega) (fun ht _ _ ↦ queue ▸ Turnstile.holder_enter ht) ?_ ?_
      · intro d t hd ht
        rw [hself hd, drawn] at ht
        cases ht
        exact .inr ⟨rfl, by omega⟩
      · intro d t s hd hs
        rw [hself hd] at hs
        exact holds hs
  | @leaves n had queue idle =>
      have hnext : w'.bridge.persistTurn.next = w.bridge.persistTurn.next := by
        rw [queue, Turnstile.next_leave]
      refine h.act τ others (by omega) ?_ ?_ ?_
      · intro t ht _ hne
        rw [queue]
        exact Turnstile.holder_leave (fun heq ↦ hne c was (heq ▸ had)) ht
      · intro d t hd ht
        rw [hself hd, idle] at ht
        cases ht
      · intro d t s hd hs
        rw [hself hd] at hs
        cases idle.symm.trans (Call.turn?_of_purpose hs)
  | passes before queue after =>
      have hnext : w'.bridge.persistTurn.next = w.bridge.persistTurn.next + 1 := by
        rw [queue, Turnstile.next_leave, Turnstile.next_enter]
      refine h.act τ others (by omega) ?_ ?_ ?_
      · intro t ht hlt _
        rw [queue]
        exact Turnstile.holder_leave (Nat.ne_of_gt hlt) (Turnstile.holder_enter ht)
      · intro d t hd ht
        rw [hself hd, after] at ht
        cases ht
      · intro d t s hd hs
        rw [hself hd] at hs
        cases after.symm.trans (Call.turn?_of_purpose hs)

theorem exclusive_step (h : Exclusive w) : Exclusive (w.step ch e) := by
  have hmove : Move w ch (w.step ch e) e := move_step e
  generalize w.step ch e = w' at hmove ⊢
  cases hmove with
  | operates bridge calls =>
      refine h.forget (fun τ c hc ↦ calls ▸ hc) ?_
      rw [bridge, Bridge.persistTurn_operate]
  | flies bridge calls =>
      refine h.forget (fun τ c hc ↦ calls ▸ hc) ?_
      rw [bridge, Bridge.persistTurn_stepFlight]
  | @goes τ c was bridge self others =>
      refine h.goes was ?_ self others
      rw [bridge]
      exact w.bridge.turns_stepCall ch.order w.now c
  | @cancels n c was bridge self others =>
      have hqueue := (congrArg Bridge.persistTurn bridge).trans (w.bridge.persistTurn_cancelCall c)
      have hturns : Bridge.Turns w.bridge c w'.bridge (.answered .nothing) := by
        cases ht : c.turn? with
        | none => exact .of_idle (hqueue.trans (by rw [ht]; rfl)) ht rfl
        | some t => exact .leaves ht (hqueue.trans (by rw [ht]; rfl)) rfl
      exact h.goes was hturns (.inr self) others
  | @begins _ τ r bridge self others =>
      have hself : ∀ {d}, w'.callOf τ = some d → d = .begun r :=
        fun hd ↦ Option.some.inj (hd.symm.trans self)
      refine h.act τ others (bridge ▸ Nat.le_refl _) (fun ht _ _ ↦ bridge ▸ ht) ?_ ?_
      · intro d t hd ht
        rw [hself hd] at ht
        cases ht
      · intro d t s hd hs
        rw [hself hd] at hs
        cases hs
  | idles bridge calls => exact h.forget calls (by rw [bridge])

/-- The invariant holds of every run. -/
theorem exclusive_steps (h : Exclusive w) : Exclusive (w.steps es) :=
  steps_of_step Exclusive (fun _ _ _ ↦ exclusive_step) h es

end World

end GroupOffsets
