import GroupOffsets.Proofs.Persist.Log

/-!
# Persist passes write in the order in which they read

However many persist passes overlap, and whatever is committed, cloned or removed in between: the
log of a run is ordered.  The passes take turns, and so nobody moves a cursor between the copy of an
entry and the moment at which the copy is written.  Once a pass has written what the table holds, no
later pass moves the cursor before the table changes.
-/

namespace GroupOffsets

open World (Choice Event Task)
open Persist (Act Ordered Follows Ahead)

namespace Bridge

variable (b : Bridge) (order : Itinerary) (now : Nat)

/-- What a pass does with the partition that it asked for. -/
def moves (turn : Nat) (s : Persist) (r : Attempt Handle) : List Act :=
  match r with
  | .ok h =>
    [.moves turn s.key s.partition h s.position (b.moveCursor r s.key.group s.position).1]
  | .error _ => []

/-- What a persist pass does when its turn comes. -/
def startActs (turn : Nat) : List Act :=
  Persist.copies turn (Persist.startCopied order b.table b.isSystemGroup)

/-- What a persist pass does when it is handed something. -/
def answerActs (turn : Nat) (s : Persist) (r : Attempt Handle) : List Act :=
  b.moves turn s r ++ Persist.copies turn (Persist.answerCopied order b.table b.isSystemGroup s
    (b.moveCursor r s.key.group s.position).1)

/-- What the next step of a call reads and writes, if it is one of a persist pass. -/
def persistActs (c : Call) : List Act :=
  match b.handed now c with
  | some (.persist turn s, r) => b.answerActs order turn s r
  | _ =>
    match c with
    | .begun .persist =>
      if b.persistTurn.enter.2.holder = some b.persistTurn.next then
        b.startActs order b.persistTurn.next
      else []
    | .queued turn => if b.persistTurn.holder = some turn then b.startActs order turn else []
    | _ => []

variable {b order now} {c : Call} {turn : Nat} {s : Persist} {r : Attempt Handle}

/-- A step of a call, and what it adds to the log. -/
inductive Acts (b : Bridge) (order : Itinerary) (now : Nat) (c : Call) : Prop
  /-- No pass goes on. -/
  | rests (acts : b.persistActs order now c = [])
      (pass : ∀ {t s}, (b.stepCall order now c).2.purpose? = some (.persist t s) →
        c.purpose? = some (.persist t s))
      (queue : ∀ {t}, (b.stepCall order now c).2 = .queued t →
        c = .queued t ∨ t = b.persistTurn.next)
  | starts {turn : Nat} (drawn : c = .queued turn ∨ c = .begun .persist ∧
        turn = b.persistTurn.next ∧
        (b.stepCall order now c).1.persistTurn.next = b.persistTurn.next + 1)
      (acts : b.persistActs order now c = b.startActs order turn)
      (goes : (b.stepCall order now c).2 =
        .ofPersist turn (Persist.start order b.table b.isSystemGroup))
  | answers {turn : Nat} {s : Persist} {r : Attempt Handle}
      (handed : b.handed now c = some (.persist turn s, r))
      (acts : b.persistActs order now c = b.answerActs order turn s r)
      (goes : (b.stepCall order now c).2 =
        .ofPersist turn (s.answer order b.table b.isSystemGroup
          (b.moveCursor r s.key.group s.position).1))

theorem persistActs_of_handed (h : b.handed now c = some (.persist turn s, r)) :
    b.persistActs order now c = b.answerActs order turn s r := by
  simp only [persistActs, h]

theorem next_continuePersist (turn : Nat) (before : PersistReport)
    (q : Progress Persist PersistReport) :
    (b.continuePersist turn before q).1.persistTurn.next = b.persistTurn.next := by
  cases q <;> simp [continuePersist]

/-- Whether a cursor is moved is decided by the store. -/
theorem moveCursor_fst {b' : Bridge} (hstore : b'.store = b.store) (r : Attempt Handle)
    (g : String) (x : Position) : (b'.moveCursor r g x).1 = (b.moveCursor r g x).1 := by
  cases r with
  | error e => rfl
  | ok h =>
      rw [moveCursor, moveCursor, hstore]
      split <;> rfl

/-- A call that is no pass, and asks for no turn. -/
theorem Acts.idle (acts : b.persistActs order now c = [])
    (pass : (b.stepCall order now c).2.turn? = none) : Acts b order now c := by
  refine .rests acts (fun h ↦ ?_) (fun h ↦ ?_)
  · cases pass.symm.trans (Call.turn?_of_purpose h)
  · rw [h] at pass
    cases pass

theorem acts_stepCall (b : Bridge) (order : Itinerary) (now : Nat) (c : Call) :
    Acts b order now c := by
  cases hp : c.purpose? with
  | some p =>
      cases hh : b.handed now c with
      | none =>
          have hkeeps := (stepCall_of_not_handed order hp hh).1
          refine .rests ?_ (fun h ↦ hp.trans (hkeeps.symm.trans h)) fun h ↦ ?_
          · cases c with
            | begun r => cases hp
            | queued t => cases hp
            | _ => simp only [persistActs, hh]
          · rw [h] at hkeeps
            cases hkeeps
      | some pr =>
          obtain ⟨q, r⟩ := pr
          obtain ⟨metrics, hb⟩ := stepCall_of_handed order hh
          cases (purpose?_of_handed hh).symm.trans hp
          have hidle : (∀ t s, p ≠ .persist t s) → b.persistActs order now c = [] := by
            intro hne
            cases c with
            | begun r => cases hp
            | queued t => cases hp
            | _ =>
                simp only [persistActs, hh]
                split
                · rename_i heq
                  cases heq
                  exact absurd rfl (hne _ _)
                · rfl
          cases p with
          | persist turn s =>
              refine .answers hh (persistActs_of_handed hh) ?_
              have hstore : ({ b with metrics } : Bridge).store = b.store := rfl
              rw [hb, deliver_persist, moveCursor_fst hstore]
              rfl
          | sweep s => exact .idle (hidle nofun) (by rw [hb]; exact turn?_continueSweep _)
          | watermark s => exact .idle (hidle nofun) (by rw [hb]; exact turn?_continueWatermark _)
          | resolve tp => exact .idle (hidle nofun) (by rw [hb]; rfl)
          | minOffset tp => exact .idle (hidle nofun) (by rw [hb]; rfl)
          | maxOffset tp => exact .idle (hidle nofun) (by rw [hb]; rfl)
  | none =>
      cases c with
      | asking p => cases hp
      | waiting p n deadline => cases hp
      | begun r =>
          cases r with
          | persist =>
              by_cases hholds : b.persistTurn.enter.2.holder = some b.persistTurn.next
              · refine .starts (.inr ⟨rfl, rfl, ?_⟩)
                  (by simp only [persistActs, handed, if_pos hholds]) ?_
                · simp only [stepCall, beginCall, Turnstile.enter_fst, if_pos hholds, startPersist,
                    next_continuePersist, Turnstile.next_enter]
                · simp only [stepCall, beginCall, Turnstile.enter_fst, if_pos hholds, startPersist]
                  exact continuePersist_snd _ _
              · refine .rests (by simp only [persistActs, handed, if_neg hholds]) (fun h ↦ ?_)
                  fun h ↦ ?_
                · simp only [stepCall, beginCall, Turnstile.enter_fst, if_neg hholds] at h
                  cases h
                · simp only [stepCall, beginCall, Turnstile.enter_fst, if_neg hholds] at h
                  cases h
                  exact .inr rfl
          | sweep => exact .idle rfl (turn?_continueSweep _)
          | watermark topic excluded => exact .idle rfl (turn?_continueWatermark _)
          | locateOwner tp =>
              refine .idle rfl ?_
              simp only [stepCall, beginCall]
              split <;> rfl
          | _ => exact .idle rfl rfl
      | queued turn =>
          by_cases hholds : b.persistTurn.holder = some turn
          · refine .starts (.inl rfl) (by simp only [persistActs, handed, if_pos hholds]) ?_
            simp only [stepCall, if_pos hholds, startPersist]
            exact continuePersist_snd _ _
          · refine .rests (by simp only [persistActs, handed, if_neg hholds]) (fun h ↦ ?_)
              fun h ↦ ?_
            · simp only [stepCall, if_neg hholds] at h
              cases h
            · simp only [stepCall, if_neg hholds] at h
              exact .inl h
      | sleeping upTo locating =>
          refine .idle rfl ?_
          simp only [stepCall]
          split
          · split <;> rfl
          · rfl
      | answered r => exact .idle rfl rfl

/-- What a pass does with the partition that it asked for fits, and leaves it with the rest. -/
theorem ordered_moves (b : Bridge) (r : Attempt Handle) {log : List Act} (hlog : Ordered log)
    (hs : Follows log turn s) :
    Ordered (log ++ b.moves turn s r) ∧
      Ahead (log ++ b.moves turn s r) turn s.key s.rest s.keys := by
  have ⟨o, hahead, hx⟩ := hs
  cases r with
  | error e =>
      rw [moves, List.append_nil]
      exact ⟨hlog, hahead.tail⟩
  | ok h => exact ⟨hlog.concat (hs.fits h _), hahead.moved h _ _⟩

/-- What a pass copies is what the table holds then. -/
theorem partitions_of_copies {k : GroupTopic} {copy : PartitionOffsets}
    (h : .copies turn k copy ∈ b.persistActs order now c) : b.table.partitions k = some copy := by
  have hcopies : ∀ {turn'} {entries : List (GroupTopic × PartitionOffsets)},
      .copies turn k copy ∈ Persist.copies turn' entries → (k, copy) ∈ entries := by
    intro turn' entries hmem
    obtain ⟨e, he, heq⟩ := List.mem_map.mp hmem
    cases heq
    exact he
  cases b.acts_stepCall order now c with
  | rests acts =>
      rw [acts] at h
      cases h
  | starts drawn acts =>
      rw [acts] at h
      exact Persist.partitions_of_mem_entriesCopied (hcopies h)
  | @answers turn' s r handed acts =>
      rw [acts] at h
      rcases List.mem_append.mp h with hmoves | hnew
      · cases r with
        | error e => cases hmoves
        | ok h => cases List.mem_singleton.mp hmoves
      · have hanswer := hcopies hnew
        rw [Persist.answerCopied] at hanswer
        split at hanswer
        · cases hanswer
        · exact Persist.partitions_of_mem_entriesCopied hanswer

/-- A pass moves a cursor where it was handed the partition. -/
theorem handed_of_moves {k : GroupTopic} {p : Int32} {h : Handle} {x : Position} {moved : Bool}
    (hmem : .moves turn k p h x moved ∈ b.persistActs order now c) :
    ∃ s, b.handed now c = some (.persist turn s, .ok h) ∧ s.key = k ∧ s.partition = p ∧
      s.position = x ∧ (b.moveCursor (.ok h) s.key.group s.position).1 = moved := by
  have hcopies : ∀ turn' (entries : List (GroupTopic × PartitionOffsets)),
      .moves turn k p h x moved ∉ Persist.copies turn' entries := by
    intro turn' entries hmem
    obtain ⟨e, -, heq⟩ := List.mem_map.mp hmem
    cases heq
  cases b.acts_stepCall order now c with
  | rests acts =>
      rw [acts] at hmem
      cases hmem
  | starts drawn acts =>
      rw [acts] at hmem
      exact absurd hmem (hcopies _ _)
  | @answers turn' s r handed acts =>
      rw [acts] at hmem
      rcases List.mem_append.mp hmem with hmoves | hnew
      · cases r with
        | error e => cases hmoves
        | ok h' =>
            cases List.mem_singleton.mp hmoves
            exact ⟨s, handed, rfl, rfl, rfl, rfl⟩
      · exact absurd hnew (hcopies _ _)

theorem turn_of_mem_answerActs {a : Act} (ha : a ∈ b.answerActs order turn s r) :
    a.turn = turn := by
  rcases List.mem_append.mp ha with hmoves | hcopies
  · cases r with
    | error e => cases hmoves
    | ok h =>
        cases List.mem_singleton.mp hmoves
        rfl
  · exact Persist.turn_of_mem_copies hcopies

theorem Turns.next_le {b' : Bridge} {c' : Call} (h : Turns b c b' c') :
    b.persistTurn.next ≤ b'.persistTurn.next := by
  cases h with
  | keeps queue => exact Nat.le_of_eq (congrArg Turnstile.next queue.symm)
  | enters _ queue => simp [queue]
  | leaves _ queue => simp [queue]
  | passes _ queue => simp [queue]

end Bridge

/-! ## Runs -/

namespace World

variable {w w' : World} {ch : Choice} {e : Event} {es es' : List (Choice × Event)} {τ : Task}
variable {c : Call} {log : List Act}

/-- What an event adds to the log of the persist passes. -/
def persistActs (w : World) (ch : Choice) : Event → List Act
  | .step τ => ((w.callOf τ).map (w.bridge.persistActs ch.order w.now)).getD []
  | _ => []

/-- What the persist passes read and write in a run. -/
def persistLog : World → List (Choice × Event) → List Act
  | _, [] => []
  | w, (ch, e) :: es => w.persistActs ch e ++ persistLog (w.step ch e) es

theorem persistLog_append :
    w.persistLog (es ++ es') = w.persistLog es ++ (w.steps es).persistLog es' := by
  induction es generalizing w with
  | nil => rfl
  | cons e es ih => rw [List.cons_append, persistLog, ih, persistLog, steps_cons, List.append_assoc]

/-- The log so far is ordered, and accounts for every pass that waits or is under way. -/
structure Logged (w : World) (log : List Act) : Prop where
  ordered : Ordered log
  drawn : ∀ a ∈ log, a.turn < w.bridge.persistTurn.next
  queued : ∀ {τ t}, w.callOf τ = some (.queued t) → ∀ a ∈ log, a.turn ≠ t
  follows : ∀ {τ c t s}, w.callOf τ = some c → c.purpose? = some (.persist t s) → Follows log t s

theorem logged_new (now : Nat) (b : Bridge) : (new now b).Logged [] := by
  have hnone : ∀ τ, (new now b).callOf τ = none := by
    intro τ
    cases τ <;> simp [new, callOf]
  constructor <;> simp [hnone, Persist.ordered_nil]

/-- Nothing is logged where calls are forgotten or have just begun. -/
theorem Logged.forget (h : w.Logged log)
    (calls : ∀ τ c, w'.callOf τ = some c → w.callOf τ = some c ∨ ∃ r, c = .begun r)
    (next : w.bridge.persistTurn.next ≤ w'.bridge.persistTurn.next) : w'.Logged log := by
  refine ⟨h.ordered, fun a ha ↦ Nat.lt_of_lt_of_le (h.drawn a ha) next, fun {τ t} hc ↦ ?_,
    fun {τ c t s} hc hp ↦ ?_⟩
  · rcases calls τ _ hc with hwas | ⟨r, hr⟩
    · exact h.queued hwas
    · cases hr
  · rcases calls τ c hc with hwas | ⟨r, rfl⟩
    · exact h.follows hwas hp
    · cases hp

/-- A call goes on, and what it does is logged. -/
theorem Logged.goes (h : w.Logged log) (hexclusive : w.Exclusive) (hc : w.callOf τ = some c)
    (next : w.bridge.persistTurn.next ≤ w'.bridge.persistTurn.next)
    (bridge : w'.bridge = (w.bridge.stepCall ch.order w.now c).1)
    (self : w'.callOf τ = some (w.bridge.stepCall ch.order w.now c).2 ∨ w'.callOf τ = none)
    (others : ∀ τ', τ' ≠ τ → w'.callOf τ' = w.callOf τ') :
    w'.Logged (log ++ w.bridge.persistActs ch.order w.now c) := by
  have hcases : ∀ {τ' c'}, w'.callOf τ' = some c' →
      τ' = τ ∧ c' = (w.bridge.stepCall ch.order w.now c).2 ∨ τ' ≠ τ ∧ w.callOf τ' = some c' := by
    intro τ' c' hc'
    by_cases hτ : τ' = τ
    · subst hτ
      rcases self with hself | hnone
      · exact .inl ⟨rfl, Option.some.inj (hc'.symm.trans hself)⟩
      · cases hnone.symm.trans hc'
    · exact .inr ⟨hτ, others τ' hτ ▸ hc'⟩
  have hdrawn : ∀ a ∈ log, a.turn < w'.bridge.persistTurn.next :=
    fun a ha ↦ Nat.lt_of_lt_of_le (h.drawn a ha) next
  cases w.bridge.acts_stepCall ch.order w.now c with
  | rests acts pass queue =>
      rw [acts, List.append_nil]
      refine ⟨h.ordered, hdrawn, fun {τ' t} hc' ↦ ?_, fun {τ' c' t s} hc' hp ↦ ?_⟩
      · rcases hcases hc' with ⟨rfl, hgoes⟩ | ⟨-, hwas⟩
        · rcases queue hgoes.symm with rfl | rfl
          · exact h.queued hc
          · exact fun a ha ↦ Nat.ne_of_lt (h.drawn a ha)
        · exact h.queued hwas
      · rcases hcases hc' with ⟨rfl, rfl⟩ | ⟨-, hwas⟩
        · exact h.follows hc (pass hp)
        · exact h.follows hwas hp
  | @starts turn drawn acts goes =>
      have hfresh : ∀ a ∈ log, a.turn ≠ turn := by
        rcases drawn with rfl | ⟨-, rfl, -⟩
        · exact h.queued hc
        · exact fun a ha ↦ Nat.ne_of_lt (h.drawn a ha)
      have hturn : turn < w'.bridge.persistTurn.next := by
        rcases drawn with rfl | ⟨-, rfl, hnext⟩
        · exact Nat.lt_of_lt_of_le (hexclusive.drawn hc rfl) next
        · rw [bridge, hnext]
          exact Nat.lt_succ_self _
      have hapart : ∀ {τ' c' t}, τ' ≠ τ → w.callOf τ' = some c' → c'.turn? = some t → t ≠ turn := by
        rintro τ' c' t hτ hc' ht rfl
        rcases drawn with rfl | ⟨-, rfl, -⟩
        · exact hτ (hexclusive.apart hc' hc ht rfl)
        · exact Nat.lt_irrefl _ (hexclusive.drawn hc' ht)
      obtain ⟨hordered, hstart⟩ := Persist.ordered_start ch.order w.bridge.table
        w.bridge.isSystemGroup h.ordered hfresh
      rw [acts, Bridge.startActs]
      refine ⟨hordered, fun a ha ↦ ?_, fun {τ' t} hc' a ha ↦ ?_, fun {τ' c' t s} hc' hp ↦ ?_⟩
      · rcases List.mem_append.mp ha with hold | hnew
        · exact hdrawn a hold
        · exact Persist.turn_of_mem_copies hnew ▸ hturn
      · rcases hcases hc' with ⟨rfl, hgoes⟩ | ⟨hτ, hwas⟩
        · rw [goes] at hgoes
          cases hq : Persist.start ch.order w.bridge.table w.bridge.isSystemGroup with
          | asks s => rw [hq] at hgoes; cases hgoes
          | done report => rw [hq] at hgoes; cases hgoes
        · rcases List.mem_append.mp ha with hold | hnew
          · exact h.queued hwas a hold
          · rw [Persist.turn_of_mem_copies hnew]
            exact (hapart hτ hwas rfl).symm
      · rcases hcases hc' with ⟨rfl, rfl⟩ | ⟨hτ, hwas⟩
        · rw [goes] at hp
          obtain ⟨rfl, hs⟩ := Call.purpose?_ofPersist hp
          exact hstart s hs
        · exact (h.follows hwas hp).copies (hapart hτ hwas (Call.turn?_of_purpose hp)) _
  | @answers turn s r handed acts goes =>
      have hpass := Bridge.purpose?_of_handed handed
      have hturn := Call.turn?_of_purpose hpass
      obtain ⟨hmoves, hahead⟩ :=
        w.bridge.ordered_moves r h.ordered (h.follows hc hpass)
      obtain ⟨hordered, hanswer⟩ := Persist.ordered_answer ch.order w.bridge.table
        w.bridge.isSystemGroup hmoves hahead
        (w.bridge.moveCursor r s.key.group s.position).1
      rw [acts, Bridge.answerActs, ← List.append_assoc]
      refine ⟨hordered, fun a ha ↦ ?_, fun {τ' t} hc' a ha ↦ ?_, fun {τ' c' t s'} hc' hp ↦ ?_⟩
      · rw [List.append_assoc] at ha
        rcases List.mem_append.mp ha with hold | hnew
        · exact hdrawn a hold
        · rw [Bridge.turn_of_mem_answerActs hnew]
          exact Nat.lt_of_lt_of_le (hexclusive.drawn hc hturn) next
      · rcases hcases hc' with ⟨rfl, hgoes⟩ | ⟨hτ, hwas⟩
        · rw [goes] at hgoes
          cases hq : s.answer ch.order w.bridge.table w.bridge.isSystemGroup
              (w.bridge.moveCursor r s.key.group s.position).1 with
          | asks s => rw [hq] at hgoes; cases hgoes
          | done report => rw [hq] at hgoes; cases hgoes
        · rw [List.append_assoc] at ha
          rcases List.mem_append.mp ha with hold | hnew
          · exact h.queued hwas a hold
          · rw [Bridge.turn_of_mem_answerActs hnew]
            rintro rfl
            exact hτ (hexclusive.apart hwas hc rfl hturn)
      · rcases hcases hc' with ⟨rfl, rfl⟩ | ⟨hτ, hwas⟩
        · rw [goes] at hp
          obtain ⟨rfl, hs⟩ := Call.purpose?_ofPersist hp
          exact hanswer s' hs
        · exact absurd (hexclusive.eq hwas hp hc hpass) hτ

/-- The numbers of turns are not given twice. -/
theorem nextTurn_le_step (w : World) (ch : Choice) (e : Event) :
    w.bridge.persistTurn.next ≤ (w.step ch e).bridge.persistTurn.next := by
  have hmove : Move w ch (w.step ch e) e := move_step e
  generalize w.step ch e = w' at hmove ⊢
  have same : w'.bridge.persistTurn = w.bridge.persistTurn →
      w.bridge.persistTurn.next ≤ w'.bridge.persistTurn.next :=
    fun h ↦ Nat.le_of_eq (congrArg Turnstile.next h.symm)
  cases hmove with
  | operates bridge calls => exact same (bridge ▸ w.bridge.persistTurn_operate _)
  | flies bridge calls => exact same (bridge ▸ Bridge.persistTurn_stepFlight ..)
  | @goes τ c was bridge self others =>
      rw [bridge]
      exact (w.bridge.turns_stepCall ch.order w.now c).next_le
  | @cancels n c was bridge self others =>
      rw [bridge, Bridge.persistTurn_cancelCall]
      cases c.turn? with
      | none => exact Nat.le_refl _
      | some t => exact Nat.le_of_eq Turnstile.next_leave.symm
  | begins bridge self others => exact same (congrArg _ bridge)
  | idles bridge calls => exact same (congrArg _ bridge)

theorem logged_step (h : w.Logged log) (hexclusive : w.Exclusive) (ch : Choice) (e : Event) :
    (w.step ch e).Logged (log ++ w.persistActs ch e) := by
  have hnext := nextTurn_le_step w ch e
  by_cases hgoes : ∃ τ c, e = .step τ ∧ w.callOf τ = some c
  · obtain ⟨τ, c, rfl, hc⟩ := hgoes
    obtain ⟨hbridge, hself⟩ := run_of_callOf hc ch
    have hacts : w.persistActs ch (.step τ) = w.bridge.persistActs ch.order w.now c := by
      rw [persistActs, hc]
      rfl
    rw [hacts]
    exact h.goes hexclusive hc hnext hbridge (hself.imp_right And.left)
      fun _ ↦ callOf_run_of_ne w ch
  · have hacts : w.persistActs ch e = [] := by
      cases e with
      | step τ =>
          cases hc : w.callOf τ with
          | none => rw [persistActs, hc]; rfl
          | some c => exact absurd ⟨τ, c, rfl, hc⟩ hgoes
      | _ => rfl
    rw [hacts, List.append_nil]
    refine h.forget (fun τ c hc ↦ ?_) hnext
    have hmove : Move w ch (w.step ch e) e := move_step e
    generalize w.step ch e = w' at hmove hc
    cases hmove with
    | operates bridge calls => exact .inl (calls ▸ hc)
    | flies bridge calls => exact .inl (calls ▸ hc)
    | @goes τ' c' was bridge self others => exact absurd ⟨τ', c', rfl, was⟩ hgoes
    | @cancels n c' was bridge self others =>
        by_cases hτ : τ = .call n
        · subst hτ
          cases self.symm.trans hc
        · exact .inl (others τ hτ ▸ hc)
    | @begins e τ' r bridge self others =>
        by_cases hτ : τ = τ'
        · subst hτ
          exact .inr ⟨r, Option.some.inj (hc.symm.trans self)⟩
        · exact .inl (others τ hτ ▸ hc)
    | idles bridge calls => exact .inl (calls τ c hc)

theorem logged_steps (h : w.Logged log) (hexclusive : w.Exclusive) (es : List (Choice × Event)) :
    (w.steps es).Logged (log ++ w.persistLog es) := by
  induction es generalizing w log with
  | nil => simpa [persistLog] using h
  | cons e es ih =>
      rw [steps_cons, persistLog, ← List.append_assoc]
      exact ih (logged_step h hexclusive e.1 e.2) (exclusive_step hexclusive)

/-! ## What a pass has read and written -/

theorem exists_of_mem_persistActs {a : Act} (h : a ∈ w.persistActs ch e) :
    ∃ τ c, e = .step τ ∧ w.callOf τ = some c ∧ a ∈ w.bridge.persistActs ch.order w.now c := by
  cases e with
  | step τ =>
      cases hc : w.callOf τ with
      | none =>
          rw [persistActs, hc] at h
          cases h
      | some c =>
          rw [persistActs, hc] at h
          exact ⟨τ, c, rfl, hc, h⟩
  | _ => cases h

/-- What a pass copies of an entry is what the table holds, if it holds it throughout. -/
theorem getElem?_of_copies {turn : Nat} {k : GroupTopic} {p : Int32} {o : Offset}
    {copy : PartitionOffsets}
    (ho : ∀ done rest, es = done ++ rest → (w.steps done).bridge.table.query k p = some o)
    (h : .copies turn k copy ∈ w.persistLog es) : copy[p]? = some o := by
  induction es generalizing w with
  | nil => cases h
  | cons e es ih =>
      rcases List.mem_append.mp h with hnow | hlater
      · obtain ⟨τ, c, -, -, hcopies⟩ := exists_of_mem_persistActs hnow
        have hquery : w.bridge.table.query k p = some o := ho [] _ rfl
        rwa [OffsetTable.query_eq_bind, Bridge.partitions_of_copies hcopies] at hquery
      · refine ih (fun done rest heq ↦ ?_) hlater
        exact ho (e :: done) rest (by rw [heq]; rfl)

/-- A cursor of an object stands at the offset that the table holds, and no pass under way has
anything else for it. -/
structure Settled (w : World) (h : Handle) (k : GroupTopic) (p : Int32) (x : Position) : Prop where
  fresh : w.Fresh k p x
  refers : w.bridge.store.Refers h ⟨k.topic, p⟩
  stands : (w.bridge.store.partition h).cursor? k.group = some x

variable {h h' : Handle} {k : GroupTopic} {p : Int32} {o : Offset} {x x' : Position} {turn : Nat}

/-- No pass under way moves the cursor elsewhere. -/
theorem Fresh.position_eq {moved : Bool} (hfresh : w.Fresh k p x)
    (hmem : .moves turn k p h x' moved ∈ w.persistActs ch e) : x' = x := by
  obtain ⟨τ, c, -, hc, hmoves⟩ := exists_of_mem_persistActs hmem
  obtain ⟨s, hhanded, hkey, hpartition, rfl, -⟩ := Bridge.handed_of_moves hmoves
  exact (hfresh τ c turn s hc (Bridge.purpose?_of_handed hhanded) hkey).1 hpartition

theorem settled_step (hs : w.Settled h k p x) (hw : w.Named)
    (ho : w.bridge.table.query k p = some o) (hx : Position.decode o = .ok x)
    (he : ∀ y, e ≠ .operate (.resetCursor ⟨k.topic, p⟩ k.group y)) (ch : Choice) :
    (w.step ch e).Settled h k p x := by
  refine ⟨fresh_step hs.fresh ho hx, hs.refers.evolve (evolves_step w ch e),
    cursor?_step hw hs.refers hs.stands he fun τ c t s hc hp htarget hgroup ↦ ?_⟩
  obtain ⟨htopic, hpartition⟩ := TopicPartition.mk.inj htarget
  have hkey : s.key = k := by
    obtain ⟨g, topic⟩ := k
    exact (GroupTopic.mk.injEq ..).mpr ⟨hgroup, htopic⟩
  exact (hs.fresh τ c t s hc hp hkey).1 hpartition

/-- A settled cursor stays as long as the table does. -/
theorem settled_steps (hs : w.Settled h k p x) (hw : w.Named)
    (ho : ∀ done rest, es = done ++ rest → (w.steps done).bridge.table.query k p = some o)
    (hx : Position.decode o = .ok x)
    (hes : ∀ e ∈ es, ∀ y, e.2 ≠ .operate (.resetCursor ⟨k.topic, p⟩ k.group y)) :
    (w.steps es).Settled h k p x ∧
      ∀ turn h' x' moved, .moves turn k p h' x' moved ∈ w.persistLog es → x' = x := by
  induction es generalizing w with
  | nil => exact ⟨hs, fun turn h' x' moved hmem ↦ by cases hmem⟩
  | cons e es ih =>
      have hstep := settled_step hs hw (ho [] _ rfl) hx (hes e (List.mem_cons_self ..)) e.1
      obtain ⟨hsettled, hlater⟩ := ih hstep (named_step hw e.1 e.2)
        (fun done rest heq ↦ ho (e :: done) rest (by rw [heq]; rfl))
        (fun e' he' ↦ hes e' (List.mem_cons_of_mem _ he'))
      refine ⟨hsettled, fun turn h' x' moved hmem ↦ ?_⟩
      rcases List.mem_append.mp hmem with hnow | hmem
      · exact hs.fresh.position_eq hnow
      · exact hlater turn h' x' moved hmem

/-- A pass that has moved a cursor to what the table holds leaves it settled. -/
theorem settled_of_moves (hlogged : w.Logged log) (hexclusive : w.Exclusive) (hw : w.Named)
    {copy : PartitionOffsets} (hcopy : .copies turn k copy ∈ log) (hcopied : copy[p]? = some o)
    (ho : w.bridge.table.query k p = some o)
    (hmem : .moves turn k p h x true ∈ w.persistActs ch e) :
    Position.decode o = .ok x ∧ (w.step ch e).Settled h k p x := by
  obtain ⟨τ, c, rfl, hc, hmoves⟩ := exists_of_mem_persistActs hmem
  obtain ⟨s, hhanded, rfl, rfl, rfl, hmoved⟩ := Bridge.handed_of_moves hmoves
  have hpass := Bridge.purpose?_of_handed hhanded
  obtain ⟨o', hahead, hx⟩ := hlogged.follows hc hpass
  obtain ⟨copy', hcopied', hoffsets⟩ := hahead.copied
  -- the pass writes what it has copied, which is what the table holds
  cases hlogged.ordered.copy_eq hcopy hcopied'.mem
  cases (hoffsets s.partition o' (List.mem_cons_self ..)).symm.trans hcopied
  refine ⟨hx, ?_⟩
  obtain ⟨hbridge, hself⟩ := run_of_callOf hc ch
  obtain ⟨metrics, hb⟩ := Bridge.stepCall_of_handed ch.order hhanded
  have hstore : (w.step ch (.step τ)).bridge.store =
      (w.bridge.store.writeCursor h s.key.group s.position).2 := by
    refine (congrArg Bridge.store hbridge).trans ?_
    rw [hb, Bridge.store_deliver_persist, Bridge.store_moveCursor_ok]
  refine ⟨fun τ' c' t s' hc' hp' ↦ ?_, ?_, ?_⟩
  · by_cases hτ : τ' = τ
    · subst hτ
      have hfresh : s.Fresh s.key s.partition s.position := by
        refine fun _ ↦ ⟨fun _ ↦ rfl, fun o'' hrest ↦ ?_⟩
        exact absurd (List.mem_map_of_mem hrest) (List.nodup_cons.mp hahead.nodup).1
      rcases hself with hself | ⟨hnone, -⟩
      · cases hself.symm.trans hc'
        obtain ⟨moved, hanswer⟩ := Bridge.stepCall_persist_of_handed ch.order hhanded
        rw [hanswer] at hp'
        exact Persist.answer_fresh hfresh ho hx (Call.purpose?_ofPersist hp').2
      · cases hnone.symm.trans hc'
    · have hwas : w.callOf τ' = some c' := (callOf_run_of_ne w ch hτ).symm.trans hc'
      exact absurd (hexclusive.eq hwas hp' hc hpass) hτ
  · exact (hw.refers_of_handed hc hhanded).evolve (evolves_step w ch (.step τ))
  · rw [hstore]
    refine Store.cursor?_writeCursor_self ?_
    rw [Bridge.moveCursor] at hmoved
    split at hmoved
    · rename_i heq
      rw [heq]
    · cases hmoved

/-- Whatever a task does to the objects of the store is logged. -/
theorem objects_run (w : World) (ch : Choice) (τ : Task) :
    (w.run ch τ).bridge.store.objects = w.bridge.store.objects ∨
      ∃ turn k p h x moved, .moves turn k p h x moved ∈ w.persistActs ch (.step τ) ∧
        (w.run ch τ).bridge.store = (w.bridge.store.writeCursor h k.group x).2 := by
  have hmove : Move w ch (w.run ch τ) (.step τ) := move_run τ
  generalize w.run ch τ = w' at hmove
  cases hmove with
  | flies bridge calls =>
      obtain ⟨_, _, _, _, _, _, _, hb⟩ := w.bridge.stepFlight_eq w.now _ ch.draw
      exact .inl (by rw [bridge, hb])
  | @goes _ c was bridge self others =>
      obtain ⟨_, _, hs⟩ | ⟨t, s, h, hhanded, hs⟩ := w.bridge.store_stepCall_cases ch.order w.now c
      · exact .inl (by rw [bridge, hs])
      · refine .inr ⟨t, s.key, s.partition, h, s.position,
          (w.bridge.moveCursor (.ok h) s.key.group s.position).1, ?_, bridge ▸ hs⟩
        rw [persistActs, was, Option.map_some, Option.getD_some,
          Bridge.persistActs_of_handed hhanded]
        exact List.mem_cons_self ..
  | begins bridge self others => exact .inl (by rw [bridge])
  | idles bridge calls => exact .inl (by rw [bridge])

/-! ## The order of reads and writes -/

/-- However many persist passes overlap, and whatever else happens between their steps: a pass reads
an entry of the table once, and what it writes it has read there; of two writes for one offset, the
first one's read comes before the second one's.  For the first write comes in between: read, write,
read, write.  Whatever the tasks change in the store is such a write.  So once a pass has read what
the table holds, and has written it, the cursor stays until the table changes, whatever later passes
do. -/
theorem persist_keeps_order (now : Nat) (settings : Bridge.Settings) (owner : String)
    (points : CursorPoints) (manualClock : Option Nat) (es : List (Choice × Event)) :
    let w := new now (.new settings (.new owner points) manualClock)
    (∀ before turn k p h x moved after,
      w.persistLog es = before ++ .moves turn k p h x moved :: after →
      ∃ copy o, .copies turn k copy ∈ before ∧ copy[p]? = some o ∧ Position.decode o = .ok x) ∧
    (∀ before turn k copy after, w.persistLog es = before ++ .copies turn k copy :: after →
      ∀ copy', .copies turn k copy' ∉ before ++ after) ∧
    (∀ before turn k p h x moved middle turn' h' x' moved' after,
      w.persistLog es = before ++ .moves turn k p h x moved :: middle ++
        .moves turn' k p h' x' moved' :: after →
      (∃ copy, .copies turn k copy ∈ before) ∧ ∃ copy, .copies turn' k copy ∈ middle) ∧
    (∀ es₁ ch τ es₂, es = es₁ ++ (ch, .step τ) :: es₂ →
      let v := w.steps es₁
      (v.step ch (.step τ)).bridge.store.objects = v.bridge.store.objects ∨
        ∃ turn k p h x moved, .moves turn k p h x moved ∈ v.persistActs ch (.step τ) ∧
          (v.step ch (.step τ)).bridge.store = (v.bridge.store.writeCursor h k.group x).2) ∧
    ∀ es₁ es₂ ch e es₃ turn k p o copy h x, es = es₁ ++ es₂ ++ (ch, e) :: es₃ →
      (∀ done rest, es₂ ++ (ch, e) :: es₃ = done ++ rest →
        ((w.steps es₁).steps done).bridge.table.query k p = some o) →
      .copies turn k copy ∈ (w.steps es₁).persistLog es₂ →
      .moves turn k p h x true ∈ ((w.steps es₁).steps es₂).persistActs ch e →
      (∀ e' ∈ es₃, ∀ y, e'.2 ≠ .operate (.resetCursor ⟨k.topic, p⟩ k.group y)) →
      let v := ((w.steps es₁).steps es₂).step ch e
      Position.decode o = .ok x ∧
      (∀ done rest, es₃ = done ++ rest →
        ((v.steps done).bridge.store.partition h).cursor? k.group = some x) ∧
      ∀ turn' h' x' moved', .moves turn' k p h' x' moved' ∈ v.persistLog es₃ → x' = x := by
  intro w
  have hnamed : w.Named := named_new now settings owner points manualClock
  have hexclusive : w.Exclusive := exclusive_new now _
  have hlogged : ∀ es, (w.steps es).Logged (w.persistLog es) :=
    fun es ↦ logged_steps (logged_new now _) hexclusive es
  have hordered := (hlogged es).ordered
  have hwritten : ∀ before turn k p h x moved after,
      w.persistLog es = before ++ .moves turn k p h x moved :: after →
      ∃ copy o, .copies turn k copy ∈ before ∧ copy[p]? = some o ∧ Position.decode o = .ok x := by
    intro before turn k p h x moved after heq
    obtain ⟨copy, o, hcopied, ho, hx⟩ := hordered _ _ _ heq
    exact ⟨copy, o, hcopied.mem, ho, hx⟩
  refine ⟨hwritten, fun before turn k copy after heq ↦ hordered.copied_once heq,
    fun before turn k p h x moved middle turn' h' x' moved' after heq ↦ ?_,
    fun es₁ ch τ es₂ _ ↦ objects_run (w.steps es₁) ch τ,
    fun es₁ es₂ ch e es₃ turn k p o copy h x hes ho hcopy hmoves hreset ↦ ?_⟩
  · obtain ⟨copy, -, hcopy, -⟩ := hwritten before turn k p h x moved _ (by simpa using heq)
    obtain ⟨copy', -, hcopy', -⟩ := hordered.copied_between heq
    exact ⟨⟨copy, hcopy⟩, copy', hcopy'⟩
  · intro v
    have hlogged₂ := hlogged (es₁ ++ es₂)
    rw [persistLog_append, steps_append] at hlogged₂
    have hnamed₂ : ((w.steps es₁).steps es₂).Named := named_steps (named_steps hnamed _) _
    have hcopied : copy[p]? = some o :=
      getElem?_of_copies (fun done rest heq ↦ ho done (rest ++ (ch, e) :: es₃) (by simp [heq]))
        hcopy
    obtain ⟨hx, hsettled⟩ := settled_of_moves hlogged₂
      (exclusive_steps (exclusive_steps hexclusive)) hnamed₂ (List.mem_append_right _ hcopy) hcopied
      (ho es₂ _ rfl) hmoves
    have hstays : ∀ done rest, es₃ = done ++ rest → (v.steps done).Settled h k p x ∧
        ∀ turn' h' x' moved', .moves turn' k p h' x' moved' ∈ v.persistLog done → x' = x := by
      rintro done rest rfl
      refine settled_steps hsettled (named_step hnamed₂ ch e) (fun done' rest' heq ↦ ?_) hx
        fun e' he' ↦ hreset e' (List.mem_append_left _ he')
      have hholds := ho (es₂ ++ (ch, e) :: done') (rest' ++ rest) (by simp [heq])
      rwa [steps_append, steps_cons] at hholds
    exact ⟨hx, fun done rest heq ↦ (hstays done rest heq).1.stands,
      (hstays es₃ [] (by simp)).2⟩

/-- A bridge with one partition, on which a group committed. -/
def committedOnce : World :=
  (new 0 (.new ⟨["__"], .standard, 3000⟩ (.new "owner-1" ∅) none)).steps
    [(.plain, .operate (.createPartition ⟨"t", 0⟩)), (.plain, .operate (.register ⟨"t", 0⟩)),
      (.plain, .operate (.commit ⟨"g", "t"⟩ 0 268435461))]

/-- Two persist passes; the first one has read, and the second one waits for its turn. -/
def twoPasses : List (Choice × Event) :=
  [(.plain, .call .persist), (.plain, .call .persist), (.plain, .step (.call 0)),
    (.plain, .step (.call 1))]

/-- The second pass reads and writes. -/
def secondPass : List (Choice × Event) := [(.plain, .step (.call 1)), (.plain, .step (.call 1))]

theorem persistLog_twoPasses : committedOnce.persistLog twoPasses =
    [.copies 0 ⟨"g", "t"⟩ (committedOnce.bridge.table.queryAll ⟨"g", "t"⟩)] := rfl

theorem persistActs_twoPasses :
    (committedOnce.steps twoPasses).persistActs .plain (.step (.call 0)) =
      [.moves 0 ⟨"g", "t"⟩ 0 ⟨0, none⟩ ⟨1, 5⟩ true] := rfl

theorem persistLog_secondPass :
    ((committedOnce.steps twoPasses).step .plain (.step (.call 0))).persistLog secondPass =
      [.copies 1 ⟨"g", "t"⟩ (committedOnce.bridge.table.queryAll ⟨"g", "t"⟩),
        .moves 1 ⟨"g", "t"⟩ 0 ⟨0, none⟩ ⟨1, 5⟩ true] := rfl

theorem query_twoPasses (done rest : List (Choice × Event))
    (h : twoPasses ++ (.plain, .step (.call 0)) :: secondPass = done ++ rest) :
    (committedOnce.steps done).bridge.table.query ⟨"g", "t"⟩ 0 = some 268435461 := by
  have hholds : ∀ i < 8, (committedOnce.steps ((twoPasses ++ (.plain, .step (.call 0)) ::
      secondPass).take i)).bridge.table.query ⟨"g", "t"⟩ 0 = some 268435461 := by decide
  have hlength : 7 = (done ++ rest).length := congrArg List.length h
  rw [List.length_append] at hlength
  have htake := hholds done.length (by omega)
  rwa [h, List.take_left' rfl] at htake

theorem second_pass_keeps_cursor :
    let v := (committedOnce.steps twoPasses).step .plain (.step (.call 0))
    v.persistLog secondPass =
      [.copies 1 ⟨"g", "t"⟩ (committedOnce.bridge.table.queryAll ⟨"g", "t"⟩),
        .moves 1 ⟨"g", "t"⟩ 0 ⟨0, none⟩ ⟨1, 5⟩ true] ∧
    ((v.steps secondPass).bridge.store.partition ⟨0, none⟩).cursor? "g" = some ⟨1, 5⟩ := by
  obtain ⟨-, -, -, -, hsettles⟩ := persist_keeps_order 0 ⟨["__"], .standard, 3000⟩ "owner-1" ∅ none
    ([(.plain, .operate (.createPartition ⟨"t", 0⟩)), (.plain, .operate (.register ⟨"t", 0⟩)),
      (.plain, .operate (.commit ⟨"g", "t"⟩ 0 268435461))] ++ twoPasses ++
        (.plain, .step (.call 0)) :: secondPass)
  have hsettled := hsettles _ twoPasses .plain (.step (.call 0)) secondPass 0 ⟨"g", "t"⟩ 0 268435461
    (committedOnce.bridge.table.queryAll ⟨"g", "t"⟩) ⟨0, none⟩ ⟨1, 5⟩ rfl query_twoPasses
    (persistLog_twoPasses ▸ List.mem_singleton_self _)
    (persistActs_twoPasses ▸ List.mem_singleton_self _) (by simp [secondPass])
  exact ⟨persistLog_secondPass, hsettled.2.1 secondPass [] rfl⟩

end World

end GroupOffsets
