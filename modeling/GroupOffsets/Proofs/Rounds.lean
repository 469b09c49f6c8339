import GroupOffsets.Proofs.Resolution.Progress

/-!
# Calls are answered

A call comes to finitely many partitions, and waits for each no longer than callers do.  So a call
that is run often enough, while time goes on, is answered.

How many partitions a call comes to depends on what it is, and may depend on the table: a
`Call.Measure` says it for calls of some kind.  It has to fall with everything that the call is
handed, and nothing else that happens may raise it.
-/

namespace GroupOffsets

open World (Choice Event Task)

/-- To how many partitions calls of some kind come, with the table as it is; `none` for calls of
other kinds. -/
structure Call.Measure where
  /-- All partitions that a call comes to. -/
  request : OffsetTable → Request → Option Nat
  /-- Those that it comes to after the one that it needs. -/
  purpose : OffsetTable → Purpose → Option Nat

namespace Call.Measure

variable (left : Call.Measure)

/-- A call is answered, or needs a partition and has fewer than `l` to come to after that. -/
def Settles (l : Nat) (b : Bridge) (c : Call) : Prop :=
  (∃ reply, c = .answered reply) ∨
    ∃ p l', c = .asking p ∧ left.purpose b.table p = some l' ∧ l' < l

/-- Whatever a call is handed, it comes to fewer partitions after that. -/
structure Falls : Prop where
  beginCall : ∀ {b : Bridge} {r : Request} {l : Nat} (order : Itinerary) (now : Nat),
    left.request b.table r = some l →
      left.Settles l (b.beginCall order now r).1 (b.beginCall order now r).2
  deliver : ∀ {b : Bridge} {p : Purpose} {l : Nat} (order : Itinerary) (r : Attempt Handle),
    left.purpose b.table p = some l →
      left.Settles l (b.deliver order p r).1 (b.deliver order p r).2

/-- A change of the table that makes no call come to more partitions. -/
structure Bears (t t' : OffsetTable) : Prop where
  request : ∀ {r l}, left.request t r = some l → ∃ l' ≤ l, left.request t' r = some l'
  purpose : ∀ {p l}, left.purpose t p = some l → ∃ l' ≤ l, left.purpose t' p = some l'

variable {left}

theorem Bears.refl {t : OffsetTable} : left.Bears t t where
  request hl := ⟨_, Nat.le_refl _, hl⟩
  purpose hl := ⟨_, Nat.le_refl _, hl⟩

end Call.Measure

/-! ## One step -/

namespace Call

variable {left : Measure} {t t' : OffsetTable} {upTo upTo' k k' l : Nat} {c : Call}
  {b : Bridge} {order : Itinerary} {now : Nat}

/-- A call that takes no more steps than `k` until it is answered, apart from those in which it
waits, up to a time at most. -/
inductive Nears (left : Measure) (t : OffsetTable) (upTo k : Nat) : Call → Prop
  | begun {r : Request} {l : Nat} (measure : left.request t r = some l) (rank : 2 * l + 1 ≤ k) :
      Nears left t upTo k (.begun r)
  | asking {p : Purpose} {l : Nat} (measure : left.purpose t p = some l) (rank : 2 * l + 2 ≤ k) :
      Nears left t upTo k (.asking p)
  | waiting {p : Purpose} {l n d : Nat} (measure : left.purpose t p = some l)
      (rank : 2 * l + 1 ≤ k) (deadline : d ≤ upTo) : Nears left t upTo k (.waiting p n d)
  | answered {r : Reply Handle} : Nears left t upTo k (.answered r)

theorem Nears.mono (h : c.Nears left t upTo k) (ht : left.Bears t t') (hupTo : upTo ≤ upTo')
    (hk : k ≤ k') : c.Nears left t' upTo' k' := by
  cases h with
  | begun measure rank =>
      obtain ⟨l', hl', hmeasure⟩ := ht.request measure
      exact .begun hmeasure (by omega)
  | asking measure rank =>
      obtain ⟨l', hl', hmeasure⟩ := ht.purpose measure
      exact .asking hmeasure (by omega)
  | waiting measure rank deadline =>
      obtain ⟨l', hl', hmeasure⟩ := ht.purpose measure
      exact .waiting hmeasure (by omega) (Nat.le_trans deadline hupTo)
  | answered => exact .answered

theorem Measure.Settles.nears (h : left.Settles l b c) (hk : 2 * l ≤ k) :
    c.Nears left b.table upTo k := by
  obtain ⟨reply, rfl⟩ | ⟨p, l', rfl, hmeasure, hlt⟩ := h
  · exact .answered
  · exact .asking hmeasure (by omega)

/-- What a call is handed brings it closer to its answer. -/
theorem nears_of_handed {p : Purpose} {r : Attempt Handle} (hleft : left.Falls)
    (hh : b.handed now c = some (p, r)) (hl : left.purpose b.table p = some l) (hk : 2 * l ≤ k)
    (order : Itinerary) :
    (b.stepCall order now c).2.Nears left (b.stepCall order now c).1.table upTo k := by
  obtain ⟨metrics, hstep⟩ := Bridge.stepCall_of_handed order hh
  have hsettles := hleft.deliver (b := { b with metrics }) order r hl
  rw [hstep]
  exact hsettles.nears hk

/-- A step brings a call closer to its answer, unless it has to wait. -/
theorem Nears.stepCall (h : c.Nears left b.table upTo (k + 1)) (hleft : left.Falls)
    (order : Itinerary) (now : Nat) :
    (b.stepCall order now c).2.Nears left (b.stepCall order now c).1.table
        (now + b.settings.callerWait) k ∨
      now < upTo ∧ b.stepCall order now c = (b, c) := by
  cases h with
  | begun measure rank =>
      exact .inl ((hleft.beginCall order now measure).nears (Nat.le_of_succ_le_succ rank))
  | @asking p l measure rank =>
      cases hget : b.cache.get? p.target with
      | some h =>
          have hh : b.handed now (.asking p) = some (p, .ok h) := by
            simp only [Bridge.handed, hget, Option.map_some]
          exact .inl (nears_of_handed hleft hh measure (by omega) order)
      | none =>
          rw [Bridge.stepCall_asking_of_none order now hget]
          exact .inl (.waiting measure (Nat.le_of_succ_le_succ rank) (Nat.le_refl _))
  | @waiting p l n d measure rank deadline =>
      cases hh : b.handed now (.waiting p n d) with
      | some pr =>
          obtain ⟨q, r⟩ := pr
          cases Bridge.purpose?_of_handed hh
          exact .inl (nears_of_handed hleft hh measure (by omega) order)
      | none =>
          simp only [Bridge.handed] at hh
          split at hh
          · cases hh
          · rename_i hout
            split at hh
            · cases hh
            · rename_i hearly
              refine .inr ⟨Nat.lt_of_lt_of_le (Nat.lt_of_not_le hearly) deadline, ?_⟩
              simp only [Bridge.stepCall, hout, hearly, if_false]
  | answered => exact .inl .answered

end Call

/-! ## Runs -/

namespace World

variable {left : Call.Measure} {w : World} {ch : Choice} {e : Event} {m k upTo : Nat} {c : Call}
  {es es' : List (Choice × Event)}

/-- What happens besides the steps of call `m` neither gives it up nor makes it come to more
partitions. -/
def Bears (left : Call.Measure) (m : Nat) : World → List (Choice × Event) → Prop
  | _, [] => True
  | w, (ch, e) :: es =>
    (e ≠ .step (.call m) →
      e ≠ .cancel m ∧ left.Bears w.bridge.table (w.step ch e).bridge.table) ∧
      Bears left m (w.step ch e) es

theorem bears_append : w.Bears left m (es ++ es') ↔
    w.Bears left m es ∧ (w.steps es).Bears left m es' := by
  induction es generalizing w with
  | nil => simp [Bears]
  | cons e es ih =>
      obtain ⟨ch, e⟩ := e
      simp only [List.cons_append, Bears, steps_cons, ih, and_assoc]

theorem bears_of_kept (hleft : ∀ t t', left.Bears t t') (hkept : ∀ ch, (ch, .cancel m) ∉ es) :
    w.Bears left m es := by
  induction es generalizing w with
  | nil => trivial
  | cons e es ih =>
      refine ⟨fun _ ↦ ⟨fun heq ↦ hkept e.1 (heq ▸ List.mem_cons_self), hleft ..⟩, ih ?_⟩
      exact fun ch hmem ↦ hkept ch (List.mem_cons_of_mem _ hmem)

/-- A call takes no more steps than `k` until it is answered, apart from those in which it waits,
for no longer than a caller does. -/
structure NearsReply (left : Call.Measure) (w : World) (m k : Nat) : Prop where
  old : m < w.nextCall
  nears : ∃ c, w.calls[m]? = some c ∧
    c.Nears left w.bridge.table (w.now + w.bridge.settings.callerWait) k

/-- A new call takes two steps for each partition that it comes to, and one more. -/
theorem nearsReply_call_of_measure {r : Request} {l : Nat}
    (hl : left.request w.bridge.table r = some l) :
    (w.call r).2.NearsReply left w.nextCall (2 * l + 1) :=
  ⟨Nat.lt_succ_self _, _, w.calls_call r, .begun hl (Nat.le_refl _)⟩

theorem nearsReply_of_settles {l : Nat} (hm : m < w.nextCall) (hc : w.calls[m]? = some c)
    (h : left.Settles l w.bridge c) : w.NearsReply left m (2 * l) :=
  ⟨hm, c, hc, h.nears (Nat.le_refl _)⟩

/-- A step brings a call closer to its answer, unless it has to wait. -/
theorem nearsReply_run (hleft : left.Falls) (hm : m < w.nextCall) (hc : w.calls[m]? = some c)
    (h : c.Nears left w.bridge.table upTo (k + 1)) (ch : Choice) :
    (w.step ch (.step (.call m))).NearsReply left m k ∨
      w.now < upTo ∧ (w.step ch (.step (.call m))).calls[m]? = some c ∧
        (w.step ch (.step (.call m))).bridge.table = w.bridge.table := by
  have hcalls : (w.step ch (.step (.call m))).calls[m]? = _ := calls_run_call hc
  have hbridge : (w.step ch (.step (.call m))).bridge = _ := bridge_run_call hc
  obtain hnears | ⟨hearly, hsame⟩ := h.stepCall hleft ch.order w.now
  · refine .inl ⟨Nat.lt_of_lt_of_le hm nextCall_le_step, _, hcalls, ?_⟩
    rw [settings_step, hbridge]
    exact hnears.mono .refl (Nat.add_le_add_right (now_le_step w ch _) _) (Nat.le_refl k)
  · rw [hsame] at hcalls hbridge
    exact .inr ⟨hearly, hcalls, congrArg Bridge.table hbridge⟩

/-- Nothing takes a call further from its answer. -/
theorem NearsReply.step (h : w.NearsReply left m k) (hleft : left.Falls)
    (he : e ≠ .step (.call m) →
      e ≠ .cancel m ∧ left.Bears w.bridge.table (w.step ch e).bridge.table) :
    (w.step ch e).NearsReply left m k := by
  obtain ⟨c, hc, hnears⟩ := h.nears
  have hlater : w.now + w.bridge.settings.callerWait ≤
      (w.step ch e).now + (w.step ch e).bridge.settings.callerWait := by
    rw [settings_step]
    exact Nat.add_le_add_right (now_le_step w ch e) _
  have hstays : (w.step ch e).calls[m]? = some c →
      left.Bears w.bridge.table (w.step ch e).bridge.table → (w.step ch e).NearsReply left m k :=
    fun hsame hbears ↦ ⟨Nat.lt_of_lt_of_le h.old nextCall_le_step, c, hsame,
      hnears.mono hbears hlater (Nat.le_refl k)⟩
  by_cases hown : e = .step (.call m)
  · subst hown
    obtain hcloser | ⟨-, hsame, htable⟩ :=
      nearsReply_run hleft h.old hc (hnears.mono .refl (Nat.le_refl _) (Nat.le_succ k)) ch
    · exact hcloser
    · exact hstays hsame (htable ▸ .refl)
  · obtain ⟨hkept, hbears⟩ := he hown
    exact hstays ((calls_step_of_ne h.old hown hkept).trans hc) hbears

theorem NearsReply.steps (h : w.NearsReply left m k) (hleft : left.Falls)
    (hes : w.Bears left m es) : (w.steps es).NearsReply left m k := by
  induction es generalizing w with
  | nil => exact h
  | cons e es ih => exact ih (h.step hleft hes.1) hes.2

/-- As long as a call gets no closer to its answer, it stands where it stood. -/
theorem nearsReply_or_same (hleft : left.Falls) (hm : m < w.nextCall) (hc : w.calls[m]? = some c)
    (h : c.Nears left w.bridge.table upTo (k + 1)) (hes : w.Bears left m es) :
    (w.steps es).NearsReply left m k ∨ (w.steps es).calls[m]? = some c ∧
      c.Nears left (w.steps es).bridge.table upTo (k + 1) := by
  induction es generalizing w with
  | nil => exact .inr ⟨hc, h⟩
  | cons e es ih =>
      obtain ⟨ch, e⟩ := e
      have hm' : m < (w.step ch e).nextCall := Nat.lt_of_lt_of_le hm nextCall_le_step
      by_cases hown : e = .step (.call m)
      · subst hown
        obtain hcloser | ⟨-, hsame, htable⟩ := nearsReply_run hleft hm hc h ch
        · exact .inl (hcloser.steps hleft hes.2)
        · exact ih hm' hsame (htable ▸ h) hes.2
      · obtain ⟨hkept, hbears⟩ := hes.1 hown
        exact ih hm' ((calls_step_of_ne hm hown hkept).trans hc)
          (h.mono hbears (Nat.le_refl _) (Nat.le_refl _)) hes.2

/-- A call that is run after a caller's wait goes on. -/
theorem NearsReply.round (h : w.NearsReply left m (k + 1)) (hleft : left.Falls)
    (hes : w.Bears left m es) (hwaited : w.bridge.settings.callerWait ≤ elapsed es) (ch : Choice) :
    ((w.steps es).step ch (.step (.call m))).NearsReply left m k := by
  obtain ⟨c, hc, hnears⟩ := h.nears
  obtain hcloser | ⟨hsame, hnears'⟩ := nearsReply_or_same hleft h.old hc hnears hes
  · exact hcloser.step hleft fun hother ↦ absurd rfl hother
  · have hold : m < (w.steps es).nextCall := Nat.lt_of_lt_of_le h.old nextCall_le_steps
    obtain hcloser | ⟨hearly, -⟩ := nearsReply_run hleft hold hsame hnears' ch
    · exact hcloser
    · rw [now_steps] at hearly
      exact absurd (Nat.add_le_add_left hwaited w.now) (Nat.not_le.mpr hearly)

/-- A call that is run often enough is answered. -/
theorem NearsReply.exists_reply_of_bears (h : w.NearsReply left m k) (hleft : left.Falls)
    (hbears : w.Bears left m es) (hes : Attends (.call m) w.bridge.settings.callerWait k es) :
    ∃ reply, (w.steps es).reply? m = some reply := by
  -- the wait is the same all along, while the world changes with each round
  generalize hwait : w.bridge.settings.callerWait = wait at hes
  induction hes generalizing w with
  | @never es =>
      obtain ⟨c, hc, hnears⟩ := (h.steps hleft hbears).nears
      cases hnears with
      | @answered r => exact ⟨r, by rw [reply?, hc]; rfl⟩
      | begun _ rank | asking _ rank | waiting _ rank => exact absurd rank (by simp)
  | @again k before after ch waited others ih =>
      obtain ⟨hbefore, -, hafter⟩ := bears_append.mp hbears
      rw [steps_append, steps_cons]
      refine ih (h.round hleft hbefore (hwait ▸ waited) ch) hafter ?_
      rw [settings_step, settings_steps, hwait]

/-- Runs tasks one after the other, every 10 milliseconds. -/
def rounds (τs : List Task) : List (Choice × Event) :=
  τs.flatMap fun τ ↦ [(.plain, .elapse 10), (.plain, .step τ)]

theorem attends_rounds (τ : Task) {ms : Nat} (h : ms ≤ 10) (k : Nat) :
    Attends τ ms k (rounds (List.replicate k τ)) := by
  induction k with
  | zero => exact .never
  | succ k ih =>
      have hwaited : ms ≤ elapsed [(.plain, .elapse 10)] := h
      exact .again hwaited ih

end World

end GroupOffsets
