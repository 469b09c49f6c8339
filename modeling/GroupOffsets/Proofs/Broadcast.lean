import GroupOffsets.Broadcast

/-!
# Hearing the shutdown signal

What the operations of the broadcast do for one listener, and what that listener hears in a run of
them.  It hears of the shutdown if a message was sent or the sender went away since it subscribed:
messages displace each other, but then the listener is told that it lags, which is as good.  What
the other listeners receive makes no difference: `Broadcast.signal_reaches_listeners`.
-/

namespace GroupOffsets

namespace Broadcast

/-- What happens to a broadcast. -/
inductive Event where
  | subscribe
  | send
  | close
  | recv (n : Nat)
  deriving DecidableEq

/-- The broadcast after an event. -/
def step (s : Broadcast) : Event → Broadcast
  | .subscribe => (s.subscribe.map Prod.snd).getD s
  | .send => s.send.2
  | .close => s.close
  | .recv n => (s.recv n).2

/-- The broadcast after several events. -/
def run (s : Broadcast) (es : List Event) : Broadcast := es.foldl step s

/-- Listener `n` receives at some point of a run. -/
def Receives (s : Broadcast) (n : Nat) (es : List Event) : Prop :=
  ∃ before after, es = before ++ .recv n :: after ∧ ((s.run before).recv n).1 = true

/-- Listener `n` subscribes at some point of a run, and `after` follows. -/
def Subscribes (s : Broadcast) (n : Nat) (es after : List Event) : Prop :=
  ∃ before, es = before ++ .subscribe :: after ∧ (s.run before).subscribe.map Prod.fst = some n

variable {s s' : Broadcast} {l : Listener} {n m : Nat} {e : Event} {es after : List Event}

theorem run_append (s : Broadcast) (es es' : List Event) : s.run (es ++ es') = (s.run es).run es' :=
  List.foldl_append

theorem run_cons (s : Broadcast) (e : Event) (es : List Event) :
    s.run (e :: es) = (s.step e).run es := rfl

/-! ## Being ready, being shut down -/

/-- There is something to receive after a message, or several, or the end of the sender. -/
theorem isSome_delivery? :
    (s.delivery? l).isSome = true ↔ l.seen < s.sent ∨ s.closed = true := by
  rw [delivery?]
  split
  · exact iff_of_true rfl (.inl (by omega))
  · split
    · exact iff_of_true rfl (.inl ‹_›)
    · split <;> simp_all

theorem isReady_iff : s.isReady n = true ↔ ∃ l, s.listeners[n]? = some l ∧
    (l.isShutdown = true ∨ l.seen < s.sent ∨ s.closed = true) := by
  rw [isReady]
  cases hl : s.listeners[n]? with
  | none => simp
  | some l => simp [isSome_delivery?]

theorem isReady_congr (hl : s'.listeners[n]? = s.listeners[n]?) (hsent : s'.sent = s.sent)
    (hclosed : s'.closed = s.closed) : s'.isReady n = s.isReady n := by
  rw [Bool.eq_iff_iff, isReady_iff, isReady_iff, hl, hsent, hclosed]

theorem isShutdown_iff :
    s.isShutdown n = true ↔ ∃ l, s.listeners[n]? = some l ∧ l.isShutdown = true := by
  rw [isShutdown]
  cases s.listeners[n]? <;> simp

theorem isShutdown_congr (hl : s'.listeners[n]? = s.listeners[n]?) :
    s'.isShutdown n = s.isShutdown n := by
  rw [isShutdown, isShutdown, hl]

theorem isReady_of_isShutdown (h : s.isShutdown n = true) : s.isReady n = true := by
  obtain ⟨l, hl, hshut⟩ := isShutdown_iff.mp h
  exact isReady_iff.mpr ⟨l, hl, .inl hshut⟩

/-! ## Subscribing -/

theorem subscribe_fst :
    s.subscribe.map Prod.fst = some n ↔ s.closed = false ∧ s.listeners.size = n := by
  rw [subscribe]
  cases s.closed <;> simp

theorem step_subscribe_of_open (h : s.closed = false) :
    s.step .subscribe = { s with listeners := s.listeners.push ⟨s.sent, false⟩ } := by
  simp [step, subscribe, h]

theorem step_subscribe_of_closed (h : s.closed = true) : s.step .subscribe = s := by
  simp [step, subscribe, h]

/-! ## Sending -/

@[simp] theorem listeners_send : s.send.2.listeners = s.listeners := by
  rw [send]
  split
  · rfl
  · split <;> rfl

@[simp] theorem closed_send : s.send.2.closed = s.closed := by
  rw [send]
  split
  · rfl
  · split <;> rfl

@[simp] theorem isShutdown_send : s.send.2.isShutdown n = s.isShutdown n :=
  isShutdown_congr (by rw [listeners_send])

/-- A message is sent if there are a sender and a listener. -/
theorem sent_send : s.send.2.sent =
    if s.closed = true ∨ s.listeners.size = 0 then s.sent else s.sent + 1 := by
  rw [send]
  cases s.closed <;> simp [Array.isEmpty]
  split <;> rfl

/-! ## Receiving -/

theorem recv_fst : (s.recv n).1 = s.isReady n := by
  rw [recv]
  cases s.isReady n <;> rfl

theorem recv_of_not_ready (h : s.isReady m = false) : (s.recv m).2 = s := by
  simp [recv, h]

@[simp] theorem sent_recv : (s.recv m).2.sent = s.sent := by
  rw [recv]
  split <;> rfl

@[simp] theorem closed_recv : (s.recv m).2.closed = s.closed := by
  rw [recv]
  split <;> rfl

@[simp] theorem size_recv : (s.recv m).2.listeners.size = s.listeners.size := by
  rw [recv]
  split
  · exact Array.size_modify
  · rfl

theorem listeners_recv_of_ne (h : n ≠ m) : (s.recv m).2.listeners[n]? = s.listeners[n]? := by
  rw [recv]
  split
  · simp only [Array.getElem?_modify, if_neg h.symm]
  · rfl

theorem listeners_recv_self : (s.recv n).2.listeners[n]? =
    if s.isReady n then (s.listeners[n]?).map fun l ↦ if l.isShutdown then l else ⟨s.sent, true⟩
    else s.listeners[n]? := by
  rw [recv]
  split
  · simp only [Array.getElem?_modify, if_true]
  · rfl

theorem isShutdown_recv_of_ne (h : n ≠ m) : (s.recv m).2.isShutdown n = s.isShutdown n :=
  isShutdown_congr (listeners_recv_of_ne h)

/-- Who has received is told to shut down. -/
theorem isShutdown_recv_self (h : s.isReady n = true) : (s.recv n).2.isShutdown n = true := by
  obtain ⟨l, hl, -⟩ := isReady_iff.mp h
  rw [isShutdown, listeners_recv_self, if_pos h, hl, Option.map_some]
  dsimp only
  split
  · assumption
  · rfl

/-- Who has something to receive, or was shut down, is ready for good. -/
theorem isReady_recv (h : s.isReady n = true) : (s.recv m).2.isReady n = true := by
  by_cases hm : n = m
  · subst hm
    exact isReady_of_isShutdown (isShutdown_recv_self h)
  · rwa [isReady_congr (listeners_recv_of_ne hm) sent_recv closed_recv]

/-! ## One event -/

theorem lt_size_step (hn : n < (s.step e).listeners.size) : n < s.listeners.size ∨
    e = .subscribe ∧ s.subscribe.map Prod.fst = some n := by
  cases e with
  | subscribe =>
      rw [subscribe_fst]
      cases h : s.closed with
      | false =>
          rw [step_subscribe_of_open h, Array.size_push] at hn
          rcases Nat.lt_succ_iff_lt_or_eq.mp hn with hlt | heq
          · exact .inl hlt
          · exact .inr ⟨rfl, rfl, heq.symm⟩
      | true =>
          rw [step_subscribe_of_closed h] at hn
          exact .inl hn
  | send => exact .inl (by simpa [step] using hn)
  | close => exact .inl hn
  | recv m => exact .inl (by simpa [step] using hn)

/-- Listener `n` has subscribed, and it has seen no messages but those that were sent; so the next
one is news to it. -/
def Listens (s : Broadcast) (n : Nat) : Prop := ∃ l, s.listeners[n]? = some l ∧ l.seen ≤ s.sent

theorem listeners_step_subscribe (h : s.Listens n) :
    (s.step .subscribe).listeners[n]? = s.listeners[n]? := by
  obtain ⟨l, hl, -⟩ := h
  cases hclosed : s.closed with
  | false =>
      obtain ⟨hlt, -⟩ := Array.getElem?_eq_some_iff.mp hl
      rw [step_subscribe_of_open hclosed, Array.getElem?_push, if_neg (Nat.ne_of_lt hlt)]
  | true => rw [step_subscribe_of_closed hclosed]

theorem sent_step_subscribe : (s.step .subscribe).sent = s.sent := by
  cases h : s.closed with
  | false => rw [step_subscribe_of_open h]
  | true => rw [step_subscribe_of_closed h]

theorem closed_step_subscribe : (s.step .subscribe).closed = s.closed := by
  cases h : s.closed with
  | false => rw [step_subscribe_of_open h, h]
  | true => rw [step_subscribe_of_closed h, h]

theorem Listens.step (h : s.Listens n) (e : Event) : (s.step e).Listens n := by
  obtain ⟨l, hl, hseen⟩ := id h
  cases e with
  | subscribe =>
      exact ⟨l, (listeners_step_subscribe h).trans hl, by rwa [sent_step_subscribe]⟩
  | send =>
      refine ⟨l, by rw [Broadcast.step, listeners_send, hl], ?_⟩
      rw [Broadcast.step, sent_send]
      split
      · exact hseen
      · exact Nat.le_succ_of_le hseen
  | close => exact ⟨l, hl, hseen⟩
  | recv m =>
      rw [Listens, Broadcast.step, sent_recv]
      by_cases hm : n = m
      · subst hm
        rw [listeners_recv_self, hl]
        split
        -- whoever receives has seen all that was sent, and is never asked again
        · refine ⟨_, rfl, ?_⟩
          dsimp only
          split
          · exact hseen
          · exact Nat.le_refl _
        · exact ⟨l, rfl, hseen⟩
      · exact ⟨l, (listeners_recv_of_ne hm).trans hl, hseen⟩

/-- A listener becomes ready when a message is sent or the sender goes away, and stays ready. -/
theorem isReady_step (h : s.Listens n) : (s.step e).isReady n = true ↔
    s.isReady n = true ∨ e = .send ∨ e = .close := by
  cases e with
  | subscribe =>
      rw [isReady_congr (listeners_step_subscribe h) sent_step_subscribe closed_step_subscribe]
      simp
  | send =>
      obtain ⟨l, hl, hseen⟩ := h
      obtain ⟨hlt, -⟩ := Array.getElem?_eq_some_iff.mp hl
      refine iff_of_true (isReady_iff.mpr ⟨l, by rw [step, listeners_send, hl], .inr ?_⟩)
        (.inr (.inl rfl))
      -- a message that is not sent finds the sender gone, which is as good
      rw [step, sent_send, closed_send]
      cases s.closed with
      | false =>
          rw [if_neg (by simpa [← Array.size_eq_zero_iff] using Nat.ne_zero_of_lt hlt)]
          exact .inl (Nat.lt_succ_of_le hseen)
      | true => exact .inr rfl
  | close =>
      obtain ⟨l, hl, -⟩ := h
      exact iff_of_true (isReady_iff.mpr ⟨l, hl, .inr (.inr rfl)⟩) (.inr (.inr rfl))
  | recv m =>
      cases hready : s.isReady m with
      | false => simp [step, recv_of_not_ready hready]
      | true =>
          by_cases hm : n = m
          · subst hm
            simp [step, isReady_recv hready, hready]
          · simp [step, isReady_congr (listeners_recv_of_ne hm) sent_recv closed_recv]

/-- A listener is shut down when it receives, and by nothing else. -/
theorem isShutdown_step : (s.step e).isShutdown n = true ↔
    s.isShutdown n = true ∨ e = .recv n ∧ (s.recv n).1 = true := by
  cases e with
  | subscribe =>
      cases h : s.closed with
      | false =>
          rw [step_subscribe_of_open h, isShutdown_iff, isShutdown_iff]
          simp only [Array.getElem?_push]
          split <;> simp_all
      | true => simp [step_subscribe_of_closed h]
  | send => simp [step]
  | close => simp [step, close, isShutdown]
  | recv m =>
      rw [recv_fst]
      by_cases hm : n = m
      · subst hm
        cases h : s.isReady n with
        | false => simp [step, recv_of_not_ready h]
        | true => simp [step, isShutdown_recv_self h]
      · simp [step, isShutdown_recv_of_ne hm, Ne.symm hm]

/-! ## Runs -/

theorem receives_cons :
    s.Receives n (e :: es) ↔ e = .recv n ∧ (s.recv n).1 = true ∨ (s.step e).Receives n es := by
  constructor
  · rintro ⟨before, after, hes, hrecv⟩
    rcases List.cons_eq_append_iff.mp hes with ⟨rfl, hhead⟩ | ⟨before', rfl, rfl⟩
    · cases hhead
      exact .inl ⟨rfl, hrecv⟩
    · exact .inr ⟨before', after, rfl, hrecv⟩
  · rintro (⟨rfl, hrecv⟩ | ⟨before, after, rfl, hrecv⟩)
    · exact ⟨[], es, rfl, hrecv⟩
    · exact ⟨e :: before, after, rfl, hrecv⟩

/-- A listener is shut down if it has received. -/
theorem isShutdown_run :
    (s.run es).isShutdown n = true ↔ s.isShutdown n = true ∨ s.Receives n es := by
  induction es generalizing s with
  | nil => simp [run, Receives]
  | cons e es ih => rw [run_cons, ih, isShutdown_step, receives_cons, or_assoc]

theorem isReady_run (h : s.Listens n) : (s.run es).isReady n = true ↔
    s.isReady n = true ∨ .send ∈ es ∨ .close ∈ es := by
  induction es generalizing s with
  | nil => simp [run]
  | cons e es ih =>
      rw [run_cons, ih (h.step e), isReady_step h, List.mem_cons, List.mem_cons]
      grind

/-- Who listens has subscribed. -/
theorem exists_subscribes (hn : n < (s.run es).listeners.size) :
    n < s.listeners.size ∨ ∃ after, s.Subscribes n es after := by
  induction es generalizing s with
  | nil => exact .inl hn
  | cons e es ih =>
      rcases ih hn with hlt | ⟨after, before, rfl, hsub⟩
      · rcases lt_size_step hlt with hlt | ⟨rfl, hsub⟩
        · exact .inl hlt
        · exact .inr ⟨es, [], rfl, hsub⟩
      · exact .inr ⟨after, e :: before, rfl, hsub⟩

/-- A listener hears what happens after it has subscribed. -/
theorem Subscribes.isReady (h : s.Subscribes n es after) :
    (s.run es).isReady n = true ↔ .send ∈ after ∨ .close ∈ after := by
  obtain ⟨before, rfl, hsub⟩ := h
  obtain ⟨hopen, rfl⟩ := subscribe_fst.mp hsub
  have hl : ((s.run before).step .subscribe).listeners[(s.run before).listeners.size]? =
      some ⟨(s.run before).sent, false⟩ := by
    rw [step_subscribe_of_open hopen, Array.getElem?_push_size]
  have hlistens : ((s.run before).step .subscribe).Listens (s.run before).listeners.size :=
    ⟨_, hl, Nat.le_of_eq sent_step_subscribe.symm⟩
  rw [run_append, run_cons, isReady_run hlistens, or_iff_right]
  rw [isReady_iff, hl, sent_step_subscribe, closed_step_subscribe]
  simp [hopen]

/-! ## Other listeners -/

/-- Two broadcasts that are the same to listener `n`. -/
structure SameTo (n : Nat) (s s' : Broadcast) : Prop where
  sent : s'.sent = s.sent
  closed : s'.closed = s.closed
  size : s'.listeners.size = s.listeners.size
  listener : s'.listeners[n]? = s.listeners[n]?

theorem sameTo_recv (s : Broadcast) (h : n ≠ m) : SameTo n s (s.recv m).2 :=
  ⟨sent_recv, closed_recv, size_recv, listeners_recv_of_ne h⟩

theorem SameTo.isReady (h : SameTo n s s') : s'.isReady n = s.isReady n :=
  isReady_congr h.listener h.sent h.closed

theorem SameTo.step (h : SameTo n s s') (e : Event) : SameTo n (s.step e) (s'.step e) := by
  cases e with
  | subscribe =>
      cases hclosed : s.closed with
      | false =>
          rw [step_subscribe_of_open hclosed, step_subscribe_of_open (h.closed.trans hclosed)]
          refine ⟨h.sent, h.closed, by simp [h.size], ?_⟩
          simp only [Array.getElem?_push, h.size, h.sent, h.listener]
      | true =>
          rw [step_subscribe_of_closed hclosed, step_subscribe_of_closed (h.closed.trans hclosed)]
          exact h
  | send =>
      refine ⟨?_, closed_send.trans (h.closed.trans closed_send.symm), ?_, ?_⟩
      · rw [Broadcast.step, Broadcast.step, sent_send, sent_send, h.sent, h.closed, h.size]
      · rw [Broadcast.step, Broadcast.step, listeners_send, listeners_send, h.size]
      · rw [Broadcast.step, Broadcast.step, listeners_send, listeners_send, h.listener]
  | close => exact ⟨h.sent, rfl, h.size, h.listener⟩
  | recv m =>
      refine ⟨sent_recv.trans (h.sent.trans sent_recv.symm),
        closed_recv.trans (h.closed.trans closed_recv.symm),
        size_recv.trans (h.size.trans size_recv.symm), ?_⟩
      rw [Broadcast.step, Broadcast.step]
      by_cases hm : n = m
      · subst hm
        rw [listeners_recv_self, listeners_recv_self, h.isReady, h.sent, h.listener]
      · rw [listeners_recv_of_ne hm, listeners_recv_of_ne hm, h.listener]

theorem SameTo.run (h : SameTo n s s') (es : List Event) : SameTo n (s.run es) (s'.run es) := by
  induction es generalizing s s' with
  | nil => exact h
  | cons e es ih => exact ih (h.step e)

/-- **The signal is not missed.**  In any run, a listener can receive if it has received before, or
if a message was sent after it subscribed, however many have been since, or if the sender is gone,
and in no other case.  It is shut down if it has received, and from then on for good.  What one
listener receives changes nothing for another one, now or later. -/
theorem signal_reaches_listeners (es : List Event) :
    let s := (∅ : Broadcast).run es
    (∀ n, (s.recv n).1 = true ↔ Receives ∅ n es ∨
      ∃ after, Subscribes ∅ n es after ∧ (.send ∈ after ∨ .close ∈ after)) ∧
    (∀ n, s.isShutdown n = true ↔ Receives ∅ n es) ∧
    (∀ n es', s.isShutdown n = true → (s.run es').isShutdown n = true) ∧
    ∀ m n es', n ≠ m →
      (((s.recv m).2.run es').recv n).1 = ((s.run es').recv n).1 ∧
      ((s.recv m).2.run es').isShutdown n = (s.run es').isShutdown n := by
  intro s
  have hshut : ∀ n, s.isShutdown n = true ↔ Receives ∅ n es := by
    intro n
    refine isShutdown_run.trans (or_iff_right fun hempty ↦ ?_)
    obtain ⟨l, hl, -⟩ := isShutdown_iff.mp hempty
    cases hl
  refine ⟨fun n ↦ ?_, hshut, fun n es' h ↦ isShutdown_run.mpr (.inl h), fun m n es' hne ↦ ?_⟩
  · rw [recv_fst]
    constructor
    · intro hready
      obtain ⟨l, hl, -⟩ := isReady_iff.mp hready
      obtain ⟨hlt, -⟩ := Array.getElem?_eq_some_iff.mp hl
      rcases exists_subscribes hlt with hempty | ⟨after, hsub⟩
      · cases hempty
      · exact .inr ⟨after, hsub, hsub.isReady.mp hready⟩
    · rintro (hrecv | ⟨after, hsub, hheard⟩)
      · exact isReady_of_isShutdown ((hshut n).mpr hrecv)
      · exact hsub.isReady.mpr hheard
  · have hsame := (sameTo_recv s hne).run es'
    rw [recv_fst, recv_fst]
    exact ⟨hsame.isReady, isShutdown_congr hsame.listener⟩

/-- Of two messages the first listener receives that it lags, the second one still has to hear of
the later message, and the third one came too late for both; but it learns that the sender goes
away, whatever the second one does. -/
theorem slow_and_late_listeners :
    let es : List Event := [.subscribe, .recv 0, .send, .subscribe, .send, .recv 0, .subscribe]
    let s := (∅ : Broadcast).run es
    s.isShutdown 0 = true ∧ (s.recv 1).1 = true ∧ (s.recv 2).1 = false ∧
      (2 ≠ 1 ∧ (((s.recv 1).2.run [.close]).recv 2).1 = ((s.run [.close]).recv 2).1) ∧
      ((s.run [.close]).recv 2).1 = true := by
  intro es s
  obtain ⟨hrecv, hshut, -, hothers⟩ := signal_reaches_listeners es
  have hsub : Subscribes ∅ 1 es [.send, .recv 0, .subscribe] :=
    ⟨[.subscribe, .recv 0, .send], rfl, rfl⟩
  refine ⟨(hshut 0).mpr ?_, (hrecv 1).mpr (.inr ⟨_, hsub, .inl (by decide)⟩), by decide,
    ⟨by decide, (hothers 1 2 [.close] (by decide)).1⟩, by decide⟩
  exact ⟨[.subscribe, .recv 0, .send, .subscribe, .send], [.subscribe], rfl, by decide⟩

end Broadcast

end GroupOffsets
