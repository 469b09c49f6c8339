import GroupOffsets.Proofs.Persist.Exact
import GroupOffsets.Proofs.Resolution.Course
import GroupOffsets.Proofs.Restart
import GroupOffsets.Proofs.Shutdown.Phases

/-!
# Idle services

A service over loaded cursors that nobody uses does nothing but to persist, and every offset that it
has was that of a cursor.  So each pass puts the cursors back where they stand, whenever it runs and
however its steps are mixed with those of the other loop.
-/

namespace GroupOffsets

open World (Choice Event Task)

/-! ## Passes -/

namespace Bridge

variable {b b' b'' : Bridge} {order : Itinerary} {now turn : Nat} {c : Call} {s : Persist}
variable {q : Progress Persist PersistReport} {points : CursorPoints}

theorem Steady.trans (h : Steady b b') (h' : Steady b' b'') : Steady b b'' :=
  ⟨h'.serving, h.partitions.trans h'.partitions, h'.cursors.trans h.cursors⟩

/-- Every offset in the table is that of a durable cursor. -/
def Mirrors (b : Bridge) : Prop :=
  ∀ (k : GroupTopic) (p : Int32) (o : Offset), b.table.query k p = some o →
    ∃ x : Position, x.encode = .ok o ∧ b.store.cursorOf ⟨k.topic, p⟩ k.group = some x

/-- The offsets of a bridge that came up are those of the loaded cursors of users, as far as they
have one, on the partitions that are known. -/
theorem Opened.query_eq_some {k : GroupTopic} {p : Int32} {o : Offset} (h : b.Opened points) :
    b.table.query k p = some o ↔
      (b.cache.get? ⟨k.topic, p⟩).isSome = true ∧ b.isSystemGroup k.group = false ∧
        ∃ x, points[(⟨k.group, ⟨k.topic, p⟩⟩ : CursorKey)]? = some x ∧ x.encode = .ok o := by
  rw [h.seeded]
  cases hcached : (b.cache.get? ⟨k.topic, p⟩).isSome <;> cases b.isSystemGroup k.group <;>
    simp [Option.bind_eq_some_iff, Position.encode_toOption]

theorem Opened.mirrors (h : b.Opened points) : b.Mirrors := by
  intro k p o ho
  obtain ⟨hcached, -, x, hx, hxo⟩ := h.query_eq_some.mp ho
  obtain ⟨hd, hget⟩ := Option.isSome_iff_exists.mp hcached
  obtain ⟨n, hn, -⟩ := h.cached hget
  refine ⟨x, hxo, ?_⟩
  rw [h.cursors, hn]
  exact hx

/-- The report of a pass that can write whatever stands for a position. -/
def prospect (b : Bridge) : PersistReport :=
  Persist.due (fun _ ↦ true) b.table b.isSystemGroup b.table.keys

/-- The cursors that a pass over a bridge that came up over them writes again. -/
def rewrites (b : Bridge) (points : CursorPoints) : CursorPoints :=
  points.filter fun k x ↦
    !b.isSystemGroup k.group && (b.cache.get? k.on).isSome && x.encode.isOk

/-- They are those that it has an offset of. -/
theorem Opened.mem_rewrites {k : CursorKey} (h : b.Opened points) :
    k ∈ b.rewrites points ↔ ∃ o, b.table.query ⟨k.group, k.on.topic⟩ k.on.partition = some o ∧
      b.isSystemGroup k.group = false ∧ 0 ≤ o := by
  rw [Std.ExtTreeMap.mem_iff_isSome_getElem?, rewrites, Std.ExtTreeMap.getElem?_filter',
    Option.isSome_filter]
  constructor
  · intro hk
    obtain ⟨x, hx, hkept⟩ := (Option.any_eq_true _ _).mp hk
    simp only [Bool.and_eq_true, Bool.not_eq_true'] at hkept
    obtain ⟨⟨huser, hcached⟩, hok⟩ := hkept
    cases hxo : x.encode with
    | error e =>
        rw [hxo] at hok
        cases hok
    | ok o =>
        exact ⟨o, h.query_eq_some.mpr ⟨hcached, huser, x, hx, hxo⟩, huser,
          Position.nonneg_of_encode hxo⟩
  · rintro ⟨o, ho, huser, -⟩
    obtain ⟨hcached, -, x, hx, hxo⟩ := h.query_eq_some.mp ho
    have hx' : points[k]? = some x := hx
    have hcached' : (b.cache.get? k.on).isSome = true := hcached
    simp [hx', hxo, huser, hcached', Except.isOk, Except.toBool]

theorem injective_cursorKey :
    Function.Injective fun x : GroupTopic × Int32 ↦ CursorKey.mk x.1.group ⟨x.1.topic, x.2⟩ := by
  rintro ⟨⟨g, t⟩, p⟩ ⟨⟨g', t'⟩, p'⟩ heq
  cases heq
  rfl

/-- A pass over a bridge that came up writes every cursor again that it has an offset of. -/
theorem Opened.prospect_eq (h : b.Opened points)
    (hsystem : ∀ k, b.isSystemGroup k.group = true → b.table.partitions k = none) :
    b.prospect = ⟨(b.rewrites points).size, 0, 0⟩ := by
  rw [prospect, Persist.due_keys]
  ext
  · dsimp only
    rw [← ncard_keys, ← Set.ncard_image_of_injective _ injective_cursorKey]
    congr 1
    ext ⟨g, t, p⟩
    rw [Set.mem_image, Set.mem_ofPred_eq, h.mem_rewrites]
    constructor
    · rintro ⟨⟨⟨g', t'⟩, p'⟩, ⟨o, ho, huser, hnonneg, -⟩, heq⟩
      cases heq
      exact ⟨o, ho, huser, hnonneg⟩
    · rintro ⟨o, ho, huser, hnonneg⟩
      exact ⟨(⟨g, t⟩, p), ⟨o, ho, huser, hnonneg, rfl⟩, rfl⟩
  · refine (congrArg Set.ncard (Set.eq_empty_of_forall_notMem ?_)).trans (Set.ncard_empty _)
    rintro x ⟨o, ho, -, hnot⟩
    obtain ⟨y, hy, -⟩ := h.mirrors _ _ _ ho
    exact hnot ⟨Position.nonneg_of_encode hy, rfl⟩
  · refine (congrArg Set.ncard (Set.eq_empty_of_forall_notMem ?_)).trans (Set.ncard_empty _)
    rintro k ⟨hsome, hk⟩
    rw [hsystem k hk] at hsome
    cases hsome

/-- A bridge that nobody has used since it was like this. -/
structure Unused (b b' : Bridge) : Prop where
  steady : Steady b b'
  table : b'.table = b.table
  system : b'.isSystemGroup = b.isSystemGroup
  aloft : b'.aloft = ∅

/-- A persist pass on its way to the report `b.prospect`. -/
inductive Prospers (b : Bridge) : Call → Prop
  | awaits {c : Call} (waits : c.AwaitsTurn) : Prospers b c
  | asks {turn : Nat} {s : Persist} (reads : s.Reads b.table b.isSystemGroup)
      (outlook : Persist.outlook (fun _ ↦ true) b.table b.isSystemGroup (.asks s) = b.prospect) :
      Prospers b (.asking (.persist turn s))
  | done : Prospers b (.answered (.report b.prospect))

theorem prospers_ofPersist
    (hq : Persist.outlook (fun _ ↦ true) b.table b.isSystemGroup q = b.prospect)
    (hreads : ∀ s, q = .asks s → s.Reads b.table b.isSystemGroup) :
    b.Prospers (.ofPersist turn q) := by
  cases q with
  | asks s => exact .asks (hreads s rfl) hq
  | done report =>
      have hreport : report = b.prospect := hq
      exact hreport ▸ .done

/-- What a pass asks for is where the cursor stands already. -/
theorem Mirrors.cursorOf_of_reads (hb : b.Mirrors) (hs : s.Reads b.table b.isSystemGroup) :
    b.store.cursorOf s.target s.key.group = some s.position := by
  obtain ⟨o, ho, hdecode⟩ := hs.asked
  obtain ⟨x, hx, hcursor⟩ := hb s.key s.partition o ho
  cases (Position.decode_of_encode hx).symm.trans hdecode
  exact hcursor

/-- A pass is handed the partition that it asks for. -/
theorem Unused.exists_handed (h : b.Unused b') (hb : b.Mirrors)
    (hs : s.Reads b.table b.isSystemGroup) (now turn : Nat) :
    ∃ n, b'.store.object? s.target = some n ∧
      b'.handed now (.asking (.persist turn s)) = some (.persist turn s, .ok ⟨n, none⟩) := by
  obtain ⟨n, hn, -⟩ := Option.bind_eq_some_iff.mp (hb.cursorOf_of_reads hs)
  rw [← h.steady.partitions.objects] at hn
  have hget : b'.cache.get? (Purpose.persist turn s).target = some ⟨n, none⟩ :=
    h.steady.serving.cached.mpr ⟨n, hn, rfl⟩
  exact ⟨n, hn, by rw [handed, hget, Option.map_some]⟩

/-- A pass goes on, and leaves everything as it is. -/
theorem Unused.stepCall (h : b.Unused b') (hb : b.Mirrors) (hc : b.Prospers c) (order : Itinerary)
    (now : Nat) :
    b.Unused (b'.stepCall order now c).1 ∧ b.Prospers (b'.stepCall order now c).2 := by
  have hsystem : (b'.stepCall order now c).1.isSystemGroup = b.isSystemGroup := by
    rw [← h.system]
    funext group
    rw [isSystemGroup, (b'.sameTerms_stepCall order now c).settings, isSystemGroup]
  cases hc with
  | @awaits c waits =>
      have hidle : c.purpose? = none := by cases waits <;> rfl
      have hsteady : Steady b' (b'.stepCall order now c).1 :=
        h.steady.serving.steady_stepCall fun t s hc ↦ by cases hc ▸ waits
      have htable := (b'.persists_stepCall order now (.awaits waits)).2
      have haloft : (b'.stepCall order now c).1.aloft = b'.aloft := by
        obtain ⟨_, _, _, _, hb'⟩ := b'.stepCall_idle_eq order now hidle
        rw [hb']
      refine ⟨⟨h.steady.trans hsteady, htable.trans h.table, hsystem, haloft.trans h.aloft⟩, ?_⟩
      rcases b'.stepCall_awaitsTurn order now waits with hwaits | ⟨turn, hstart⟩
      · exact .awaits hwaits
      · rw [hstart, h.table, h.system]
        exact prospers_ofPersist (Persist.outlook_start order) fun s hs ↦ Persist.advance_reads hs
  | @asks turn s reads outlook =>
      obtain ⟨n, hn, hh⟩ := h.exists_handed hb reads now turn
      obtain ⟨hserving, hsame, hcursors⟩ := h.steady.serving.stepCall_persist hn order now turn
      have htable := (b'.persists_stepCall order now (c := .asking (.persist turn s)) (.asks rfl)).2
      have hstands : (b'.stepCall order now (.asking (.persist turn s))).1.store.cursorOf =
          b'.store.cursorOf := by
        funext tp g
        rw [hcursors]
        split
        · rename_i hat
          obtain ⟨rfl, rfl⟩ := hat
          rw [h.steady.cursors, hb.cursorOf_of_reads reads]
        · rfl
      refine ⟨⟨h.steady.trans ⟨hserving, hsame, hstands⟩, htable.trans h.table, hsystem, ?_⟩, ?_⟩
      · obtain ⟨metrics, hb'⟩ := stepCall_of_handed order hh
        obtain ⟨_, _, _, _, hb''⟩ := deliver_eq { b' with metrics } order (.persist turn s) _
        rw [hb', hb'']
        exact h.aloft
      · have hsettles : b'.store.Settles true s.target (.ok ⟨n, none⟩) := ⟨n, rfl, hn⟩
        rw [(stepCall_persist_of_settles order hh hsettles).1, h.table, h.system]
        exact prospers_ofPersist ((Persist.outlook_answer order s).trans outlook)
          fun s' hs' ↦ Persist.answer_reads reads hs'
  | done => exact ⟨h, .done⟩

/-- The checkpoint of an unused bridge is the one that it came up over. -/
theorem Unused.points_eq (h : b.Unused b') (hb : b.Opened points) : b'.store.points = points := by
  refine Std.ExtTreeMap.ext_getElem? fun k ↦ ?_
  obtain ⟨g, tp⟩ := k
  rw [Store.getElem?_points, h.steady.cursors, h.steady.partitions.pending, hb.cursors, hb.pending]
  split
  · rw [Option.or_none]
  · rw [Option.none_or]

end Bridge

/-! ## Loops -/

/-- A sweep loop that does not sweep before some time. -/
inductive Loop.Dormant (time : Nat) : Loop → Prop
  | begun : Dormant time .begun
  | idle {tickAt : Nat} (late : time ≤ tickAt) : Dormant time (.idle (some tickAt))
  | ended : Dormant time .ended

namespace Service

variable {b b' : Bridge} {s : Service}

/-- A service that does not sweep within the first interval of its sweep loop, and every pass of
which is on its way to the same report. -/
structure Idle (b : Bridge) (s : Service) : Prop where
  sweeper : s.sweeper.Dormant s.sweepEvery
  pass : ∀ c, s.persister.pass? = some c → b.Prospers c
  final : ∀ report, s.final = some report → report = b.prospect

theorem idle_start (b : Bridge) (sweepEvery persistEvery : Nat) :
    (start sweepEvery persistEvery).Idle b where
  sweeper := .begun
  pass c hc := by cases hc
  final report h := by cases h

theorem Idle.stop (h : s.Idle b) : s.stop.Idle b := ⟨h.sweeper, h.pass, h.final⟩

section

variable {now : Nat} (tickFirst : Bool) (order : Itinerary)

theorem Idle.stepSweeper (h : s.Idle b) (hnow : now < s.sweepEvery) (b' : Bridge) :
    (s.stepSweeper b' tickFirst order now).1 = b' ∧
      (s.stepSweeper b' tickFirst order now).2.Idle b ∧
      (s.stepSweeper b' tickFirst order now).2.sweepEvery = s.sweepEvery := by
  obtain ⟨hdormant, hpass, hfinal⟩ := h
  rw [Service.stepSweeper]
  cases hl : s.sweeper with
  | begun =>
      refine ⟨rfl, ⟨?_, hpass, hfinal⟩, rfl⟩
      dsimp only
      split
      · exact .ended
      · exact .idle (Nat.le_add_left ..)
  | idle tickAt =>
      have hidle : (Loop.idle tickAt).Dormant s.sweepEvery := hl ▸ hdormant
      cases hidle with
      | @idle tickAt late =>
          have hdue : Loop.isDue now (some tickAt) = false :=
            decide_eq_false (Nat.not_le.mpr (Nat.lt_of_lt_of_le hnow late))
          dsimp only
          split
          · exact ⟨rfl, ⟨hdormant, hpass, hfinal⟩, rfl⟩
          · rename_i htick
            cases hdue.symm.trans (Loop.wake_eq_tick htick)
          · exact ⟨rfl, ⟨.ended, hpass, hfinal⟩, rfl⟩
  | passing tickAt c =>
      rw [hl] at hdormant
      cases hdormant
  | ended => exact ⟨rfl, ⟨hdormant, hpass, hfinal⟩, rfl⟩

theorem Idle.stepPersister (h : s.Idle b) (hb : b.Mirrors) (hb' : b.Unused b') (now : Nat) :
    b.Unused (s.stepPersister b' tickFirst order now).1 ∧
      (s.stepPersister b' tickFirst order now).2.Idle b ∧
      (s.stepPersister b' tickFirst order now).2.sweepEvery = s.sweepEvery := by
  obtain ⟨hdormant, hpass, hfinal⟩ := h
  have hbegins : ∀ c, some (Call.begun .persist) = some c → b.Prospers c := by
    intro c hc
    cases hc
    exact .awaits .begun
  rw [Service.stepPersister]
  cases hl : s.persister with
  | begun => exact ⟨hb', ⟨hdormant, fun c hc ↦ (by cases hc), hfinal⟩, rfl⟩
  | idle tickAt =>
      dsimp only
      split
      · exact ⟨hb', ⟨hdormant, hpass, hfinal⟩, rfl⟩
      · exact ⟨hb', ⟨hdormant, hbegins, hfinal⟩, rfl⟩
      · exact ⟨hb', ⟨hdormant, hbegins, hfinal⟩, rfl⟩
  | passing tickAt c =>
      obtain ⟨hunused, hprospers⟩ := hb'.stepCall hb (hpass c (hl ▸ rfl)) order now
      dsimp only
      split
      · rename_i reply hreply
        split
        · refine ⟨hunused, ⟨hdormant, fun c hc ↦ (by cases hc), fun report hreport ↦ ?_⟩, rfl⟩
          -- the pass is done
          generalize (b'.stepCall order now c).2 = c' at hprospers hreply
          cases hprospers with
          | awaits waits => cases waits <;> cases hreply
          | asks => cases hreply
          | done =>
              cases hreply
              cases hreport
              rfl
        · exact ⟨hunused, ⟨hdormant, fun c hc ↦ (by cases hc), hfinal⟩, rfl⟩
      · refine ⟨hunused, ⟨hdormant, fun c' hc' ↦ ?_, hfinal⟩, rfl⟩
        cases hc'
        exact hprospers
  | ended => exact ⟨hb', ⟨hdormant, hpass, hfinal⟩, rfl⟩

end

end Service

/-! ## Runs -/

namespace World

variable {w : World} {b : Bridge} {every : Nat} {ch : Choice} {e : Event}
variable {es : List (Choice × Event)} {points : CursorPoints}

/-- Whether an event is one of an idle service: nobody asks for anything. -/
def Event.isIdle : Event → Bool
  | .step _ | .stop | .elapse _ => true
  | _ => false

/-- A world in which an idle service runs over an unused bridge. -/
structure Idle (b : Bridge) (every : Nat) (w : World) : Prop where
  bridge : b.Unused w.bridge
  calls : w.calls = ∅
  service : w.InService fun s ↦ s.Idle b ∧ s.sweepEvery = every

theorem Idle.stop (h : w.Idle b every) (ch : Choice) : (w.step ch .stop).Idle b every := by
  obtain ⟨s, hs, hidle, hevery⟩ := h.service
  exact ⟨h.bridge, h.calls, s.stop, congrArg (Option.map Service.stop) hs, hidle.stop, hevery⟩

theorem idle_step (h : w.Idle b every) (hb : b.Mirrors) (he : e.isIdle) (hnow : w.now < every)
    (ch : Choice) : (w.step ch e).Idle b every := by
  have hstop := h.stop ch
  obtain ⟨hbridge, hcalls, s, hs, hidle, hevery⟩ := h
  cases e with
  | step τ =>
      cases τ with
      | flight n =>
          have hnone : w.bridge.aloft[n]? = none := by simp [hbridge.aloft]
          have hsame : w.bridge.stepFlight ch.draw w.now n = w.bridge := by
            simp only [Bridge.stepFlight, hnone]
          refine ⟨?_, hcalls, s, hs, hidle, hevery⟩
          exact (congrArg b.Unused hsame).mpr hbridge
      | call n =>
          have hsame : w.step ch (.step (.call n)) = w := run_call_of_none (by simp [hcalls])
          rw [hsame]
          exact ⟨hbridge, hcalls, s, hs, hidle, hevery⟩
      | sweeper =>
          obtain ⟨hsame, hidle', hevery'⟩ :=
            hidle.stepSweeper ch.tickFirst ch.order (hevery ▸ hnow) w.bridge
          simp only [step, run, hs]
          have hbridge' := (congrArg b.Unused hsame).mpr hbridge
          exact ⟨hbridge', hcalls, _, rfl, hidle', hevery'.trans hevery⟩
      | persister =>
          obtain ⟨hunused, hidle', hevery'⟩ :=
            hidle.stepPersister ch.tickFirst ch.order hb hbridge w.now
          simp only [step, run, hs]
          exact ⟨hunused, hcalls, _, rfl, hidle', hevery'.trans hevery⟩
  | stop => exact hstop
  | elapse ms => exact ⟨hbridge, hcalls, s, hs, hidle, hevery⟩
  | _ => cases he

/-- Before the first sweep an idle service leaves everything as it is. -/
theorem idle_steps (h : w.Idle b every) (hb : b.Mirrors) (hes : ∀ e ∈ es, e.2.isIdle)
    (hearly : (w.steps es).now < every) : (w.steps es).Idle b every := by
  induction es using List.reverseRecOn with
  | nil => exact h
  | append_singleton es e ih =>
      rw [steps_append, steps_cons, steps_nil] at hearly ⊢
      have hbefore : (w.steps es).now < every :=
        Nat.lt_of_le_of_lt (now_le_step _ e.1 e.2) hearly
      have hidle := ih (fun e' he' ↦ hes e' (List.mem_append_left _ he')) hbefore
      exact idle_step hidle hb (hes e (List.mem_append_right _ (List.mem_singleton_self e)))
        hbefore _

end World

end GroupOffsets
