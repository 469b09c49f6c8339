import GroupOffsets.Proofs.Persist.Progress
import GroupOffsets.Proofs.Persist.Tally

/-!
# A persist pass that nobody disturbs

The partitions that a pass asks for are resolved or not, once and for all, and nothing else touches
the table or a cursor.  Then the report of the pass and the cursors after it are determined by the
table: each offset is written if it can be, no other cursor moves, and a failure costs no more than
its own offset.
-/

namespace GroupOffsets

open World (Choice Event Task)

/-! ## Stores -/

namespace Store

variable {s s' s'' : Store} {saved : TopicPartition → String → Option Position}
variable {tp : TopicPartition} {g : String} {n : Nat} {x : Position} {r : Attempt Handle}

/-- Two stores with the same partitions, and with the same cursors on every object. -/
structure SameCursors (s s' : Store) : Prop where
  served : s'.served = s.served
  pending : s'.pending = s.pending
  cursors : ∀ m, (s'.object m).cursors = (s.object m).cursors

theorem SameCursors.refl : SameCursors s s := ⟨rfl, rfl, fun _ ↦ rfl⟩

theorem SameCursors.object? (h : SameCursors s s') (tp : TopicPartition) :
    s'.object? tp = s.object? tp := by
  rw [Store.object?, Store.object?, h.served]

theorem SameCursors.cursorOf (h : SameCursors s s') (tp : TopicPartition) (g : String) :
    s'.cursorOf tp g = s.cursorOf tp g := by
  simp only [Store.cursorOf, Partition.cursor?, h.object?, h.cursors]

/-- What a call is handed for a partition that is resolved, to its own object, or not. -/
def Settles (s : Store) (resolved : Bool) (tp : TopicPartition) (r : Attempt Handle) : Prop :=
  match resolved with
  | true => ∃ m, r = .ok ⟨m, none⟩ ∧ s.object? tp = some m
  | false => ∃ e, r = .error e

/-- Some cursors on existing partitions stand where a pass puts them, and all others where they
stood. -/
structure Moved (saved : TopicPartition → String → Option Position) (s s' : Store) : Prop where
  served : s'.served = s.served
  pending : s'.pending = s.pending
  unserved : ∀ m, (∀ tp, s.object? tp ≠ some m) → (s'.object m).cursors = (s.object m).cursors
  cursors : ∀ tp g, s'.cursorOf tp g = s.cursorOf tp g ∨
    ∃ x, saved tp g = some x ∧ s'.cursorOf tp g = some x

theorem Moved.refl : Moved saved s s := ⟨rfl, rfl, fun _ _ ↦ rfl, fun _ _ ↦ .inl rfl⟩

theorem Moved.object? (h : Moved saved s s') (tp : TopicPartition) :
    s'.object? tp = s.object? tp := by
  rw [Store.object?, Store.object?, h.served]

theorem Moved.same (h : Moved saved s s') (hs : SameCursors s' s'') : Moved saved s s'' where
  served := hs.served.trans h.served
  pending := hs.pending.trans h.pending
  unserved := fun m hm ↦ (hs.cursors m).trans (h.unserved m hm)
  cursors := fun tp g ↦ by
    rw [hs.cursorOf]
    exact h.cursors tp g

/-- A pass moves one cursor on. -/
theorem Moved.write (h : Moved saved s s') (hs : s'.Tidy) (hn : s'.object? tp = some n)
    (hsaved : saved tp g = some x) : Moved saved s (s'.writeCursor ⟨n, none⟩ g x).2 := by
  rw [writeCursor_plain]
  refine ⟨h.served, h.pending, fun m hm ↦ ?_, fun tp' g' ↦ ?_⟩
  · have hne : m ≠ n := by
      rintro rfl
      exact hm tp ((h.object? tp).symm.trans hn)
    rw [object_setObject, if_neg hne]
    exact h.unserved m hm
  · rw [cursorOf_setObject hs hn]
    split
    · rename_i htp
      rw [cursor?_resetCursor]
      split
      · rename_i hg
        exact .inr ⟨x, by rw [htp, hg, hsaved], rfl⟩
      · have hsame : (s'.object n).cursor? g' = s'.cursorOf tp' g' := by
          rw [cursorOf, htp, hn, Option.bind_some]
        rw [hsame]
        exact h.cursors tp' g'
    · exact h.cursors tp' g'

end Store

namespace Bridge

variable {b : Bridge} {order : Itinerary} {now turn : Nat} {c : Call} {s : Persist}

/-- A pass that is handed the partition's own object writes the cursor, and one that is handed a
failure writes nothing. -/
theorem stepCall_persist_of_settles {resolved : Bool} {r : Attempt Handle} (order : Itinerary)
    (hh : b.handed now c = some (.persist turn s, r))
    (hr : b.store.Settles resolved s.target r) :
    (b.stepCall order now c).2 =
        .ofPersist turn (s.answer order b.table b.isSystemGroup resolved) ∧
      ((b.stepCall order now c).1.store = b.store ∨
        resolved = true ∧ ∃ m, b.store.object? s.target = some m ∧
          (b.stepCall order now c).1.store =
            (b.store.writeCursor ⟨m, none⟩ s.key.group s.position).2) := by
  obtain ⟨metrics, hb⟩ := stepCall_of_handed order hh
  rw [hb]
  cases resolved with
  | true =>
      obtain ⟨m, rfl, hm⟩ := hr
      refine ⟨deliver_persist _, .inr ⟨rfl, m, hm, ?_⟩⟩
      rw [store_deliver_persist, store_moveCursor_ok]
  | false =>
      obtain ⟨e, rfl⟩ := hr
      exact ⟨deliver_persist _, .inl (store_deliver_persist ..)⟩

/-- Whoever has waited too long is handed a failure. -/
theorem handed_of_late {p : Purpose} {n deadline : Nat} (h : b.flights.outcome? n = none)
    (hlate : deadline ≤ now) : ∃ e, b.handed now (.waiting p n deadline) = some (p, .error e) := by
  simp only [handed, h, hlate, if_true, receive]
  exact ⟨_, rfl⟩

end Bridge

namespace World

variable {w : World} {ch : Choice} {e : Event} {es es' : List (Choice × Event)} {n : Nat}
variable {resolves : TopicPartition → Bool} {t : OffsetTable} {isSystem : String → Bool}
variable {s₀ : Store}

/-! ## Undisturbed runs -/

/-- An event that does not disturb the persist pass `n`: a step of it, in which it is handed what
`resolves` says if it is handed something, or what leaves alone the pass, the table and all cursors.
-/
inductive Harmless (n : Nat) (resolves : TopicPartition → Bool) (w : World) (ch : Choice) :
    Event → Prop
  | own (settles : ∀ c p r, w.calls[n]? = some c → w.bridge.handed w.now c = some (p, r) →
      w.bridge.store.Settles (resolves p.target) p.target r) :
      Harmless n resolves w ch (.step (.call n))
  | other {e : Event} (other : e ≠ .step (.call n))
      (call : (w.step ch e).calls[n]? = w.calls[n]?)
      (table : (w.step ch e).bridge.table = w.bridge.table)
      (cursors : w.bridge.store.SameCursors (w.step ch e).bridge.store) :
      Harmless n resolves w ch e

/-- A run that does not disturb the persist pass `n`. -/
def Undisturbed (n : Nat) (resolves : TopicPartition → Bool) : World → List (Choice × Event) → Prop
  | _, [] => True
  | w, (ch, e) :: es => Harmless n resolves w ch e ∧ Undisturbed n resolves (w.step ch e) es

theorem Undisturbed.append (h : Undisturbed n resolves w es)
    (h' : Undisturbed n resolves (w.steps es) es') : Undisturbed n resolves w (es ++ es') := by
  induction es generalizing w with
  | nil => exact h'
  | cons e es ih => exact ⟨h.1, ih h.2 h'⟩

/-- How far the pass has come, which goes over the table `t`. -/
inductive Stage (w : World) (n : Nat) (resolves : TopicPartition → Bool) (t : OffsetTable)
    (isSystem : String → Bool) : Prop
  | waits {c : Call} (call : w.calls[n]? = some c) (waits : c.AwaitsTurn)
  | asks {c : Call} {turn : Nat} {s : Persist} (call : w.calls[n]? = some c)
      (pass : c.purpose? = some (.persist turn s)) (reads : s.Reads t isSystem)
      (outlook : Persist.outlook resolves t isSystem (.asks s) =
        Persist.due resolves t isSystem t.keys)
  | done (call : w.calls[n]? =
      some (.answered (.report (Persist.due resolves t isSystem t.keys))))

theorem stage_ofPersist {turn : Nat} {q : Progress Persist PersistReport}
    (hc : w.calls[n]? = some (.ofPersist turn q))
    (hq : Persist.outlook resolves t isSystem q = Persist.due resolves t isSystem t.keys)
    (hreads : ∀ s, q = .asks s → s.Reads t isSystem) : w.Stage n resolves t isSystem := by
  cases q with
  | asks s => exact .asks hc rfl (hreads s rfl) hq
  | done report => exact .done (hq ▸ hc)

/-- The state of an undisturbed pass: it has left the table alone, and moved only cursors that it
had to. -/
structure Exact (w : World) (n : Nat) (resolves : TopicPartition → Bool) (t : OffsetTable)
    (isSystem : String → Bool) (s₀ : Store) : Prop where
  tidy : w.bridge.store.Tidy
  table : w.bridge.table = t
  system : w.bridge.isSystemGroup = isSystem
  stage : w.Stage n resolves t isSystem
  moved : Store.Moved (Persist.savedAt resolves t isSystem) s₀ w.bridge.store

/-- A step of an undisturbed pass. -/
theorem Exact.own (h : w.Exact n resolves t isSystem s₀) (ch : Choice)
    (hsettles : ∀ c p r, w.calls[n]? = some c → w.bridge.handed w.now c = some (p, r) →
      w.bridge.store.Settles (resolves p.target) p.target r) :
    (w.run ch (.call n)).bridge.table = t ∧ (w.run ch (.call n)).Stage n resolves t isSystem ∧
      Store.Moved (Persist.savedAt resolves t isSystem) s₀ (w.run ch (.call n)).bridge.store := by
  obtain ⟨htidy, rfl, rfl, hstage, hmoved⟩ := h
  have hbehaviour : ∀ {failing lookups}, Store.Moved
      (Persist.savedAt resolves w.bridge.table w.bridge.isSystemGroup) s₀
      { w.bridge.store with failing, lookups } :=
    fun {_ _} ↦ hmoved.same ⟨rfl, rfl, fun _ ↦ rfl⟩
  cases hstage with
  | @waits c call waits =>
      rw [bridge_run_call call]
      refine ⟨(Bridge.persists_stepCall w.bridge ch.order w.now (.awaits waits)).2, ?_, ?_⟩
      · rcases w.bridge.stepCall_awaitsTurn ch.order w.now waits with hwaits | ⟨turn, hstart⟩
        · exact .waits (calls_run_call call) hwaits
        · refine stage_ofPersist ((calls_run_call call).trans (congrArg some hstart))
            (Persist.outlook_start ch.order) fun s hs ↦ Persist.advance_reads hs
      · have hidle : c.purpose? = none := by cases waits <;> rfl
        obtain ⟨_, _, _, _, hb⟩ := w.bridge.stepCall_idle_eq ch.order w.now hidle
        rw [hb]
        exact hbehaviour
  | @asks c turn s call pass reads outlook =>
      have htable := (Bridge.persists_stepCall w.bridge ch.order w.now (.asks pass)).2
      cases hh : w.bridge.handed w.now c with
      | none =>
          rw [bridge_run_call call]
          refine ⟨htable, .asks (calls_run_call call)
            (Bridge.stepCall_of_not_handed ch.order pass hh).1 reads outlook, ?_⟩
          obtain ⟨_, _, hs⟩ | ⟨_, _, _, hhanded, -⟩ :=
            w.bridge.store_stepCall_cases ch.order w.now c
          · rw [hs]
            exact hbehaviour
          · cases hh.symm.trans hhanded
      | some pr =>
          obtain ⟨p, r⟩ := pr
          cases (Bridge.purpose?_of_handed hh).symm.trans pass
          obtain ⟨hstep, hstore⟩ :=
            Bridge.stepCall_persist_of_settles ch.order hh (hsettles c _ r call hh)
          rw [bridge_run_call call]
          refine ⟨htable, ?_, ?_⟩
          · refine stage_ofPersist ((calls_run_call call).trans (congrArg some hstep))
              ((Persist.outlook_answer ch.order s).trans outlook) fun s' hs' ↦ ?_
            exact Persist.answer_reads reads hs'
          · rcases hstore with hsame | ⟨hresolved, m, hm, hwritten⟩
            · rw [hsame]
              exact hmoved
            · rw [hwritten]
              exact hmoved.write htidy hm (reads.savedAt_eq hresolved)
  | done call =>
      rw [bridge_run_call call]
      exact ⟨rfl, .done (calls_run_call call), hmoved⟩

theorem Exact.step (h : w.Exact n resolves t isSystem s₀) (he : Harmless n resolves w ch e) :
    (w.step ch e).Exact n resolves t isSystem s₀ := by
  have htidy := (evolves_step w ch e).tidy h.tidy
  have hsystem : (w.step ch e).bridge.isSystemGroup = isSystem :=
    isSystemGroup_step.trans h.system
  cases he with
  | own settles =>
      obtain ⟨htable, hstage, hmoved⟩ := h.own ch settles
      exact ⟨htidy, htable, hsystem, hstage, hmoved⟩
  | other other call table cursors =>
      refine ⟨htidy, table.trans h.table, hsystem, ?_, h.moved.same cursors⟩
      cases h.stage with
      | waits call' waits => exact .waits (call.trans call') waits
      | asks call' pass reads outlook => exact .asks (call.trans call') pass reads outlook
      | done call' => exact .done (call.trans call')

theorem Exact.steps (h : w.Exact n resolves t isSystem s₀) (hes : Undisturbed n resolves w es) :
    (w.steps es).Exact n resolves t isSystem s₀ := by
  induction es generalizing w with
  | nil => exact h
  | cons e es ih => exact ih (h.step hes.1) hes.2

theorem Exact.reply_eq {reply : Reply Handle} (h : w.Exact n resolves t isSystem s₀)
    (hreply : w.reply? n = some reply) :
    reply = .report (Persist.due resolves t isSystem t.keys) := by
  obtain ⟨c, hc, hanswered⟩ := Option.bind_eq_some_iff.mp hreply
  cases h.stage with
  | waits call waits =>
      cases hc.symm.trans call
      cases waits <;> cases hanswered
  | asks call pass reads outlook =>
      cases hc.symm.trans call
      cases c with
      | answered r => cases pass
      | _ => cases hanswered
  | done call =>
      cases hc.symm.trans call
      exact (Option.some.inj hanswered).symm

/-! ## Nothing is left out -/

section

variable {k : GroupTopic} {p : Int32} {o : Offset} {x : Position}

/-- An undisturbed pass is granted what it needs to save an offset on a partition that is resolved.
-/
theorem Exact.grants (h : w.Exact n resolves t isSystem s₀) (hexclusive : w.Exclusive)
    (huser : isSystem k.group = false) (hresolves : resolves ⟨k.topic, p⟩ = true)
    (ho : t.query k p = some o) (hx : Position.decode o = .ok x)
    (he : Harmless n resolves w ch e) : w.Grants (.call n) ch e k p o x := by
  refine ⟨hexclusive, h.tidy, h.system ▸ huser, h.table ▸ ho, ?_, fun hstands _ ↦ ?_⟩
  · rintro rfl c turn s r hc hh rfl rfl
    cases he with
    | own settles =>
        have hsettled := settles c _ r hc hh
        rwa [Purpose.target, Persist.target, hresolves] at hsettled
    | other other call table cursors => exact absurd rfl other
  · -- the step moves the cursor to `x` if it moves it at all
    have hmoved := (Exact.step { h with moved := Store.Moved.refl } he).moved
    rcases hmoved.cursors ⟨k.topic, p⟩ k.group with hsame | ⟨y, hy, hnew⟩
    · rw [hsame, hstands]
    · have hsaved : Persist.savedAt resolves t isSystem ⟨k.topic, p⟩ k.group = some x :=
        Persist.savedAt_eq_some.mpr ⟨huser, hresolves, o, ho, hx⟩
      rw [hnew, ← hy, hsaved]

theorem Exact.saving_steps (h : w.Exact n resolves t isSystem s₀) (hexclusive : w.Exclusive)
    (hn : n < w.nextCall) (huser : isSystem k.group = false)
    (hresolves : resolves ⟨k.topic, p⟩ = true) (ho : t.query k p = some o)
    (hx : Position.decode o = .ok x) (hsaving : w.Saving (.call n) k p o x)
    (hes : Undisturbed n resolves w es) : (w.steps es).Saving (.call n) k p o x := by
  induction es generalizing w with
  | nil => exact hsaving
  | cons e es ih =>
      have hgrants := h.grants hexclusive huser hresolves ho hx hes.1
      exact ih (h.step hes.1) (exclusive_step hexclusive)
        (Nat.lt_of_lt_of_le hn nextCall_le_step)
        (hgrants.saving_step hx hsaving (leaves_call hn e.1 e.2)) hes.2

end

/-- A pass that is about to begin. -/
theorem exact_call (h : w.bridge.store.Tidy) (resolves : TopicPartition → Bool) :
    (w.call .persist).2.Exact w.nextCall resolves w.bridge.table w.bridge.isSystemGroup
      w.bridge.store :=
  ⟨h, rfl, rfl, .waits (calls_call w .persist) .begun, .refl⟩

/-- An undisturbed pass leaves every cursor where it stood, or puts it where the table says. -/
theorem cursorOf_of_undisturbed {reply : Reply Handle} (htidy : w.bridge.store.Tidy)
    (hexclusive : w.Exclusive) (hes : Undisturbed w.nextCall resolves (w.call .persist).2 es)
    (hreply : ((w.call .persist).2.steps es).reply? w.nextCall = some reply)
    (tp : TopicPartition) (g : String) :
    ((w.call .persist).2.steps es).bridge.store.cursorOf tp g =
      (Persist.savedAt resolves w.bridge.table w.bridge.isSystemGroup tp g).or
        (w.bridge.store.cursorOf tp g) := by
  have hexact := exact_call htidy resolves
  cases hsaved : Persist.savedAt resolves w.bridge.table w.bridge.isSystemGroup tp g with
  | none =>
      rcases (hexact.steps hes).moved.cursors tp g with hsame | ⟨x, hx, -⟩
      · exact hsame
      · cases hsaved.symm.trans hx
  | some x =>
      obtain ⟨huser, hresolves, o, ho, hx⟩ := Persist.savedAt_eq_some.mp hsaved
      have hcall : (w.call .persist).2 = w.step .plain (.call .persist) := rfl
      have hsaving : (w.call .persist).2.Saving (.call w.nextCall) ⟨g, tp.topic⟩ tp.partition o x :=
        .waits (calls_call w .persist) .begun
      exact (hexact.saving_steps (hcall ▸ exclusive_step hexclusive) (Nat.lt_succ_self _) huser
        hresolves ho hx hsaving hes).written_of_reply hreply

/-! ## The pass gets done -/

/-- What a pass finds in the cache if nobody disturbs it: the partition's own object, or nothing. -/
def Finds (w : World) (resolved : Bool) (tp : TopicPartition) : Prop :=
  if resolved then ∃ m, w.bridge.store.object? tp = some m ∧ w.bridge.cache.get? tp = some ⟨m, none⟩
  else w.bridge.cache.get? tp = none

/-- A step in which a pass is handed something goes on with it. -/
theorem undisturbed_answer {c : Call} {turn : Nat} {s : Persist} {r : Attempt Handle}
    (hc : w.calls[n]? = some c) (hh : w.bridge.handed w.now c = some (.persist turn s, r))
    (hr : w.bridge.store.Settles (resolves s.target) s.target r) (ch : Choice) :
    Undisturbed n resolves w [(ch, .step (.call n))] ∧
      (w.run ch (.call n)).bridge.cache = w.bridge.cache ∧
      (w.run ch (.call n)).calls[n]? = some (.ofPersist turn
        (s.answer ch.order w.bridge.table w.bridge.isSystemGroup (resolves s.target))) := by
  refine ⟨⟨.own ?_, trivial⟩, ?_, ?_⟩
  · intro c' p r' hc' hh'
    cases hc.symm.trans hc'
    cases hh.symm.trans hh'
    exact hr
  · rw [bridge_run_call hc, Bridge.cache_stepCall]
  · have hstep := (Bridge.stepCall_persist_of_settles ch.order hh hr).1
    exact (calls_run_call hc).trans (congrArg some hstep)

/-- A pass that asks for a partition goes on, at the latest when its wait is over. -/
theorem exists_undisturbed_answer {turn : Nat} {s : Persist} (haboard : w.Aboard)
    (hc : w.calls[n]? = some (.asking (.persist turn s)))
    (hfinds : w.Finds (resolves s.target) s.target) (ch : Choice) :
    ∃ es, (∀ e ∈ es, e.1 = ch) ∧ Undisturbed n resolves w es ∧
      (w.steps es).bridge.cache = w.bridge.cache ∧
      (w.steps es).calls[n]? = some (.ofPersist turn
        (s.answer ch.order w.bridge.table w.bridge.isSystemGroup (resolves s.target))) := by
  rw [Finds] at hfinds
  split at hfinds
  · rename_i hresolved
    obtain ⟨m, hm, hget⟩ := hfinds
    have hh : w.bridge.handed w.now (.asking (.persist turn s)) =
        some (.persist turn s, .ok ⟨m, none⟩) := by
      simp only [Bridge.handed, Purpose.target, hget, Option.map_some]
    have hsettles : w.bridge.store.Settles (resolves s.target) s.target (.ok ⟨m, none⟩) := by
      rw [hresolved]
      exact ⟨m, rfl, hm⟩
    exact ⟨_, by simp, undisturbed_answer hc hh hsettles ch⟩
  · rename_i hresolved
    have hresolved : resolves s.target = false := by simpa using hresolved
    have hh : w.bridge.handed w.now (.asking (.persist turn s)) = none := by
      simp only [Bridge.handed, Purpose.target, hfinds, Option.map_none]
    have hjoins : (w.run ch (.call n)).bridge = (w.bridge.joinFlight s.target).2 := by
      rw [bridge_run_call hc]
      simp only [Bridge.stepCall, Purpose.target, hfinds]
    have hwaits : (w.run ch (.call n)).calls[n]? = some (.waiting (.persist turn s)
        (w.bridge.joinFlight s.target).1 (w.now + w.bridge.settings.callerWait)) := by
      rw [calls_run_call hc]
      simp only [Bridge.stepCall, Purpose.target, hfinds]
      rfl
    -- the resolution that the pass joins is not done before the wait is over
    let late := (w.run ch (.call n)).step ch (.elapse (w.now + w.bridge.settings.callerWait))
    have hlate : late.bridge = (w.bridge.joinFlight s.target).2 := hjoins
    have hruns : late.bridge.flights.outcome? (w.bridge.joinFlight s.target).1 = none := by
      rw [hlate]
      exact (haboard.bridge.sound.join s.target).running
        (haboard.bridge.sound.works_join s.target)
    obtain ⟨e, he⟩ := Bridge.handed_of_late (p := .persist turn s) hruns
      (Nat.le_add_left (w.now + w.bridge.settings.callerWait) (w.run ch (.call n)).now)
    have hfails : late.bridge.store.Settles (resolves s.target) s.target (.error e) := by
      rw [hresolved]
      exact ⟨e, rfl⟩
    obtain ⟨hgoes, hcache, hanswer⟩ := undisturbed_answer (w := late) hwaits he hfails ch
    rw [hlate] at hcache hanswer
    refine ⟨(ch, .step (.call n)) :: (ch, .elapse _) :: [(ch, .step (.call n))], by simp,
      ⟨.own ?_, .other ?_ rfl rfl .refl, hgoes⟩, hcache, hanswer⟩
    · intro c p r hc' hh'
      cases hc.symm.trans hc'
      cases hh.symm.trans hh'
    · simp

/-- A pass that is under way gets done. -/
theorem Exact.exists_reply {turn : Nat} {s : Persist} (h : w.Exact n resolves t isSystem s₀)
    (haboard : w.Aboard) (hc : w.calls[n]? = some (.asking (.persist turn s)))
    (hfinds : ∀ s : Persist, s.Reads t isSystem → w.Finds (resolves s.target) s.target)
    (ch : Choice) : ∃ es reply, (∀ e ∈ es, e.1 = ch) ∧ Undisturbed n resolves w es ∧
      (w.steps es).reply? n = some reply := by
  induction hleft : s.left t using Nat.strongRecOn generalizing w s with
  | ind left ih =>
      subst hleft
      have hreads : s.Reads t isSystem := by
        cases h.stage with
        | waits call waits =>
            cases hc.symm.trans call
            cases waits
        | asks call pass reads outlook =>
            cases hc.symm.trans call
            cases pass
            exact reads
        | done call => cases hc.symm.trans call
      obtain ⟨es, hchoice, hes, hcache, hcall⟩ :=
        exists_undisturbed_answer haboard hc (hfinds s hreads) ch
      rw [h.table, h.system] at hcall
      cases hanswer : s.answer ch.order t isSystem (resolves s.target) with
      | done report =>
          rw [hanswer] at hcall
          exact ⟨es, _, hchoice, hes, by rw [reply?, hcall]; rfl⟩
      | asks s' =>
          rw [hanswer] at hcall
          have hmoved := (Exact.steps { h with moved := Store.Moved.refl } hes).moved
          have hfinds' : ∀ s : Persist, s.Reads t isSystem →
              (w.steps es).Finds (resolves s.target) s.target := by
            intro s hs
            have hfound := hfinds s hs
            rwa [Finds, ← hcache, ← hmoved.object?] at hfound
          obtain ⟨es', reply, hchoice', hes', hreply⟩ := ih _ (Persist.answer_left hanswer)
            (h.steps hes) (aboard_steps haboard es) hcall hfinds' rfl
          refine ⟨es ++ es', reply, fun e he ↦ ?_, hes.append hes', by rw [steps_append, hreply]⟩
          exact (List.mem_append.mp he).elim (hchoice e) (hchoice' e)

/-- A pass that finds the turn free gets done. -/
theorem exists_undisturbed (htidy : w.bridge.store.Tidy) (haboard : w.Aboard)
    (hfree : w.bridge.persistTurn.holder = none)
    (hfinds : ∀ s : Persist, s.Reads w.bridge.table w.bridge.isSystemGroup →
      w.Finds (resolves s.target) s.target) (ch : Choice) :
    ∃ es reply, (∀ e ∈ es, e.1 = ch) ∧ Undisturbed w.nextCall resolves (w.call .persist).2 es ∧
      ((w.call .persist).2.steps es).reply? w.nextCall = some reply := by
  have hbegun := calls_call w .persist
  have hbegins : Undisturbed w.nextCall resolves (w.call .persist).2
      [(ch, .step (.call w.nextCall))] := by
    refine ⟨.own fun c p r hc hh ↦ ?_, trivial⟩
    cases hbegun.symm.trans hc
    cases hh
  have hexact := (exact_call htidy resolves).steps hbegins
  obtain ⟨turn, hstart⟩ :=
    (w.call .persist).2.bridge.stepCall_begun_persist ch.order w.now hfree
  have hcall : ((w.call .persist).2.run ch (.call w.nextCall)).calls[w.nextCall]? =
      some (.ofPersist turn (Persist.start ch.order w.bridge.table w.bridge.isSystemGroup)) :=
    (calls_run_call hbegun).trans (congrArg some hstart)
  cases hq : Persist.start ch.order w.bridge.table w.bridge.isSystemGroup with
  | done report =>
      rw [hq] at hcall
      refine ⟨_, .report report, by simp, hbegins, ?_⟩
      rw [steps_cons, steps_nil, reply?]
      exact (congrArg (·.bind Call.reply?) hcall)
  | asks s =>
      rw [hq] at hcall
      have hcache : ((w.call .persist).2.run ch (.call w.nextCall)).bridge.cache =
          w.bridge.cache := by
        rw [bridge_run_call hbegun, Bridge.cache_stepCall]
        rfl
      have hfinds' : ∀ s : Persist, s.Reads w.bridge.table w.bridge.isSystemGroup →
          ((w.call .persist).2.run ch (.call w.nextCall)).Finds (resolves s.target) s.target := by
        intro s hs
        have hfound := hfinds s hs
        rwa [Finds, ← hcache, ← hexact.moved.object?] at hfound
      have haboard' : ((w.call .persist).2.run ch (.call w.nextCall)).Aboard :=
        aboard_steps haboard [(.plain, .call .persist), (ch, .step (.call w.nextCall))]
      obtain ⟨es, reply, hchoice, hes, hreply⟩ :=
        hexact.exists_reply haboard' hcall hfinds' ch
      refine ⟨(ch, .step (.call w.nextCall)) :: es, reply, ?_, ⟨hbegins.1, hes⟩, hreply⟩
      rintro e (_ | ⟨_, he⟩)
      · rfl
      · exact hchoice e he

/-! ## Exactness -/

/-- A persist pass is exact, and does its best.  Whatever has happened before, and whatever order
entries and partitions are visited in: if each partition is resolved to its own object or not, once
and for all, then the report counts what the table has, the cursors that are written stand at their
offsets, no other cursor of the store is made or moved, and the table stays as it is.  A second pass
changes nothing.  For every way in which partitions are resolved or not there is such a pass. -/
theorem persist_is_exact (now : Nat) (settings : Bridge.Settings) (owner : String)
    (points : CursorPoints) (manualClock : Option Nat) (before : List (Choice × Event))
    (resolves : TopicPartition → Bool) :
    let w := (new now (.new settings (.new owner points) manualClock)).steps before
    let t := w.bridge.table
    let isSystem := w.bridge.isSystemGroup
    (∀ es reply, Undisturbed w.nextCall resolves (w.call .persist).2 es →
      let v := (w.call .persist).2.steps es
      v.reply? w.nextCall = some reply →
      reply = .report {
        persisted := {x : GroupTopic × Int32 | ∃ o, t.query x.1 x.2 = some o ∧
          isSystem x.1.group = false ∧ 0 ≤ o ∧ resolves ⟨x.1.topic, x.2⟩ = true}.ncard
        failed := {x : GroupTopic × Int32 | ∃ o, t.query x.1 x.2 = some o ∧
          isSystem x.1.group = false ∧ ¬ (0 ≤ o ∧ resolves ⟨x.1.topic, x.2⟩ = true)}.ncard
        skippedSystem :=
          {k : GroupTopic | (t.partitions k).isSome ∧ isSystem k.group = true}.ncard } ∧
      v.bridge.table = t ∧
      (∀ g topic p o x, t.query ⟨g, topic⟩ p = some o → isSystem g = false →
        resolves ⟨topic, p⟩ = true → Position.decode o = .ok x →
        v.bridge.store.cursorOf ⟨topic, p⟩ g = some x) ∧
      (∀ g topic p, (¬ ∃ o, t.query ⟨g, topic⟩ p = some o ∧ isSystem g = false ∧ 0 ≤ o ∧
          resolves ⟨topic, p⟩ = true) →
        v.bridge.store.cursorOf ⟨topic, p⟩ g = w.bridge.store.cursorOf ⟨topic, p⟩ g) ∧
      (∀ m, (∀ tp, w.bridge.store.object? tp ≠ some m) →
        (v.bridge.store.object m).cursors = (w.bridge.store.object m).cursors) ∧
      v.bridge.store.served = w.bridge.store.served ∧
      v.bridge.store.pending = w.bridge.store.pending ∧
      ∀ es' reply', Undisturbed v.nextCall resolves (v.call .persist).2 es' →
        ((v.call .persist).2.steps es').reply? v.nextCall = some reply' →
        reply' = reply ∧ ∀ tp g, ((v.call .persist).2.steps es').bridge.store.cursorOf tp g =
          v.bridge.store.cursorOf tp g) ∧
    (w.bridge.persistTurn.holder = none →
      (∀ k p o, t.query k p = some o → isSystem k.group = false → 0 ≤ o →
        w.Finds (resolves ⟨k.topic, p⟩) ⟨k.topic, p⟩) →
      ∀ ch, ∃ es reply, (∀ e ∈ es, e.1 = ch) ∧
        Undisturbed w.nextCall resolves (w.call .persist).2 es ∧
        ((w.call .persist).2.steps es).reply? w.nextCall = some reply) := by
  intro w t isSystem
  have htidy : w.bridge.store.Tidy := tidy_steps (Store.tidy_new owner points) before
  have hexclusive : w.Exclusive := exclusive_steps (exclusive_new now _)
  have haboard : w.Aboard := aboard_steps (aboard_new (Bridge.aboard_new ..) now) before
  refine ⟨fun es reply hes ↦ ?_, fun hfree hfinds ch ↦ ?_⟩
  · intro v hreply
    have hexact : v.Exact w.nextCall resolves t isSystem w.bridge.store :=
      (exact_call htidy resolves).steps hes
    have hcursor : ∀ tp g, v.bridge.store.cursorOf tp g =
        (Persist.savedAt resolves t isSystem tp g).or (w.bridge.store.cursorOf tp g) :=
      cursorOf_of_undisturbed htidy hexclusive hes hreply
    have hreport := hexact.reply_eq hreply
    refine ⟨hreport.trans (congrArg Reply.report (Persist.due_keys ..)), hexact.table,
      fun g topic p o x ho hg hresolves hx ↦ ?_, fun g topic p hnone ↦ ?_,
      hexact.moved.unserved, hexact.moved.served, hexact.moved.pending,
      fun es' reply' hes' hreply' ↦ ?_⟩
    · have hsaved : Persist.savedAt resolves t isSystem ⟨topic, p⟩ g = some x :=
        Persist.savedAt_eq_some.mpr ⟨hg, hresolves, o, ho, hx⟩
      rw [hcursor, hsaved, Option.some_or]
    · have hsaved : Persist.savedAt resolves t isSystem ⟨topic, p⟩ g = none := by
        refine Option.eq_none_iff_forall_ne_some.mpr fun x hx ↦ hnone ?_
        obtain ⟨hg, hresolves, o, ho, hx⟩ := Persist.savedAt_eq_some.mp hx
        exact ⟨o, ho, hg, Position.nonneg_of_decode hx, hresolves⟩
      rw [hcursor, hsaved, Option.none_or]
    · -- the second pass goes over the same table
      have hexact' := (exact_call hexact.tidy resolves).steps hes'
      have hcalled : (w.step .plain (.call .persist)).Exclusive := exclusive_step hexclusive
      have hcursor' :=
        cursorOf_of_undisturbed hexact.tidy (exclusive_steps hcalled) hes' hreply'
      rw [hexact.table, hexact.system] at hexact' hcursor'
      refine ⟨(hexact'.reply_eq hreply').trans hreport.symm, fun tp g ↦ ?_⟩
      rw [hcursor', hcursor, ← Option.or_assoc, Option.or_self]
  · refine exists_undisturbed htidy haboard hfree (fun s hs ↦ ?_) ch
    obtain ⟨o, ho, hx⟩ := hs.asked
    exact hfinds s.key s.partition o ho hs.user (Position.nonneg_of_decode hx)

/-- A bridge with one partition, where two groups of users and one of the system committed. -/
def threeCommits : World :=
  (new 0 (.new ⟨["__"], .standard, 3000⟩ (.new "owner-1" ∅) none)).steps
    [(.plain, .operate (.createPartition ⟨"t", 0⟩)), (.plain, .operate (.register ⟨"t", 0⟩)),
      (.plain, .operate (.commit ⟨"g", "t"⟩ 0 268435461)),
      (.plain, .operate (.commit ⟨"h", "t"⟩ 1 268435461)),
      (.plain, .operate (.commit ⟨"__g", "t"⟩ 0 268435461))]

theorem persist_of_three_commits : ∃ es,
    ((threeCommits.call .persist).2.steps es).reply? 0 = some (.report ⟨1, 1, 1⟩) ∧
    ((threeCommits.call .persist).2.steps es).bridge.store.cursorOf ⟨"t", 0⟩ "g" = some ⟨1, 5⟩ ∧
    ((threeCommits.call .persist).2.steps es).bridge.store.cursorOf ⟨"t", 0⟩ "__g" = none := by
  obtain ⟨hexact, hdone⟩ := persist_is_exact 0 ⟨["__"], .standard, 3000⟩ "owner-1" ∅ none
    [(.plain, .operate (.createPartition ⟨"t", 0⟩)), (.plain, .operate (.register ⟨"t", 0⟩)),
      (.plain, .operate (.commit ⟨"g", "t"⟩ 0 268435461)),
      (.plain, .operate (.commit ⟨"h", "t"⟩ 1 268435461)),
      (.plain, .operate (.commit ⟨"__g", "t"⟩ 0 268435461))] (· == ⟨"t", 0⟩)
  have hfinds : ∀ k p o, threeCommits.bridge.table.query k p = some o →
      threeCommits.bridge.isSystemGroup k.group = false → 0 ≤ o →
      threeCommits.Finds ((⟨k.topic, p⟩ : TopicPartition) == ⟨"t", 0⟩) ⟨k.topic, p⟩ := by
    intro k p o ho huser _
    have htable : threeCommits.bridge.table = (((∅ : OffsetTable).commit ⟨"g", "t"⟩ 0 268435461
      ).commit ⟨"h", "t"⟩ 1 268435461).commit ⟨"__g", "t"⟩ 0 268435461 := rfl
    rw [htable, OffsetTable.query_commit, OffsetTable.query_commit, OffsetTable.query_commit,
      OffsetTable.query_empty] at ho
    split at ho
    · rename_i hk
      obtain ⟨rfl, rfl⟩ := hk
      cases huser
    · split at ho
      · rename_i hk
        obtain ⟨rfl, rfl⟩ := hk
        rfl
      · split at ho
        · rename_i hk
          obtain ⟨rfl, rfl⟩ := hk
          exact ⟨0, rfl, rfl⟩
        · cases ho
  obtain ⟨es, reply, -, hes, hreply⟩ := hdone rfl hfinds .plain
  obtain ⟨hreport, -, hwritten, hkept, -⟩ := hexact es reply hes hreply
  refine ⟨es, ?_, hwritten "g" "t" 0 268435461 ⟨1, 5⟩ (by decide) (by decide) rfl (by decide), ?_⟩
  · have hcounts : Persist.due (· == ⟨"t", 0⟩) threeCommits.bridge.table
        threeCommits.bridge.isSystemGroup threeCommits.bridge.table.keys = ⟨1, 1, 1⟩ := by decide
    rw [Persist.due_keys] at hcounts
    exact hreply.trans (congrArg some (hreport.trans (congrArg Reply.report hcounts)))
  · refine (hkept "__g" "t" 0 ?_).trans (by decide)
    rintro ⟨o, -, hsystem, -⟩
    cases hsystem

end World

end GroupOffsets
