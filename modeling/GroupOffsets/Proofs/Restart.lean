import GroupOffsets.Bridge.Operation
import GroupOffsets.Proofs.Checkpoint
import GroupOffsets.Proofs.Opening
import GroupOffsets.Proofs.Persist.Progress
import GroupOffsets.Proofs.Position

/-!
# Restarts

What a last persist pass has written survives a restart.  The offset in the table becomes a
position, the position a cursor, the cursor a line of the checkpoint; the line becomes a cursor that
waits for its partition, and the registration of the partition makes it an offset again.
-/

namespace GroupOffsets

open World (Choice Event Task)

namespace Bridge

variable {b : Bridge} {points : CursorPoints} {served : List TopicPartition} {ops : List Opening}

/-- A bridge that came up over the cursors of a checkpoint. -/
def comeUp (settings : Settings) (owner : String) (clock : Option Nat) (points : CursorPoints)
    (ops : List Opening) : Bridge :=
  (new settings (.new owner points) clock).openUp ops

/-! ## Coming up is done by operations -/

theorem opening_create (tp : TopicPartition) :
    b.opening (.create tp) = (b.operate (.createPartition tp)).2 := rfl

theorem opening_register (tp : TopicPartition) :
    b.opening (.register [] tp) = (b.operate (.register tp)).2 := by
  rw [opening, operate]
  cases b.store.object? tp <;> rfl

/-! ## What a bridge that came up is like -/

variable {settings : Settings} {owner : String} {clock : Option Nat}

theorem opened_comeUp : (comeUp settings owner clock points ops).Opened points :=
  opened_openUp (opened_new settings owner points clock) ops

theorem comeUp_serves (hops : Opening.Serves served ops) (tp : TopicPartition) :
    (((comeUp settings owner clock points ops).store.object? tp).isSome ↔ tp ∈ served) ∧
      (((comeUp settings owner clock points ops).cache.get? tp).isSome ↔ tp ∈ served) :=
  (opened_new settings owner points clock).serves (fun tp ↦ by simp [new, Store.new, Store.object?])
    hops tp

theorem serving_comeUp (hops : Opening.Serves served ops) :
    (comeUp settings owner clock points ops).Serving where
  tidy := opened_comeUp.tidy
  cached := by
    intro tp h
    refine ⟨opened_comeUp.cached, ?_⟩
    rintro ⟨n, hn, rfl⟩
    obtain ⟨hobject, hcache⟩ := comeUp_serves hops tp
    have hserved : tp ∈ served := hobject.mp (Option.isSome_of_eq_some hn)
    obtain ⟨h, hget⟩ := Option.isSome_iff_exists.mp (hcache.mpr hserved)
    obtain ⟨m, hm, rfl⟩ := opened_comeUp.cached hget
    cases hn.symm.trans hm
    exact hget
  aloft := by
    intro n f hf
    rw [opened_comeUp.quiet.2] at hf
    simp at hf
  landed := by
    intro n h hout
    rw [opened_comeUp.quiet.1] at hout
    have hempty : (∅ : Flights TopicPartition Resolution).outcomes = ∅ := rfl
    simp [Flights.outcome?, hempty] at hout

/-- A bridge that came up has the offset of the cursor that was loaded. -/
theorem query_comeUp {k : GroupTopic} {p : Int32} (hops : Opening.Serves served ops)
    (hserved : ⟨k.topic, p⟩ ∈ served)
    (huser : (comeUp settings owner clock points ops).isSystemGroup k.group = false) :
    (comeUp settings owner clock points ops).table.query k p =
      (points[(⟨k.group, ⟨k.topic, p⟩⟩ : CursorKey)]?).bind fun x ↦ x.encode.toOption := by
  have hcached : ((comeUp settings owner clock points ops).cache.get? ⟨k.topic, p⟩).isSome :=
    (comeUp_serves hops _).2.mpr hserved
  rw [opened_comeUp.seeded, hcached, huser]
  rfl

theorem partitions_comeUp_of_system {k : GroupTopic}
    (hk : (comeUp settings owner clock points ops).isSystemGroup k.group = true) :
    (comeUp settings owner clock points ops).table.partitions k = none := by
  have hnew : (new settings (.new owner points) clock).isSystemGroup k.group = true := by
    rwa [comeUp, isSystemGroup, settings_openUp] at hk
  exact (partitions_openUp_of_system hnew ops).trans rfl

/-- Only the groups that its settings name belong to the system. -/
theorem isSystemGroup_comeUp (group : String) :
    (comeUp settings owner clock points ops).isSystemGroup group =
      settings.systemGroups.any fun start ↦ start.toList.isPrefixOf group.toList := by
  rw [isSystemGroup, comeUp, settings_openUp]
  rfl

/-- Every cursor of a bridge that goes on serving is on a partition whose number is not negative,
if those that it serves and those that it loaded are. -/
theorem nonneg_of_points {s : Store} {k : CursorKey} (hops : Opening.Serves served ops)
    (hserved : ∀ tp ∈ served, 0 ≤ tp.partition) (hpoints : ∀ k ∈ points, 0 ≤ k.on.partition)
    (hs : (comeUp settings owner clock points ops).store.SamePartitions s) (hk : k ∈ s.points) :
    0 ≤ k.on.partition := by
  obtain ⟨x, hx⟩ := Option.isSome_iff_exists.mp (Std.ExtTreeMap.mem_iff_isSome_getElem?.mp hk)
  rw [Store.getElem?_points, Option.or_eq_some_iff] at hx
  rcases hx with hcursor | ⟨-, hpending⟩
  · obtain ⟨n, hn, -⟩ := Option.bind_eq_some_iff.mp hcursor
    rw [hs.objects] at hn
    exact hserved _ ((comeUp_serves hops _).1.mp (Option.isSome_of_eq_some hn))
  · rw [hs.pending, opened_comeUp.pending] at hpending
    split at hpending
    · cases hpending
    · have hsome := Option.isSome_of_eq_some hpending
      exact hpoints _ (Std.ExtTreeMap.mem_iff_isSome_getElem?.mpr hsome)

end Bridge

/-! ## Over a restart -/

namespace World

variable {k : GroupTopic} {p : Int32} {o : Offset}

/-- One more persist pass of a world, with all that happens until it is done.  The table holds an
offset throughout, and the partitions are left alone. -/
structure LastPass (w : World) (k : GroupTopic) (p : Int32) (o : Offset)
    (es : List (Choice × Event)) : Prop where
  spares : ∀ e ∈ es, e.2.sparesPartitions
  holds : ∀ done rest, es = done ++ rest →
    ((w.call .persist).2.steps done).bridge.table.query k p = some o
  done : ∃ report, ((w.call .persist).2.steps es).reply? w.nextCall = some (.report report)

/-- When nobody is in the way, there is such a pass. -/
theorem exists_lastPass {w : World} (hfree : w.bridge.persistTurn.holder = none)
    (ho : w.bridge.table.query k p = some o) : ∃ es, w.LastPass k p o es := by
  obtain ⟨es, report, halone, hreply, htable⟩ := w.persist_gets_done hfree
  refine ⟨es, fun e he ↦ ?_, fun done rest heq ↦ ?_, report, hreply⟩
  · rcases halone e he with h | ⟨ms, h⟩ <;> rw [h]
    all_goals rfl
  · rw [htable done rest heq, ho]

/-- **Durability.**  A service comes up over a checkpoint with the partitions that it serves, and
does whatever it does.  The table holds an offset of a user's group all through one more persist
pass, which gets done unless another one is in the way.  Then the checkpoint that is written after
the pass can be read, in whichever order its lines were written, and whoever comes up over it with
the same partitions has that offset. -/
theorem restart_keeps_offset {settings settings' : Bridge.Settings}
    (hgroups : settings'.systemGroups = settings.systemGroups)
    {served : List TopicPartition} (hserved : ∀ tp ∈ served, 0 ≤ tp.partition)
    {file : Option (List UInt8)} {points : CursorPoints} (hload : Checkpoint.load file = .ok points)
    {ops : List Opening} (hops : Opening.Serves served ops) {owner : String} {clock : Option Nat}
    {now : Nat} {history : List (Choice × Event)}
    (hhistory : ∀ e ∈ history, e.2.sparesPartitions) {w : World}
    (hw : w = (new now (Bridge.comeUp settings owner clock points ops)).steps history)
    (hk : ⟨k.topic, p⟩ ∈ served) (huser : w.bridge.isSystemGroup k.group = false)
    (hgroup : Checkpoint.isWritable k.group) (htopic : Checkpoint.isWritable k.topic)
    (ho : 0 ≤ o) :
    (w.bridge.persistTurn.holder = none → w.bridge.table.query k p = some o →
      ∃ last, w.LastPass k p o last) ∧
    ∀ last, w.LastPass k p o last →
      let cursors := ((w.call .persist).2.steps last).bridge.store.points
      Checkpoint.Written cursors (Checkpoint.write cursors) ∧
      ∀ bytes, Checkpoint.Written cursors bytes →
        ∃ points', Checkpoint.load (some bytes) = .ok points' ∧
        ∀ owner' clock' ops', Opening.Serves served ops' →
          (Bridge.comeUp settings' owner' clock' points' ops').table.query k p = some o := by
  refine ⟨exists_lastPass, fun last ⟨hlast, hheld, report, hdone⟩ ↦ ?_⟩
  obtain ⟨x, hx⟩ : ∃ x, Position.decode o = .ok x := ⟨_, Position.decode_of_nonneg ho⟩
  -- The service serves all along, and what it serves never changes.
  have hup : (new now (Bridge.comeUp settings owner clock points ops)).Serving :=
    serving_new (Bridge.serving_comeUp hops) now
  obtain ⟨hserving, hsame⟩ := hw ▸ serving_steps hup hhistory
  have hexclusive : w.Exclusive := hw ▸ exclusive_steps (exclusive_new now _)
  have hobject : (w.bridge.store.object? ⟨k.topic, p⟩).isSome := by
    rw [hsame.objects]
    exact (Bridge.comeUp_serves hops _).1.mpr hk
  -- So the pass moves the cursor to the offset.
  have hcursor := persist_writes hserving hexclusive hobject huser hx hlast hheld hdone
  have hsame' : (Bridge.comeUp settings owner clock points ops).store.SamePartitions
      ((w.call .persist).2.steps last).bridge.store := by
    have hbegun : (w.step .plain (.call .persist)).Serving := (serving_step hserving .plain rfl).1
    exact hsame.trans (serving_steps hbegun hlast).2
  generalize ((w.call .persist).2.steps last).bridge.store = s at hcursor hsame' ⊢
  refine ⟨Checkpoint.written_write _, fun bytes hbytes ↦ ?_⟩
  -- The checkpoint can be read, and has the cursor.
  have hpartition : ∀ key ∈ s.points, 0 ≤ key.on.partition := fun key hkey ↦
    Bridge.nonneg_of_points hops hserved (Checkpoint.nonneg_of_load hload) hsame' hkey
  refine ⟨_, Checkpoint.read_written hpartition hbytes, fun owner' clock' ops' hops' ↦ ?_⟩
  have hpoint : (s.points.filter fun key _ ↦ Checkpoint.fits key)[
      (⟨k.group, ⟨k.topic, p⟩⟩ : CursorKey)]? = some x := by
    have hfits : Checkpoint.fits ⟨k.group, ⟨k.topic, p⟩⟩ = true :=
      Checkpoint.fits_iff.mpr ⟨hgroup, htopic⟩
    rw [Std.ExtTreeMap.getElem?_filter', Store.getElem?_points, hcursor]
    simp [hfits]
  have huser'' : (Bridge.comeUp settings' owner' clock'
      (s.points.filter fun key _ ↦ Checkpoint.fits key) ops').isSystemGroup k.group = false := by
    rw [Bridge.isSystemGroup, hw, settings_steps] at huser
    rw [Bridge.isSystemGroup_comeUp, hgroups, ← Bridge.isSystemGroup_comeUp]
    exact huser
  rw [Bridge.query_comeUp hops' hk huser'', hpoint, Option.bind_some, Position.encode_of_decode hx]
  rfl

/-- A checkpoint with one cursor. -/
def oneCursor : List UInt8 :=
  Utf8.encode ['1', '\n', 'g', ' ', 't', '-', '0', ' ', '1', ':', '3', '\n']

/-- A service that has come up over the checkpoint, where the group then commits an offset. -/
def caughtUp : World :=
  (new 0 (.comeUp ⟨["__"], .standard, 3000⟩ "owner-1" none
    ((∅ : CursorPoints).insert ⟨"g", "t", 0⟩ ⟨1, 3⟩)
    [.create ⟨"t", 0⟩, .register [] ⟨"t", 0⟩])).steps
      [(.plain, .operate (.commit ⟨"g", "t"⟩ 0 268435461))]

/-- A persist pass of one cursor. -/
def persistsOnce : List (Choice × Event) :=
  [(.plain, .step (.call 0)), (.plain, .step (.call 0))]

theorem restart_after_commit : ∃ points', Checkpoint.load (some (Checkpoint.write
      ((caughtUp.call .persist).2.steps persistsOnce).bridge.store.points)) = .ok points' ∧
    (Bridge.comeUp ⟨["__"], .standard, 3000⟩ "owner-2" none points'
      [.create ⟨"t", 0⟩, .register [1] ⟨"t", 0⟩]).table.query ⟨"g", "t"⟩ 0 = some 268435461 := by
  have hload : Checkpoint.load (some oneCursor) =
      .ok ((∅ : CursorPoints).insert ⟨"g", "t", 0⟩ ⟨1, 3⟩) := by rfl
  have hserves : ∀ order,
      Opening.Serves [⟨"t", 0⟩] [.create ⟨"t", 0⟩, .register order ⟨"t", 0⟩] := by
    refine fun order ↦ ⟨by simp [Opening.target], fun tp htp ↦ ?_⟩
    cases List.mem_singleton.mp htp
    exact ⟨[.create ⟨"t", 0⟩], order, [], rfl, List.mem_singleton_self _⟩
  have hlast : caughtUp.LastPass ⟨"g", "t"⟩ 0 268435461 persistsOnce := by
    refine ⟨by decide, ?_, ⟨1, 0, 0⟩, by rfl⟩
    rintro (_ | ⟨e₁, _ | ⟨e₂, _ | ⟨e₃, done⟩⟩⟩) rest h <;> cases h <;> decide
  obtain ⟨hwritten, hback⟩ := (restart_keeps_offset (w := caughtUp) rfl (by decide) hload
    (hserves []) (by decide) rfl (by decide) (by decide) (by decide) (by decide) (by decide)).2
    persistsOnce hlast
  obtain ⟨points', hpoints, hquery⟩ := hback _ hwritten
  exact ⟨points', hpoints, hquery _ _ _ (hserves [1])⟩

end World

end GroupOffsets
