import GroupOffsets.Proofs.Checkpoint.File
import GroupOffsets.Proofs.Standalone
import GroupOffsets.Proofs.Standalone.Closing

/-!
# An idle run of the program

The program loads the checkpoint, comes up, is told to stop as soon as it serves, persists and
writes the checkpoint back.  Whatever was in the checkpoint, and whichever partitions are
configured, the same cursors are in it afterwards.
-/

namespace GroupOffsets

open World (Choice Event Task)

/-! ## Files -/

namespace Files

variable {f f' : Files} {path : String} {content content' : List UInt8}

theorem isDirectory_of_write (h : f.write path content = some f') : f.isDirectory path = false := by
  obtain ⟨p, hplace, hfile, -⟩ := write_eq_some h
  rw [isDirectory, hplace]
  exact hfile

/-- Whether a file can be written has nothing to do with what is written. -/
theorem exists_write (h : f.write path content = some f') (content' : List UInt8) :
    ∃ f'', f.write path content' = some f'' := by
  obtain ⟨p, hplace, hfile, -⟩ := write_eq_some h
  exact ⟨_, by rw [write, hplace, Option.bind_some, if_neg (Bool.eq_false_iff.mp hfile)]⟩

end Files

/-! ## The service -/

namespace Standalone

variable {c : Config} {points : CursorPoints} {ops : List Opening}

/-- The loaded cursors that a pass of an idle service writes again: those of users, on configured
partitions, with a position that has an offset. -/
def rewritten (c : Config) (points : CursorPoints) : CursorPoints :=
  points.filter fun k x ↦
    !(c.general.systemGroups.any fun start ↦ start.toList.isPrefixOf k.group.toList) &&
      c.partitions.contains k.on && x.encode.isOk

/-- The bridge of the program, if its partitions are brought up by some operations. -/
def raised (c : Config) (points : CursorPoints) (ops : List Opening) : Bridge :=
  .comeUp c.settings ("bridge-" ++ Numeral.text c.general.id.toInt) none points ops

/-- The service as it begins. -/
def begun (c : Config) (points : CursorPoints) (ops : List Opening) : World :=
  (World.new 0 (raised c points ops)).step .plain (.serve c.sweepEvery c.persistEvery)

/-- The operations of the program itself: first it creates all partitions. -/
def inOrder (c : Config) : List Opening :=
  c.partitions.map .create ++ c.partitions.map (.register [])

theorem serves_inOrder : Opening.Serves c.partitions (inOrder c) := serves_comeUp

theorem opened_raised : (raised c points ops).Opened points := Bridge.opened_comeUp

theorem prospect_raised (hops : Opening.Serves c.partitions ops) :
    (raised c points ops).prospect = ⟨(rewritten c points).size, 0, 0⟩ := by
  have hgroups : ∀ group, (raised c points ops).isSystemGroup group =
      c.general.systemGroups.any fun start ↦ start.toList.isPrefixOf group.toList :=
    fun group ↦ Bridge.isSystemGroup_comeUp group
  have hknown : ∀ tp, ((raised c points ops).cache.get? tp).isSome = c.partitions.contains tp := by
    intro tp
    rw [Bool.eq_iff_iff, raised, (Bridge.comeUp_serves hops tp).2, List.contains_iff_mem]
  rw [opened_raised.prospect_eq fun _ ↦ Bridge.partitions_comeUp_of_system,
    Bridge.rewrites, rewritten]
  simp only [hgroups, hknown]

theorem idle_begun (hops : Opening.Serves c.partitions ops) :
    (begun c points ops).Idle (raised c points ops) c.sweepEvery where
  bridge :=
    { steady := .refl (Bridge.serving_comeUp hops)
      table := rfl
      system := rfl
      aloft := opened_raised.quiet.2 }
  calls := rfl
  service := ⟨_, rfl, Service.idle_start .., rfl⟩

theorem waiting_begun (hops : Opening.Serves c.partitions ops) (h : 0 < c.sweepEvery) :
    (begun c points ops).Waiting (raised c points ops) c.sweepEvery where
  idle := idle_begun hops
  early := h
  service := by
    have hfree : (raised c points ops).persistTurn.holder = none := by
      obtain ⟨_, _, _, hb⟩ := Bridge.openUp_eq ops
      rw [raised, Bridge.comeUp, hb]
      rfl
    exact ⟨_, rfl, rfl, Service.waits_start _ _ hfree⟩

/-- No valid configuration sweeps all the time. -/
theorem sweepEvery_pos (h : c.validate = .ok ()) : 0 < c.sweepEvery := by
  have hinterval : c.sweeper.interval ≠ 0 := by
    intro hzero
    have hfault : c.fault?.isSome = true := by
      simp only [Config.fault?, hzero, if_true]
      repeat' split
      all_goals rfl
    obtain ⟨fault, hfault⟩ := Option.isSome_iff_exists.mp hfault
    rw [Config.validate, hfault] at h
    cases h
  have hpos : 0 < c.sweeper.interval.toNat := by
    refine Nat.pos_of_ne_zero fun hzero ↦ hinterval ?_
    exact UInt64.toNat_inj.mp hzero
  exact Nat.mul_pos hpos (by decide)

/-- The service has begun to serve, and waits. -/
theorem waiting_settle (hops : Opening.Serves c.partitions ops) (h : 0 < c.sweepEvery)
    (fuel : Nat) :
    ((begun c points ops).settle fuel).Waiting (raised c points ops) c.sweepEvery :=
  World.settle_keeps (fun _ τ hv ↦ World.waiting_run hv opened_raised.mirrors .plain τ)
    (waiting_begun hops h)

/-- A service that waits and is told to stop leaves the cursors where they were loaded. -/
theorem endService_of_waiting {w : World} (hops : Opening.Serves c.partitions ops)
    (h : w.Waiting (raised c points ops) c.sweepEvery) :
    (endService w).1 = [signalled, finalPersist ⟨(rewritten c points).size, 0, 0⟩, complete] ∧
      (endService w).2.bridge.store.points = points := by
  obtain ⟨hclosing, hrests⟩ := World.settle_rests
    (fun _ τ hv hgoes ↦ World.closing_run hv opened_raised.mirrors .plain τ hgoes) h.stop
    h.chores_stop
  have hfinal := hclosing.final_eq hrests
  rw [prospect_raised hops] at hfinal
  refine ⟨?_, hclosing.idle.bridge.points_eq opened_raised⟩
  rw [endService]
  dsimp only
  rw [hfinal]
  rfl

theorem beginService_of_load {file : Option (List UInt8)} (h : Checkpoint.load file = .ok points) :
    ∃ beginning, beginService file c = .ok
      (beginning, (begun c points (inOrder c)).settle (patience (begun c points (inOrder c)))) := by
  have hup : (comeUp c points).2 = raised c points (inOrder c) := comeUp_eq
  rw [beginService, h, begun, ← hup]
  exact ⟨_, rfl⟩

/-- The program fails if the checkpoint cannot be read. -/
theorem service_of_error {files : Files} {e : Failure}
    (hfile : files.isDirectory c.general.checkpointPath = false)
    (hload : Checkpoint.load (files.content? c.general.checkpointPath) = .error e) :
    service files c = .early 1 "" files := by
  have hbegin : beginService (files.content? c.general.checkpointPath) c = .error e := by
    rw [beginService, hload]
    rfl
  rw [service, checkpointFile, hfile, if_neg Bool.false_ne_true, Except.bind, hbegin]

/-- Otherwise it serves, and writes the cursors back that it has loaded. -/
theorem service_of_load {files files' : Files}
    (hfile : files.isDirectory c.general.checkpointPath = false)
    (hload : Checkpoint.load (files.content? c.general.checkpointPath) = .ok points)
    (hwrite : files.write c.general.checkpointPath (Checkpoint.write points) = some files')
    (h : 0 < c.sweepEvery) : ∃ before after, service files c = ⟨0, "", true, files', before ++
      [signalled, finalPersist ⟨(rewritten c points).size, 0, 0⟩, complete] ++ after⟩ := by
  obtain ⟨beginning, hbegin⟩ := beginService_of_load (c := c) hload
  have hwaits : ((begun c points (inOrder c)).settle _).Waiting _ _ :=
    waiting_settle serves_inOrder h (patience (begun c points (inOrder c)))
  obtain ⟨hlog, hpoints⟩ := endService_of_waiting serves_inOrder hwaits
  generalize (begun c points (inOrder c)).settle _ = w at hbegin hlog hpoints
  refine ⟨beginning, (Checkpoint.skipped points).map skipped ++ [flushed], ?_⟩
  have hback : writeBack files c (endService w).2 =
      some ((Checkpoint.skipped points).map skipped ++ [flushed], files') := by
    rw [writeBack, hpoints, hwrite]
    rfl
  rw [service, checkpointFile, hfile, if_neg Bool.false_ne_true, Except.bind, hbegin]
  dsimp only
  rw [hback, hlog]
  rfl

/-- **An idle run changes no cursor.**  With any valid configuration, and whatever is in the
checkpoint file, if only that can be written: a file that is no checkpoint makes the program fail,
and stays as it is.  Otherwise the program succeeds, and its file has the cursors that were loaded
(none, if there was no file), but for those on a topic without a name, which no line can hold.  It
would have them in whichever other order the lines were written.  And the last persist pass has
failed nowhere and has written all cursors of users on configured partitions whose position has an
offset.  In the service itself no cursor ever moves, in whichever order the partitions and their
cursors are brought up and however its loops go on until it sweeps, and every pass that ends it has
that report. -/
theorem idle_run_keeps_cursors (c : Config) (hvalid : c.validate = .ok ()) (files : Files)
    (bytes : List UInt8) (hwritable : (files.write c.general.checkpointPath bytes).isSome) :
    let path := c.general.checkpointPath
    let outcome := service files c
    (∀ e, Checkpoint.load (files.content? path) = .error e →
      outcome.exit = 1 ∧ outcome.files = files) ∧
    (files.content? path = none → Checkpoint.load (files.content? path) = .ok ∅) ∧
    ∀ points, Checkpoint.load (files.content? path) = .ok points →
      outcome.exit = 0 ∧ outcome.served = true ∧
      Checkpoint.load (outcome.files.content? path) =
        .ok (points.filter fun k _ ↦ k.on.topic != "") ∧
      (∃ bytes, Checkpoint.Written points bytes ∧ files.write path bytes = some outcome.files) ∧
      (∀ bytes files', Checkpoint.Written points bytes → files.write path bytes = some files' →
        Checkpoint.load (files'.content? path) =
          .ok (points.filter fun k _ ↦ k.on.topic != "")) ∧
      (∃ before after, outcome.log = before ++
        [signalled, finalPersist ⟨(rewritten c points).size, 0, 0⟩, complete] ++ after) ∧
      ∀ ops, Opening.Serves c.partitions ops →
        ∀ es : List (Choice × Event), (∀ e ∈ es, e.2.isIdle) → World.elapsed es < c.sweepEvery →
        let w := (begun c points ops).steps es
        w.bridge.store.points = points ∧
          ∀ report, w.service.bind (·.final) = some report →
            report = ⟨(rewritten c points).size, 0, 0⟩ := by
  intro path outcome
  obtain ⟨files', hwrite⟩ := Option.isSome_iff_exists.mp hwritable
  have hfile := Files.isDirectory_of_write hwrite
  have hevery := sweepEvery_pos hvalid
  refine ⟨fun e hload ↦ ?_, fun hnone ↦ hnone ▸ rfl, fun points hload ↦ ?_⟩
  · have houtcome : outcome = .early 1 "" files := service_of_error hfile hload
    exact ⟨congrArg Outcome.exit houtcome, congrArg Outcome.files houtcome⟩
  · obtain ⟨files'', hwrite'⟩ := Files.exists_write hwrite (Checkpoint.write points)
    obtain ⟨before, after, hservice⟩ := service_of_load hfile hload hwrite' hevery
    have houtcome : outcome = _ := hservice
    rw [houtcome]
    have hback : ∀ bytes files', Checkpoint.Written points bytes →
        files.write path bytes = some files' → Checkpoint.load (files'.content? path) =
          .ok (points.filter fun k _ ↦ k.on.topic != "") := by
      intro bytes files' hwritten hwrite
      rw [(Files.content?_write hwrite).2]
      exact (Checkpoint.read_written (Checkpoint.nonneg_of_load hload) hwritten).trans
        (congrArg _ (Checkpoint.filter_fits_of_load hload))
    refine ⟨rfl, rfl, ?_, ⟨_, Checkpoint.written_write points, hwrite'⟩, hback,
      ⟨before, after, rfl⟩, fun ops hops es hes helapsed ↦ ?_⟩
    · exact hback _ _ (Checkpoint.written_write points) hwrite'
    · intro w
      have hearly : w.now < c.sweepEvery := by
        rw [World.now_steps]
        exact (Nat.zero_add _).symm ▸ helapsed
      have hidle : w.Idle (raised c points ops) c.sweepEvery :=
        World.idle_steps (idle_begun hops) opened_raised.mirrors hes hearly
      refine ⟨hidle.bridge.points_eq opened_raised, fun report hreport ↦ ?_⟩
      obtain ⟨s, hs, hservice, -⟩ := hidle.service
      rw [hs, Option.bind_some] at hreport
      rw [← prospect_raised hops]
      exact hservice.final report hreport

/-- A configuration that names its only topic twice. -/
def oneTopic : Config where
  general := { checkpointPath := "cursors" }
  topics := [⟨"t", 1⟩, ⟨"t", 1⟩]

/-- A checkpoint with a cursor that is written again, one without an offset, one on a partition that
is not configured, one of a group of the system, and one on a topic without a name. -/
def fiveCursors : List UInt8 :=
  Utf8.encode "1\ng t-0 1:3\nh t-0 1:-1\ng u-0 2:0\npublic/default t-0 1:1\ng -0 1:1\n".toList

/-- The cursors of that checkpoint. -/
def loadedCursors : CursorPoints :=
  (∅ : CursorPoints).insertMany [(⟨"g", "t", 0⟩, ⟨1, 3⟩), (⟨"h", "t", 0⟩, ⟨1, -1⟩),
    (⟨"g", "u", 0⟩, ⟨2, 0⟩), (⟨"public/default", "t", 0⟩, ⟨1, 1⟩), (⟨"g", "", 0⟩, ⟨1, 1⟩)]

theorem load_fiveCursors : Checkpoint.load
    ((Files.ofList [("cursors", fiveCursors)]).content? "cursors") = .ok loadedCursors := rfl

theorem size_rewritten : (rewritten oneTopic loadedCursors).size = 1 := by decide +kernel

/-- The service is told to stop before its loops have begun. -/
def stopsEarly : List (Choice × Event) :=
  (.plain, .stop) :: List.replicate 4 (.plain, .step .persister)

theorem one_of_five_cursors_rewritten :
    let outcome := service (Files.ofList [("cursors", fiveCursors)]) oneTopic
    outcome.exit = 0 ∧ Checkpoint.load (outcome.files.content? "cursors") =
      .ok (loadedCursors.filter fun k _ ↦ k.on.topic != "") ∧
    finalPersist ⟨1, 0, 0⟩ ∈ outcome.log ∧
    ((begun oneTopic loadedCursors (inOrder oneTopic)).steps stopsEarly).bridge.store.points =
      loadedCursors := by
  intro outcome
  obtain ⟨-, -, hruns⟩ := idle_run_keeps_cursors oneTopic rfl
    (Files.ofList [("cursors", fiveCursors)]) [] rfl
  obtain ⟨hexit, -, hback, -, -, ⟨before, after, hlog⟩, hkeeps⟩ := hruns _ load_fiveCursors
  have hline : finalPersist ⟨1, 0, 0⟩ ∈ outcome.log := by
    rw [← size_rewritten]
    simp [outcome, hlog]
  exact ⟨hexit, hback, hline, (hkeeps _ serves_inOrder stopsEarly (by decide) (by decide)).1⟩

end Standalone

end GroupOffsets
