import GroupOffsets.Checkpoint
import GroupOffsets.Config
import GroupOffsets.World

/-!
# Simulation

A bridge driven from outside, one action after the other, in virtual time.  After each action every
task runs until it has to wait, and time passes only when nothing else can happen: it jumps to the
moment at which some task goes on.

Actions can start at one moment, and can be spawned as tasks of their own; the observer waits for
the action that was given, and an action can wait for a task that was spawned.

A restart builds a new world from the configuration and the checkpoint file.  The old one stays,
with the tasks that run in it and with its service, and an observer tells handles apart over all of
them by the order in which they were first answered.
-/

namespace GroupOffsets

/-- What can be done to a simulated bridge. -/
inductive Action where
  | operate (op : Operation)
  | call (r : Request)
  /-- Shows the partition of a handle that was answered before. -/
  | inspect (n : Nat)
  /-- Keeps a snapshot of the table aside. -/
  | save
  /-- Restores the snapshot that was kept. -/
  | load
  /-- Writes the checkpoint file and shows it. -/
  | flush
  | restart
  | time
  | metrics
  /-- Puts the bridge into service. -/
  | serve
  /-- Tells the service that was started last to stop, and waits until it has. -/
  | stop
  /-- Spawns an action as a task with a name. -/
  | spawn (name : String) (a : Action)
  /-- Looks at a task. -/
  | peek (name : String)
  /-- Waits for a task to end. -/
  | join (name : String)
  /-- Gives up a task. -/
  | cancel (name : String)
  /-- Starts actions at one moment, and waits for all of them. -/
  | together (as : List Action)

/-- What an observer gets to see of an action. -/
inductive Answer where
  | reply (r : Reply Nat)
  | all (as : List Answer)
  /-- The task has not ended. -/
  | pending
  /-- What the task has answered. -/
  | result (a : Answer)
  /-- There is no task with the name. -/
  | unknown

/-- The answer that says nothing. -/
def Answer.nothing : Answer := .reply .nothing

/-- An action that goes on. -/
inductive Activity where
  /-- It has not run yet. -/
  | begun (a : Action)
  /-- It waits for a call in a world. -/
  | calling (epoch call : Nat)
  /-- It waits for a task that was spawned. -/
  | joining (task : Nat)
  /-- It waits for the service of a world to end. -/
  | stopping (epoch : Nat)
  | together (xs : List Activity)
  | ended (a : Answer)
  | givenUp

structure Simulation where
  config : Config
  /-- Whether the retry schedules have a clock of their own, moved by hand. -/
  manualClock : Bool
  /-- Whether the store has a checkpoint file. -/
  hasCheckpoint : Bool
  /-- The checkpoint file, if it is there. -/
  file : Option (List UInt8)
  /-- The time, in milliseconds. -/
  now : Nat
  /-- The worlds that restarts have left behind, the current one last. -/
  worlds : Array World
  /-- The world whose service was started last, unless it was told to stop. -/
  serving : Option Nat
  /-- The tasks that were spawned, by number. -/
  spawned : Array Activity
  /-- The tasks that have a name. -/
  names : List (String × Nat)
  /-- The handles answered so far, by number, each with its world. -/
  shown : Array (Nat × Handle)
  saved : Snapshot

namespace Simulation

open World (patience)

/-- The name of the node that serves the partitions. -/
def owner : String := "owner-1"

/-- A new world over the checkpoint file. -/
def boot (config : Config) (manualClock : Bool) (file : Option (List UInt8)) (now : Nat) :
    Attempt World :=
  (Checkpoint.load file).map fun points =>
    .new now (.new config.settings (.new owner points) (if manualClock then some 0 else none))

/-- A simulation of a new bridge, with a checkpoint file that may not be there yet, or without
one. -/
def start (config : Config) (manualClock : Bool) (checkpoint : Option (Option (List UInt8))) :
    Attempt Simulation :=
  (boot config manualClock (checkpoint.getD none) 0).map fun w =>
    { config, manualClock, hasCheckpoint := checkpoint.isSome, file := checkpoint.getD none
      now := 0, worlds := #[w], serving := none, spawned := #[], names := [], shown := #[]
      saved := ∅ }

variable (s : Simulation)

/-- The number of the current world. -/
def epoch : Nat := s.worlds.size - 1

def onWorld (i : Nat) (f : World → World) : Simulation := { s with worlds := s.worlds.modify i f }

/-- Looks at a world. -/
def atWorld {α : Type} (i : Nat) (standard : α) (f : World → α) : α :=
  ((s.worlds[i]?).map f).getD standard

/-- The next moment at which some task goes on. -/
def nextTimer : Option Nat :=
  (s.worlds.toList.flatMap fun w => w.tasks.filterMap w.timer).min?

/-- Time passes, up to a moment. -/
def elapse (upTo : Nat) : Simulation :=
  { s with now := upTo, worlds := s.worlds.map fun w => w.step .plain (.elapse (upTo - w.now)) }

/-- Runs a task of a world until it has to wait. -/
def exhaust : (fuel i : Nat) → World.Task → Simulation → Simulation
  | 0, _, _, s => s
  | fuel + 1, i, t, s =>
    if s.atWorld i true (·.isBlocked t) then s else exhaust fuel i t (s.onWorld i (·.run .plain t))

/-! ## Answers -/

/-- The number of a handle of a world; a new one if it was not answered before. -/
def number (i : Nat) (h : Handle) : Nat × Simulation :=
  match s.shown.findIdx? (· == (i, h)) with
  | some n => (n, s)
  | none => (s.shown.size, { s with shown := s.shown.push (i, h) })

/-- A reply as the observer sees it. -/
def display (i : Nat) : Reply Handle → Reply Nat × Simulation
  | .handle (some h) =>
    let (n, s) := s.number i h
    (.handle (some n), s)
  | .handle none => (.handle none, s)
  | .nothing => (.nothing, s)
  | .flag yes => (.flag yes, s)
  | .count n => (.count n, s)
  | .offset o => (.offset o, s)
  | .offsets m => (.offsets m, s)
  | .names xs => (.names xs, s)
  | .keys ks => (.keys ks, s)
  | .snapshot t => (.snapshot t, s)
  | .position p => (.position p, s)
  | .range first last => (.range first last, s)
  | .cursor group position => (.cursor group position, s)
  | .cursors cs => (.cursors cs, s)
  | .partitions ps => (.partitions ps, s)
  | .report r => (.report r, s)
  | .text t => (.text t, s)
  | .metrics m => (.metrics m, s)
  | .loaded name first last cs => (.loaded name first last cs, s)
  | .file lines => (.file lines, s)
  | .failed e => (.failed e, s)
  | .noPartition => (.noPartition, s)

/-- Puts an operation through in a world. -/
def operate (i : Nat) (op : Operation) : Reply Nat × Simulation :=
  match s.worlds[i]? with
  | none => (.nothing, s)
  | some w =>
    let (reply, w) := w.operate op
    (s.onWorld i fun _ => w).display i reply

/-- The answer to a call, if there is one. -/
def reply (i n : Nat) : Option (Reply Handle) := s.atWorld i none (·.reply? n)

/-- Whether no service runs in a world. -/
def isIdle (i : Nat) : Bool := s.atWorld i true fun w => (w.service.map Service.isOver).getD true

/-! ## Actions -/

/-- Builds everything anew. -/
def restart : Reply Nat × Simulation :=
  match boot s.config s.manualClock s.file s.now with
  | .error e => (.failed e, s)
  | .ok w => (.nothing, { s with worlds := s.worlds.push w })

/-- Writes the checkpoint file, if the store has one, and shows it. -/
def flush : Reply Nat × Simulation :=
  let s := if s.hasCheckpoint then
    let file := s.atWorld s.epoch s.file fun w => some (Checkpoint.write w.bridge.store.points)
    { s with file }
    else s
  (.file (s.file.bind Checkpoint.listing), s)

/-- The counters of all worlds together. -/
def metrics : Metrics := s.worlds.foldl (fun m w => m.add w.bridge.metrics) ∅

/-- The name is no longer that of a task. -/
def forget (name : String) : Simulation := { s with names := s.names.filter (·.1 != name) }

/-- Puts the current world into service.  A service that was started before is told to stop. -/
def serve : Simulation :=
  let s := match s.serving with
    | none => s
    | some i =>
      s.onWorld i fun w =>
        let w := w.step .plain .stop
        if i = s.epoch then w.settle patience else w
  let start : World.Event := .serve s.config.sweepEvery s.config.persistEvery
  { s.onWorld s.epoch (·.step .plain start) with serving := some s.epoch }

/-- Spawns a task, which runs later. -/
def spawn (name : String) (a : Action) : Simulation :=
  { s with
    spawned := s.spawned.push (.begun a)
    names := (name, s.spawned.size) :: (s.forget name).names }

/-- The answer of a task, once it has ended. -/
def answer? (task : Nat) : Option Answer :=
  match s.spawned[task]? with
  | some (.ended a) => some a
  | _ => none

/-- Looks at a task; one that has ended is forgotten. -/
def peek (name : String) : Answer × Simulation :=
  match s.names.lookup name with
  | none => (.unknown, s)
  | some task =>
    match s.answer? task with
    | none => (.pending, s)
    | some a => (.result a, s.forget name)

mutual

/-- Gives up what an activity waits for. -/
def abandon : Activity → Simulation → Simulation
  | .calling i n, s => s.onWorld i (·.cancel n)
  | .together xs, s => abandonAll xs s
  | .begun _, s | .joining _, s | .stopping _, s | .ended _, s | .givenUp, s => s

def abandonAll : List Activity → Simulation → Simulation
  | [], s => s
  | x :: xs, s => abandonAll xs (abandon x s)

end

/-- Gives up a task, which is forgotten. -/
def cancel (name : String) : Simulation :=
  match s.names.lookup name with
  | none => s
  | some task =>
    let s := abandon ((s.spawned[task]?).getD .givenUp) s
    let spawned := match s.answer? task with
      | none => s.spawned.modify task fun _ => .givenUp
      | some _ => s.spawned
    { s.forget name with spawned }

/-! ## Activities -/

/-- The answers of activities, once all of them have ended. -/
def answers? : List Activity → Option (List Answer)
  | [] => some []
  | .ended a :: xs => (answers? xs).map (a :: ·)
  | _ :: _ => none

/-- Activities that started at one moment. -/
def gather (xs : List Activity) : Activity :=
  (answers? xs).elim (.together xs) fun as => .ended (.all as)

/-- Runs a call until it has to wait. -/
def runCall (i n : Nat) : Activity × Simulation :=
  let s := exhaust patience i (.call n) s
  match s.reply i n with
  | none => (.calling i n, s)
  | some r =>
    let (r, s) := s.display i r
    (.ended (.reply r), s)

/-- Waits for a task. -/
def await (task : Nat) : Activity :=
  (s.answer? task).elim (.joining task) fun a => .ended (.result a)

/-- Waits for the service of a world. -/
def awaitService (i : Nat) : Activity := if s.isIdle i then .ended .nothing else .stopping i

mutual

/-- Begins an action, and runs it until it has to wait. -/
def begin : Action → Simulation → Activity × Simulation
  | .operate op, s =>
    let (r, s) := s.operate s.epoch op
    (.ended (.reply r), s)
  | .call r, s =>
    let n := s.atWorld s.epoch 0 (·.nextCall)
    (s.onWorld s.epoch fun w => (w.call r).2).runCall s.epoch n
  | .inspect n, s =>
    match s.shown[n]? with
    | none => (.ended .nothing, s)
    | some (i, h) =>
      let (r, s) := s.operate i (.inspect h)
      (.ended (.reply r), s)
  | .save, s => (.ended .nothing, { s with saved := s.atWorld s.epoch ∅ (·.bridge.table.snapshot) })
  | .load, s =>
    let (r, s) := s.operate s.epoch (.restore s.saved)
    (.ended (.reply r), s)
  | .flush, s =>
    let (r, s) := s.flush
    (.ended (.reply r), s)
  | .restart, s =>
    let (r, s) := s.restart
    (.ended (.reply r), s)
  | .time, s => (.ended (.reply (.count s.now)), s)
  | .metrics, s => (.ended (.reply (.metrics s.metrics)), s)
  | .serve, s => (.ended .nothing, s.serve)
  | .stop, s =>
    match s.serving with
    | none => (.ended .nothing, s)
    | some i =>
      let s := { s.onWorld i (·.step .plain .stop) with serving := none }
      (s.awaitService i, s)
  | .spawn name a, s => (.ended .nothing, s.spawn name a)
  | .peek name, s =>
    let (a, s) := s.peek name
    (.ended a, s)
  | .join name, s =>
    match s.names.lookup name with
    | none => (.ended .unknown, s)
    | some task => (s.await task, s.forget name)
  | .cancel name, s => (.ended .nothing, s.cancel name)
  | .together as, s =>
    let (xs, s) := beginAll as s
    (gather xs, s)

/-- Begins actions, in order. -/
def beginAll : List Action → Simulation → List Activity × Simulation
  | [], s => ([], s)
  | a :: as, s =>
    let (x, s) := begin a s
    let (xs, s) := beginAll as s
    (x :: xs, s)

end

mutual

/-- Runs an activity until it has to wait. -/
def advance : Activity → Simulation → Activity × Simulation
  | .begun a, s => begin a s
  | .calling i n, s => s.runCall i n
  | .joining task, s => (s.await task, s)
  | .stopping i, s => (s.awaitService i, s)
  | .together xs, s =>
    let (xs, s) := advanceAll xs s
    (gather xs, s)
  | .ended a, s => (.ended a, s)
  | .givenUp, s => (.givenUp, s)

/-- Runs activities until they have to wait, in order. -/
def advanceAll : List Activity → Simulation → List Activity × Simulation
  | [], s => ([], s)
  | x :: xs, s =>
    let (x, s) := advance x s
    let (xs, s) := advanceAll xs s
    (x :: xs, s)

end

mutual

/-- Whether an activity would stay as it is. -/
def isWaiting : Activity → Simulation → Bool
  | .begun _, _ => false
  | .calling i n, s => s.atWorld i true (·.isBlocked (.call n))
  | .joining task, s => (s.answer? task).isNone
  | .stopping i, s => !s.isIdle i
  | .together xs, s => areWaiting xs s
  | .ended _, _ | .givenUp, _ => true

def areWaiting : List Activity → Simulation → Bool
  | [], _ => true
  | x :: xs, s => isWaiting x s && areWaiting xs s

end

/-! ## Running -/

/-- Something that runs by itself. -/
inductive Task where
  | world (i : Nat) (t : World.Task)
  | spawned (n : Nat)
  deriving DecidableEq

/-- The tasks of the worlds that can go on and are of some kind. -/
def readyIn (kind : World.Task → Bool) : List Task :=
  s.worlds.toList.zipIdx.flatMap fun (w, i) =>
    (w.tasks.filter fun t => kind t && !w.isBlocked t).map (.world i ·)

/-- The tasks that can go on: resolutions, then what was spawned, then the loops of services. -/
def ready : List Task :=
  let isFlight : World.Task → Bool
    | .flight _ => true
    | _ => false
  let isLoop : World.Task → Bool
    | .sweeper | .persister => true
    | _ => false
  let spawned := s.spawned.toList.zipIdx.filter fun (x, _) => !isWaiting x s
  s.readyIn isFlight ++ spawned.map (.spawned ·.2) ++ s.readyIn isLoop

/-- Runs a task until it has to wait. -/
def runTask : Task → Simulation
  | .world i t => exhaust patience i t s
  | .spawned n =>
    let (x, s) := advance ((s.spawned[n]?).getD .givenUp) s
    { s with spawned := s.spawned.modify n fun _ => x }

/-- Runs every task until it has to wait, first come, first served. -/
def settle : (fuel : Nat) → (queue : List Task) → Simulation → Simulation
  | 0, _, s => s
  | fuel + 1, [], s =>
    match s.ready with
    | [] => s
    | queue => settle fuel queue s
  | fuel + 1, t :: queue, s =>
    let s := s.runTask t
    settle fuel (queue ++ s.ready.filter fun t => !queue.contains t) s

/-- Runs an activity, and everything else, until it has ended or nothing can happen any more. -/
def finish : (fuel : Nat) → Activity → Simulation → Answer × Simulation
  | 0, _, s => (.nothing, s)
  | fuel + 1, x, s =>
    let (x, s) := advance x s
    let s := settle patience [] s
    if !isWaiting x s then finish fuel x s
    else match x, s.nextTimer with
      | .ended a, _ => (a, s)
      | _, none => (.nothing, s)
      | x, some upTo => finish fuel x (s.elapse upTo)

/-- Takes an action, and waits for it to end. -/
def perform (a : Action) : Answer × Simulation := finish patience (.begun a) s

end Simulation

end GroupOffsets
