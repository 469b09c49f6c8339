import GroupOffsets.CommandLine
import GroupOffsets.Config.Shown
import GroupOffsets.Config.Source
import GroupOffsets.Environment
import GroupOffsets.LogFilter
import GroupOffsets.Checkpoint
import GroupOffsets.World

/-!
# The standalone service

A bridge over a local store of its own, as a program: it reads its configuration and the checkpoint
of the cursors, creates and registers the configured partitions, serves until it is told to stop,
persists the offsets a last time and writes the checkpoint.

`Standalone.run` is the whole program when it is told to stop as soon as it serves.
-/

namespace GroupOffsets

namespace Standalone

/-! ## The log -/

/-- The module of a line. -/
def program : String := "offset_bridge"

def info (module text : String) : LogLine := ⟨.info, module, text⟩

def warn (module text : String) : LogLine := ⟨.warn, module, text⟩

def number (n : Nat) : String := Numeral.text n

def checkpointModule : String := "offset_bridge::storage::cursor_checkpoint"

def storeModule : String := "offset_bridge::storage::local"

def tableModule : String := "offset_bridge::offset::manager"

def loopModule : String := "offset_bridge::offset::tasks"

def bridgeModule : String := "offset_bridge::service::bridge"

def notFound (path : String) : LogLine :=
  warn checkpointModule ("cursor checkpoint " ++ path ++ " not found; expected on first start")

def loaded (cursors : Nat) (path : String) : LogLine :=
  info storeModule ("loaded " ++ number cursors ++ " cursors from checkpoint " ++ path)

def notSeeded (group : String) (tp : TopicPartition) (e : Failure) : LogLine :=
  warn tableModule
    ("cursor of group " ++ group ++ " on " ++ tp.text ++ " not seeded: " ++ e.message)

def registered (topics entries : Nat) : LogLine :=
  info program ("registered " ++ number topics ++ " topics, " ++ number entries
    ++ " offset entries seeded from cursors")

def started (c : Config) : LogLine :=
  info bridgeModule ("offset bridge " ++ Numeral.text c.general.id.toInt ++ " started, sweep every "
    ++ number c.sweeper.interval.toNat ++ "s")

def signalled : LogLine := info bridgeModule "get shutdown signal"

def finalPersist (r : PersistReport) : LogLine :=
  info loopModule ("offset manager is shutting down, final persist: " ++ number r.persisted
    ++ " persisted, " ++ number r.failed ++ " failed")

def complete : LogLine := info bridgeModule "offset bridge shutdown complete"

def skipped (k : CursorKey) : LogLine :=
  warn checkpointModule ("skip checkpoint of cursor " ++ String.ofList (Text.quoted k.group.toList)
    ++ " on " ++ String.ofList (Text.quoted k.on.topic.toList) ++ ": empty or contains whitespace")

def flushed : LogLine := info program "cursor checkpoint flushed"

/-! ## Coming up -/

/-- Creates the configured partitions, and returns handles on them. -/
def createAll (s : Store) : List TopicPartition → List Handle × Store
  | [] => ([], s)
  | tp :: tps =>
    let (n, s) := s.createPartition tp
    let (hs, s) := createAll s tps
    (⟨n, none⟩ :: hs, s)

/-- What the log says about the cursors of a partition that was registered. -/
def seedingLog (tp : TopicPartition) (seedings : List (String × Bridge.Seeding)) : List LogLine :=
  seedings.filterMap fun
    | (group, .refused e) => some (notSeeded group tp e)
    | _ => none

/-- Registers partitions, one after the other. -/
def registerAll (b : Bridge) : List Handle → List LogLine × Bridge
  | [] => ([], b)
  | h :: hs =>
    let tp := (b.store.partition h).name
    let (_, seedings, b) := b.register [] h
    let (log, b) := registerAll b hs
    (seedingLog tp seedings ++ log, b)

/-- A bridge that is ready to serve, over the cursors of a checkpoint, and what the log says. -/
def comeUp (c : Config) (points : CursorPoints) : List LogLine × Bridge :=
  let owner := "bridge-" ++ Numeral.text c.general.id.toInt
  let (handles, store) := createAll (.new owner points) c.partitions
  let (log, b) := registerAll (.new c.settings store none) handles
  (log ++ [registered c.topics.length b.table.size], b)

/-! ## Files -/

/-- The directory that the log is kept in. -/
def logDirectory : String := "logs"

/-- The checkpoint file, which may not be there yet; a directory cannot be read. -/
def checkpointFile (files : Files) (path : String) : Attempt (Option (List UInt8)) :=
  if files.isDirectory path then .error (.io "Is a directory (os error 21)")
  else .ok (files.content? path)

/-! ## The program -/

/-- What a run of the program leaves. -/
structure Outcome where
  exit : Nat
  stdout : String
  /-- Whether it served until it was told to stop. -/
  served : Bool
  files : Files
  log : List LogLine

/-- A run that ends before it serves. -/
def Outcome.early (exit : Nat) (stdout : String) (files : Files) : Outcome :=
  ⟨exit, stdout, false, files, []⟩

/-- The number of steps after which both loops have nothing to do but wait for a tick or the signal.
All partitions are known, so that no pass has to wait: a loop wakes up, begins a pass, comes to each
offset once and ends. -/
def patience (w : World) : Nat := 2 * (w.bridge.table.count + 4)

/-- Reads the checkpoint file, comes up and begins to serve. -/
def beginService (file : Option (List UInt8)) (c : Config) : Attempt (List LogLine × World) :=
  let path := c.general.checkpointPath
  (Checkpoint.load file).map fun points =>
    let found := if file.isSome then [] else [notFound path]
    let (registering, b) := comeUp c points
    let w := (World.new 0 b).step .plain (.serve c.sweepEvery c.persistEvery)
    (found ++ loaded points.size path :: registering ++ [started c], w.settle (patience w))

/-- Tells the service to stop; what both loops have left to do needs no waiting, since all
partitions are known. -/
def endService (w : World) : List LogLine × World :=
  let w := w.step .plain .stop
  let w := w.settle (patience w)
  (signalled :: ((w.service.bind (·.final)).map finalPersist).toList ++ [complete], w)

/-- Writes the checkpoint: what the log says then, and the files, if it could be written. -/
def writeBack (files : Files) (c : Config) (w : World) : Option (List LogLine × Files) :=
  let cursors := w.bridge.store.points
  (files.write c.general.checkpointPath (Checkpoint.write cursors)).map fun files =>
    ((Checkpoint.skipped cursors).map skipped ++ [flushed], files)

/-- The service with its configuration, told to stop as soon as it serves. -/
def service (files : Files) (c : Config) : Outcome :=
  match (checkpointFile files c.general.checkpointPath).bind (beginService · c) with
  | .error _ => .early 1 "" files
  | .ok (beginning, w) =>
    let (ending, w) := endService w
    let written := writeBack files c w
    { exit := if written.isSome then 0 else 1
      stdout := ""
      served := true
      files := (written.map (·.2)).getD files
      log := beginning ++ ending ++ (written.map (·.1)).getD [] }

/-- The log filter: as the environment has it, or else by how verbose the program shall be; `none`
if it makes the program break down. -/
def filter (env : Environment) (verbosity : Nat) : Option (List LogFilter.Directive) :=
  match env.lookup "RUST_LOG" with
  | some s => LogFilter.ofText s
  | none =>
    match verbosity with
    | 0 => LogFilter.ofText ""
    | 1 => LogFilter.ofText "info"
    | 2 => LogFilter.ofText "debug"
    | _ => LogFilter.ofText "trace"

/-- The file that adds to the environment. -/
def environmentFile : String := ".env"

/-- The environment with what a file adds to it, if it is there; `none` if that makes the program
break down. -/
def environment (env : Environment) (file : Option (List UInt8)) : Option Environment :=
  file.elim (some env) env.addFile

/-- The path of the configuration file, unless another one is given. -/
def confPath : String := "./conf.toml"

/-- How the program exits if it breaks down. -/
def breakdown : Nat := 101

/-- The service with its configuration and its log, for which there has to be a directory. -/
def logged (env : Environment) (files : Files) (verbosity : Nat) (c : Config) : Outcome :=
  match files.makeDirectory logDirectory, filter env verbosity with
  | some files, some directives =>
    let o := service files c
    { o with log := o.log.filter (LogFilter.lets directives) }
  | _, _ => .early breakdown "" files

/-- What the program does in an environment. -/
def runIn (env : Environment) (files : Files) : Invocation → Outcome
  | .misuse => .early 2 "" files
  | .help command => .early 0 (CommandLine.help command) files
  | .version => .early 0 CommandLine.version files
  | .go conf verbosity printConfig =>
    match Config.load files.content? (conf.getD confPath) with
    | .error (.failure _) => .early 1 "" files
    | .error .breakdown => .early breakdown "" files
    | .ok c => if printConfig then .early 0 c.shown files else logged env files verbosity c

/-- The program with its arguments, in a directory with some files. -/
def run (args : List String) (env : Environment) (files : Files) : Outcome :=
  match environment env (files.content? environmentFile) with
  | none => .early breakdown "" files
  | some env => runIn env files (CommandLine.read args)

end Standalone

end GroupOffsets
