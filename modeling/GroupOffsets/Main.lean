import GroupOffsets.Standalone

/-!
# The program

The standalone service in a real directory.  It serves until its standard input ends.
-/

namespace GroupOffsets

namespace Standalone

/-- The file with a path, if it can be read. -/
def readFile (path : String) : IO (Option (List UInt8)) := do
  try return some (← IO.FS.readBinFile path).toList
  catch _ => return none

/-- The files with some paths, as far as they can be read. -/
def readFiles (paths : List String) : IO (List (String × List UInt8)) :=
  paths.filterMapM fun path => do return (← readFile path).map (path, ·)

/-- Prints the lines that a filter lets through. -/
def printLog (directives : List LogFilter.Directive) (log : List LogLine) : IO Unit :=
  for l in log do
    if LogFilter.lets directives l then
      IO.println l.shown

/-- Serves until the input ends.  The world follows the clock, which stood at `epoch` when the world
was new. -/
partial def serveWhile (input : Task (Except IO.Error Unit)) (epoch : Nat) (w : World) :
    IO World := do
  if ← IO.hasFinished input then return w
  IO.sleep 20
  let elapsed := (← IO.monoMsNow) - epoch - w.now
  serveWhile input epoch ((w.step .plain (.elapse elapsed)).settle World.patience)

/-- Waits for the end of the input. -/
partial def drain (input : IO.FS.Stream) : IO Unit := do
  if (← input.getLine).isEmpty then return
  drain input

/-- The service with its configuration. -/
def mainService (c : Config) (directives : List LogFilter.Directive) : IO UInt32 := do
  let path := c.general.checkpointPath
  match beginService (← readFile path) c with
  | .error e =>
    IO.eprintln e.message
    return 1
  | .ok (beginning, w) =>
    printLog directives beginning
    let epoch ← IO.monoMsNow
    let input ← IO.asTask (drain (← IO.getStdin))
    let w ← serveWhile input epoch w
    let (ending, w) := endService w
    printLog directives ending
    let cursors := w.bridge.store.points
    IO.FS.writeBinFile path ⟨(Checkpoint.write cursors).toArray⟩
    printLog directives ((Checkpoint.skipped cursors).map skipped ++ [flushed])
    return 0

/-- What the program does in an environment. -/
def mainIn (env : Environment) : Invocation → IO UInt32
  | .misuse => do
    IO.eprint (CommandLine.help none)
    return 2
  | .help command => do
    IO.print (CommandLine.help command)
    return 0
  | .version => do
    IO.print CommandLine.version
    return 0
  | .go conf verbosity printConfig => do
    let path := conf.getD confPath
    let files ← readFiles (path :: (Config.candidates path).map (·.1))
    match Config.load (files.lookup ·) path with
    | .error (.failure e) =>
      IO.eprintln e.message
      return 1
    | .error .breakdown => return breakdown.toUInt32
    | .ok c =>
      if printConfig then
        IO.print c.shown
        return 0
      else match filter env verbosity with
        | some directives => mainService c directives
        | none => return breakdown.toUInt32

/-- The program with its arguments. -/
def mainWith (args : List String) : IO UInt32 := do
  let own := match ← IO.getEnv "RUST_LOG" with
    | some s => [("RUST_LOG", s)]
    | none => []
  match environment own (← readFile environmentFile) with
  | none => return breakdown.toUInt32
  | some env => mainIn env (CommandLine.read args)

end Standalone

end GroupOffsets

def main (args : List String) : IO UInt32 := GroupOffsets.Standalone.mainWith args
