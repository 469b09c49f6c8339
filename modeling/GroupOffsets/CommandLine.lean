/-!
# The command line

What the arguments of the program ask for.  Options come in a long form, `--conf path`, and in a
short one, of which several can share a dash; a value may also follow its option directly or behind
an equals sign.  What is behind a command belongs to that command.
-/

namespace GroupOffsets

/-- What the program is asked to do. -/
inductive Invocation where
  /-- To serve, or to show the configuration. -/
  | go (conf : Option String) (verbosity : Nat) (printConfig : Bool)
  /-- To explain itself, or one of its commands. -/
  | help (command : Option String)
  | version
  /-- Nothing that makes sense. -/
  | misuse
  deriving DecidableEq, Repr

namespace CommandLine

/-- The options so far. -/
structure Options where
  conf : Option String
  verbosity : Nat
  deriving DecidableEq, Repr

/-- What a cluster of short options leaves to be done. -/
inductive Cluster where
  | options (o : Options)
  /-- The last option needs a value. -/
  | needsValue (o : Options)
  | done (i : Invocation)
  deriving DecidableEq, Repr

/-- Sets the configuration path, which can be done once. -/
def Options.setConf (o : Options) (path : String) : Cluster :=
  match o.conf with
  | none => .options { o with conf := some path }
  | some _ => .done .misuse

/-- Short options behind one dash. -/
def cluster (o : Options) : List Char → Cluster
  | [] => .options o
  | ['c'] => .needsValue o
  | 'c' :: '=' :: path => o.setConf (String.ofList path)
  | 'c' :: path => o.setConf (String.ofList path)
  | 'v' :: cs => cluster { o with verbosity := o.verbosity + 1 } cs
  | 'h' :: _ => .done (.help none)
  | 'V' :: _ => .done .version
  | _ :: _ => .done .misuse

/-- A long option, without its dashes. -/
def long (o : Options) (cs : List Char) : Cluster :=
  match cs.takeWhile (· != '='), cs.dropWhile (· != '=') with
  | name, '=' :: value =>
    if name = "conf".toList then o.setConf (String.ofList value) else .done .misuse
  | name, _ =>
    if name = "conf".toList then .needsValue o
    else if name = "verbose".toList then .options { o with verbosity := o.verbosity + 1 }
    else if name = "help".toList then .done (.help none)
    else if name = "version".toList then .done .version
    else .done .misuse

/-- What is behind the command that shows the configuration. -/
def behindCommand : List String → Option Invocation
  | [] => none
  | arg :: args =>
    if arg = "--help" ∨ arg.toList.take 2 = ['-', 'h'] then some (.help (some "print-config"))
    else if arg = "--" ∧ args = [] then none
    else some .misuse

/-- What an explanation is asked for. -/
def behindHelp : List String → Invocation
  | [] => .help none
  | ["print-config"] => .help (some "print-config")
  | ["help"] => .help (some "help")
  | _ => .misuse

/-- Whether an argument has the form of an option. -/
def isOption (arg : String) : Bool :=
  match arg.toList with
  | '-' :: _ :: _ => true
  | _ => false

/-- An argument that is no command. -/
def argument (o : Options) (arg : String) : Cluster :=
  match arg.toList with
  | ['-', '-'] => .done .misuse
  | '-' :: '-' :: cs => long o cs
  | '-' :: c :: cs => cluster o (c :: cs)
  | _ => .done .misuse

/-- Reads arguments behind some options. -/
def readAfter (o : Options) : List String → Invocation
  | [] => .go o.conf o.verbosity false
  | "print-config" :: args => (behindCommand args).getD (.go o.conf o.verbosity true)
  | "help" :: args => behindHelp args
  | ["--"] => .go o.conf o.verbosity false
  | arg :: args =>
    match argument o arg, args with
    | .options o, args => readAfter o args
    | .done i, _ => i
    | .needsValue _, [] => .misuse
    | .needsValue o, value :: args =>
      if isOption value then .misuse
      else match o.setConf value with
        | .options o => readAfter o args
        | _ => .misuse

def read (args : List String) : Invocation := readAfter ⟨none, 0⟩ args

/-! ## Texts -/

def version : String := "offset-bridge 0.1.0\n"

/-- How the program explains itself. -/
def help : Option String → String
  | none =>
    "Usage: offset-bridge [OPTIONS] [COMMAND]\n\nCommands:\n"
      ++ "  print-config  \n"
      ++ "  help          Print this message or the help of the given subcommand(s)\n\nOptions:\n"
      ++ "  -c, --conf <CONF>  path to config file\n"
      ++ "  -v, --verbose...   log level (v: info, vv: debug, vvv: trace)\n"
      ++ "  -h, --help         Print help\n"
      ++ "  -V, --version      Print version\n"
  | some "help" =>
    "Print this message or the help of the given subcommand(s)\n\n"
      ++ "Usage: offset-bridge help [COMMAND]...\n\nArguments:\n"
      ++ "  [COMMAND]...  Print help for the subcommand(s)\n"
  | some command =>
    "Usage: offset-bridge " ++ command ++ "\n\nOptions:\n  -h, --help  Print help\n"

end CommandLine

end GroupOffsets
