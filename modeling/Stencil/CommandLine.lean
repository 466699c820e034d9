import Stencil.Context.Load
import Stencil.Render
import Stencil.Report

/-!
# The command line

The program compiles a template from a file or from its input, reports what there is to say about
it, and writes the rendered text or the stored program. Options are taken in order, and the first
one that is wrong or asks for help decides.

## Main definitions

* `CommandLine.Options`, `CommandLine.parse`: the options of a run.
* `CommandLine.Sources`: where files and the input are read from.
* `CommandLine.run`: a run with everything that it writes.
-/

namespace Stencil.CommandLine

/-- The options of a run. -/
structure Options where
  input : Option String
  vars : Option String
  config : Option String
  left : Option String
  right : Option String
  emitProgram : Bool
  debug : Bool
  deriving DecidableEq, Repr

/-- No options. -/
def Options.none : Options :=
  ⟨.none, .none, .none, .none, .none, false, false⟩

/-- The options that take a value. -/
inductive Setting
  | vars
  | config
  | left
  | right
  deriving DecidableEq, Repr

/-- The options that take none. -/
inductive Switch
  | emitProgram
  | debug
  | help
  deriving DecidableEq, Repr

/-- An option with a value or without. -/
inductive Flag
  | setting (s : Setting)
  | switch (s : Switch)
  deriving DecidableEq, Repr

/-- The option of a long name. -/
def Flag.ofLong? (name : String) : Option Flag :=
  if name = "vars" then some (.setting .vars)
  else if name = "config" then some (.setting .config)
  else if name = "left-delimiter" then some (.setting .left)
  else if name = "right-delimiter" then some (.setting .right)
  else if name = "emit-program" then some (.switch .emitProgram)
  else if name = "debug" then some (.switch .debug)
  else if name = "help" then some (.switch .help)
  else none

/-- The option of a letter. -/
def Flag.ofShort? (c : Char) : Option Flag :=
  if c = 'c' then some (.setting .config)
  else if c = 'd' then some (.switch .debug)
  else if c = 'h' then some (.switch .help)
  else none

/-- What a command line asks for. -/
inductive Request
  | render (o : Options)
  | help
  | invalid
  deriving DecidableEq, Repr

/-- The options after one of them took its value. No option may be given twice, and the name of a
file may not be empty. -/
def Options.set (o : Options) (s : Setting) (value : String) : Option Options :=
  match s with
  | .vars => if o.vars.isSome ∨ value = "" then .none else some { o with vars := value }
  | .config => if o.config.isSome ∨ value = "" then .none else some { o with config := value }
  | .left => if o.left.isSome then .none else some { o with left := value }
  | .right => if o.right.isSome then .none else some { o with right := value }

/-- The options with the template file given. -/
def Options.setInput (o : Options) (value : String) : Option Options :=
  if o.input.isSome ∨ value = "" then .none else some { o with input := value }

/-- What becomes of the options at a switch. -/
def Options.turnOn (o : Options) (s : Switch) : Except Request Options :=
  match s with
  | .emitProgram => if o.emitProgram then .error .invalid else .ok { o with emitProgram := true }
  | .debug => if o.debug then .error .invalid else .ok { o with debug := true }
  | .help => .error .help

/-- What an argument leads to: options that may still wait for a value, or the end. -/
inductive State
  | ready (o : Options)
  | waiting (o : Options) (s : Setting)
  | done (r : Request)

/-- The state after a step that may be wrong. -/
def State.ofOption : Option Options → State
  | some o => .ready o
  | none => .done .invalid

/-- A long option, with the value after an equals sign if there is one. -/
def long (o : Options) (name : String) (value : Option String) : State :=
  match Flag.ofLong? name, value with
  | some (.setting s), some v => .ofOption (o.set s v)
  | some (.setting s), none => .waiting o s
  | some (.switch s), none =>
    match o.turnOn s with
    | .ok o => .ready o
    | .error r => .done r
  | _, _ => .done .invalid

/-- A group of letters behind one dash. A letter that takes a value has the rest of the group for
it, an equals sign aside, or the next argument when nothing is left. -/
def short (o : Options) : List Char → State
  | [] => .ready o
  | c :: cs =>
    match Flag.ofShort? c with
    | some (.setting s) =>
      match cs with
      | [] => .waiting o s
      | '=' :: value => .ofOption (o.set s (String.ofList value))
      | value => .ofOption (o.set s (String.ofList value))
    | some (.switch s) =>
      match o.turnOn s with
      | .ok o => short o cs
      | .error r => .done r
    | none => .done .invalid

/-- The name of a long option and the value after its equals sign. -/
def splitEquals (cs : List Char) : String × Option String :=
  match cs.dropWhile (· != '=') with
  | [] => (String.ofList cs, none)
  | _ :: value => (String.ofList (cs.takeWhile (· != '=')), some (String.ofList value))

/-- What an argument leads to when no option waits for a value. -/
def argument (o : Options) (arg : String) : State :=
  match arg.toList with
  | '-' :: '-' :: cs => long o (splitEquals cs).1 (splitEquals cs).2
  | '-' :: c :: cs => short o (c :: cs)
  | _ => .ofOption (o.setInput arg)

/-- Whether an argument can be the value of the option before it. A lone dash can. -/
def isValue (arg : String) : Bool :=
  match arg.toList with
  | '-' :: _ :: _ => false
  | _ => true

/-- The request of arguments that are all values. -/
def values (o : Options) : List String → Request
  | [] => .render o
  | arg :: args =>
    match o.setInput arg with
    | some o => values o args
    | none => .invalid

/-- The request of some arguments. After a double dash no options follow. -/
def request : State → List String → Request
  | .done r, _ => r
  | .ready o, [] => .render o
  | .waiting _ _, [] => .invalid
  | .waiting o s, arg :: args =>
    if isValue arg then request (.ofOption (o.set s arg)) args else .invalid
  | .ready o, arg :: args =>
    if arg = "--" then values o args else request (argument o arg) args

/-- The request of a command line. -/
def parse (args : List String) : Request :=
  request (.ready .none) args

/-- The text that explains the options. Each explanation stands on the line after its option. -/
def helpText : String :=
  String.intercalate "\n"
    ["Compile and render zenplate templates",
      "",
      "Usage: zenplate [OPTIONS] [INPUT]",
      "",
      "Arguments:",
      "  [INPUT]  Template file (reads from stdin if not provided)",
      "",
      "Options:",
      "      --vars <VARS>",
      "          Variables file (TOML, or JSON when the extension is .json)",
      "  -c, --config <CONFIG>",
      "          Compiler configuration file (TOML format)",
      "      --left-delimiter <LEFT_DELIMITER>",
      "          Left tag delimiter, overriding the configuration",
      "      --right-delimiter <RIGHT_DELIMITER>",
      "          Right tag delimiter, overriding the configuration",
      "      --emit-program",
      "          Print the compiled program as JSON instead of rendering it",
      "  -d, --debug",
      "          Verbose logging",
      "  -h, --help",
      "          Print help",
      ""]

/-- Where a run reads from. What cannot be read as text is none. -/
structure Sources (m : Type → Type) where
  file : String → m (Option String)
  input : m (Option String)

/-- Why a run failed, other than by the template. -/
inductive Failure
  | arguments
  | template
  | unreadable (name : String)
  | badConfig (name : String)
  | badVars (name : String)
  | emptyDelimiter (side : Delimiters.Side)
  deriving DecidableEq, Repr

/-- What a failed run says besides its reports. -/
def Failure.message : Failure → String
  | arguments => "error: invalid arguments\n\nFor more information, try '--help'.\n"
  | template => ""
  | unreadable name => "Error reading " ++ name ++ "\n"
  | badConfig name => "Error loading config '" ++ name ++ "'\n"
  | badVars name => "Error parsing variables '" ++ name ++ "'\n"
  | emptyDelimiter side => "Error: " ++ side.emptyMessage ++ "\n"

/-- Everything that a run writes. -/
structure Outcome where
  output : String
  reports : List Report
  failure : Option Failure
  deriving DecidableEq, Repr

/-- The number that a run ends with: two for wrong arguments, one for any other failure. -/
def Outcome.exitCode (o : Outcome) : Nat :=
  match o.failure with
  | none => 0
  | some .arguments => 2
  | some _ => 1

/-- A run that fails before it writes anything. -/
def failed (f : Failure) : Outcome :=
  ⟨"", [], some f⟩

/-- The name of the input in reports. -/
def inputName : String := "<stdin>"

/-- The last part of a path that is a name, if there is one. -/
def fileName? (path : String) : Option (List Char) :=
  match ((path.toList.splitOn '/').filter fun part ↦ part ≠ [] ∧ part ≠ ['.']).getLast? with
  | some ['.', '.'] => none
  | name => name

/-- What follows the last dot of a file's name, unless the name starts there. -/
def extension? (path : String) : Option (List Char) := do
  let name ← fileName? path
  let reversed := name.reverse
  match reversed.dropWhile (· != '.') with
  | _ :: _ :: _ => some (reversed.takeWhile (· != '.')).reverse
  | _ => none

/-- Whether a file of variables holds JSON rather than TOML. -/
def isJsonFile (path : String) : Bool :=
  match extension? path with
  | some ext => ext.map Char.toLower == "json".toList
  | none => false

/-- The variables of a file. -/
def contextOf? (path content : String) : Option Context :=
  if isJsonFile path then Context.ofJson? content else Context.ofToml? content

variable {m : Type → Type} [Monad m]

/-- The delimiters of the configuration. -/
def configured (sources : Sources m) (o : Options) : m (Except Failure Delimiters) := do
  match o.config with
  | none => return .ok .standard
  | some path =>
    match (← sources.file path).bind Delimiters.ofToml? with
    | none => return .error (.badConfig path)
    | some d => return .ok d

/-- Delimiters with those of the options in place of them. -/
def overridden (o : Options) (d : Delimiters) : Except Failure Delimiters :=
  if o.left.isNone ∧ o.right.isNone then .ok d
  else (d.override o.left o.right).mapError .emptyDelimiter

/-- The template of a run and its name. -/
def template (sources : Sources m) (o : Options) : m (Except Failure (String × String)) := do
  let (name, content) ← match o.input with
    | some path => do pure (path, ← sources.file path)
    | none => do pure (inputName, ← sources.input)
  return match content with
    | some s => .ok (name, s)
    | none => .error (.unreadable name)

/-- The variables of a run. -/
def context (sources : Sources m) (o : Options) : m (Except Failure Context) := do
  match o.vars with
  | none => return .ok .empty
  | some path =>
    match ← sources.file path with
    | none => return .error (.unreadable path)
    | some content =>
      return match contextOf? path content with
        | some c => .ok c
        | none => .error (.badVars path)

/-- The end of a run with a compiled program. Variables are not looked at when the program itself is
asked for. -/
def finish (sources : Sources m) (o : Options) (reports : List Report) (p : Program) :
    m Outcome := do
  if o.emitProgram then
    return ⟨p.store ++ "\n", reports, none⟩
  else
    match ← context sources o with
    | .ok c => return ⟨p.render c, reports, none⟩
    | .error f => return ⟨"", reports, some f⟩

/-- A run with given options. -/
def runWith (sources : Sources m) (o : Options) : m Outcome := do
  match (← configured sources o).bind (overridden o) with
  | .error f => return failed f
  | .ok d =>
    match ← template sources o with
    | .error f => return failed f
    | .ok (name, source) =>
      match Program.compile d source with
      | .error log => return ⟨"", log.map (·.report source name), some .template⟩
      | .ok p => finish sources o (p.warnings.map (·.report source name)) p

/-- A run with a command line. -/
def run (sources : Sources m) (args : List String) : m Outcome :=
  match parse args with
  | .help => pure ⟨helpText, [], none⟩
  | .invalid => pure (failed .arguments)
  | .render o => runWith sources o

end Stencil.CommandLine
