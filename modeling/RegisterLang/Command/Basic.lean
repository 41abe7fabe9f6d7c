import RegisterLang.Command.Arguments
import RegisterLang.Program.Listing
import RegisterLang.Toolchain

/-!
# Commands

The commands of the command line: `build`, `run`, `disasm` and `tokens`.

* `Command.parse` reads a command from the arguments and the environment.
* `Command.execute` carries it out on a disk and reports what to print and the exit status.
* `Command.respond` does both; arguments that name no command give the exit status 2.
-/

namespace RegisterLang

/-- A command with its arguments. -/
inductive Command
  | build (source output : String) (raw : Bool)
  | run (image : String) (limit : Option Nat)
  | disasm (image : String)
  | tokens (source : String) (colored : Bool)
deriving DecidableEq, Repr

/-- What a command leaves: its exit status and what it prints on the two channels. -/
structure Report where
  status : Nat
  output : String
  errors : String
deriving DecidableEq, Repr

namespace Command

/-! ## Reading -/

/-- The switch that every command knows. It changes nothing that is printed. -/
def verbose : CommandOption := ⟨"verbose", some 'v', none⟩

/-- The file that a build writes. -/
def output : CommandOption := ⟨"output", some 'o', some (· ≠ "")⟩

/-- Writes the bare instruction stream. -/
def raw : CommandOption := ⟨"raw", none, none⟩

/-- A step limit is a number of 64 bits. -/
def limitOfText? (text : String) : Option Nat := Text.natOfText? UInt64.size text

/-- The step limit of a run. -/
def maxSteps : CommandOption := ⟨"max-steps", none, some fun text => (limitOfText? text).isSome⟩

/-- Leaves out the colours of a token dump. -/
def noColor : CommandOption := ⟨"no-color", none, none⟩

/-- The file that a build writes if none is named. -/
def defaultOutput : String := "main.arx"

/-- The environment variable that gives a step limit. -/
def limitVariable : String := "ARC_MAX_STEPS"

/-- The step limit of a run: that of the option, or else that of the environment. -/
def limitOf (a : Arguments) (environment : Option String) : Except Stop (Option Nat) :=
  match a.given.lookup maxSteps.long, environment with
  | some text, _ => .ok (limitOfText? text)
  | none, none => .ok none
  | none, some text =>
    match limitOfText? text with
    | some limit => .ok (some limit)
    | none => .error .misuse

/-- The names of the commands. -/
def names : List String := ["build", "run", "disasm", "tokens"]

/-- The command of a given name, from the arguments behind it. -/
def ofName (name : String) (environment : Option String) (arguments : List String) :
    Except Stop Command :=
  match name with
  | "build" => do
    let a ← Arguments.scan [verbose, output, raw] 1 arguments
    .ok (.build a.operand ((a.given.lookup output.long).getD defaultOutput) (a.has raw.long))
  | "run" => do
    let a ← Arguments.scan [verbose, maxSteps] 1 arguments
    let limit ← limitOf a environment
    .ok (.run a.operand limit)
  | "disasm" => do
    let a ← Arguments.scan [verbose] 1 arguments
    .ok (.disasm a.operand)
  | "tokens" => do
    let a ← Arguments.scan [verbose, noColor] 1 arguments
    .ok (.tokens a.operand (!a.has noColor.long))
  | "help" =>
    match arguments with
    | [] => .error .help
    | [topic] => .error (if topic = "help" ∨ topic ∈ names then .help else .misuse)
    | _ => .error .misuse
  | _ => .error .misuse

/-- The command that the arguments name, behind the options that all commands share. -/
def parseFrom (environment : Option String) (a : Arguments) : List String → Except Stop Command
  | [] => .error .misuse
  | argument :: rest =>
    if argument.toList.head? = some '-' ∧ argument ≠ "--" then do
      let a ← a.step argument
      parseFrom environment a rest
    else ofName argument environment rest

/-- The command that the arguments name; `environment` is the value of `limitVariable`. -/
def parse (environment : Option String) (arguments : List String) : Except Stop Command :=
  parseFrom environment (Arguments.initial [verbose] 0) arguments

/-! ## Carrying out -/

/-- The report of a success. -/
def success (output : String) : Report := ⟨0, output, ""⟩

/-- The report of a failure. -/
def failure (error : Error) : Report := ⟨1, "", error.message ++ "\n"⟩

/-- The lines, each ended by a line feed. -/
def lines (texts : List String) : String := String.join (texts.map (· ++ "\n"))

/-- The report of a result that is printed on success. -/
def report {α : Type} (result : Except Error α) (text : α → String) : Report :=
  match result with
  | .ok value => success (text value)
  | .error error => failure error

/-- Carries out a command. -/
def execute {m : Type → Type} [Monad m] [Disk m] : Command → m Report
  | build source output raw => do
    let result ← Toolchain.assembleFile source output raw
    return report result fun built => lines ["Compiled to " ++ built.output]
  | run image limit => do
    let result ← Toolchain.runFile image limit
    return report result fun completion => lines completion.line?.toList
  | disasm path => do
    let result ← Toolchain.load path
    return report result fun image => image.program.listing image.symbols
  | tokens source colored => do
    let text ← Toolchain.readSource source
    return report (text.bind Toolchain.scan) fun tokens => lines (tokens.map (·.render colored))

/-- A short reminder of the commands. -/
def usage : String := lines
  ["Usage: [-v|--verbose] <command>",
   "  build <source> [-o|--output <path>] [--raw]",
   "  run <image> [--max-steps <n>]",
   "  disasm <image>",
   "  tokens <source> [--no-color]"]

/-- Carries out the command that the arguments name. -/
def respond {m : Type → Type} [Monad m] [Disk m] (environment : Option String)
    (arguments : List String) : m Report :=
  match parse environment arguments with
  | .ok command => command.execute
  | .error .help => return success usage
  | .error .misuse => return ⟨2, "", usage⟩

end Command

end RegisterLang
