/-!
# Command line arguments

Arguments are operands, switches and options with a value. A long name is written `--name`, its value
behind `=` or as the next argument; short names may be run together (`-vo out`), and the value of the
last may follow at once, behind `=` or as the next argument. After `--` all arguments are operands. A
lone `-` is an operand too.

* `Arguments.step` takes one more argument.
* `Arguments.scan` takes all arguments of a command.
-/

namespace RegisterLang

/-- Why the arguments name no command to carry out. -/
inductive Stop
  | misuse
  | help
deriving DecidableEq, Repr

/-- A switch, or an option whose value must pass a test. -/
structure CommandOption where
  long : String
  short : Option Char
  accepts : Option (String → Bool)

/-- How the next argument is to be taken. -/
inductive Expectation
  | any
  | value (option : CommandOption)
  | operand

/-- The arguments taken so far. -/
structure Arguments where
  /-- The options that the command knows. -/
  known : List CommandOption
  /-- How many further operands the command takes. -/
  room : Nat
  expectation : Expectation
  /-- The options given, by long name, with their values; that of a switch is empty. -/
  given : List (String × String)
  operands : List String

namespace Arguments

/-- No arguments yet. -/
def initial (known : List CommandOption) (room : Nat) : Arguments := ⟨known, room, .any, [], []⟩

/-- Whether an option was given. -/
def has (a : Arguments) (long : String) : Bool := (a.given.lookup long).isSome

/-- The first operand. -/
def operand (a : Arguments) : String := a.operands.headD ""

/-- Takes an operand, which must not be empty. -/
def takeOperand (a : Arguments) (text : String) : Except Stop Arguments :=
  if a.room = 0 ∨ text = "" then .error .misuse
  else .ok { a with room := a.room - 1, operands := a.operands ++ [text] }

/-- Takes an option with its value. No option may be given twice. -/
def takeOption (a : Arguments) (option : CommandOption) (value : String) : Except Stop Arguments :=
  if a.has option.long then .error .misuse
  else .ok { a with expectation := .any, given := (option.long, value) :: a.given }

/-- Takes an option with a value, which must pass the option's test. -/
def takeValue (a : Arguments) (option : CommandOption) (value : String) : Except Stop Arguments :=
  match option.accepts with
  | some accepts => if accepts value then a.takeOption option value else .error .misuse
  | none => .error .misuse

/-- Takes a long option, with the value behind its `=` if there is one. -/
def takeLong (a : Arguments) (name : String) (value : Option String) : Except Stop Arguments :=
  match a.known.find? (·.long = name), value with
  | some option, some value => a.takeValue option value
  | some option, none =>
    if option.accepts.isSome then .ok { a with expectation := .value option }
    else a.takeOption option ""
  | none, none => .error (if name = "help" then .help else .misuse)
  | none, some _ => .error .misuse

/-- Takes a run of short options. -/
def takeShort (a : Arguments) : List Char → Except Stop Arguments
  | [] => .ok a
  | c :: rest =>
    match a.known.find? (·.short = some c) with
    | none => .error (if c = 'h' then .help else .misuse)
    | some option =>
      if option.accepts.isSome then
        match rest with
        | [] => .ok { a with expectation := .value option }
        | '=' :: value => a.takeValue option (String.ofList value)
        | value => a.takeValue option (String.ofList value)
      else do
        let a ← a.takeOption option ""
        a.takeShort rest

/-- Takes one more argument. -/
def step (a : Arguments) (argument : String) : Except Stop Arguments :=
  match a.expectation, argument.toList with
  | .operand, _ => a.takeOperand argument
  | .value option, ['-'] => a.takeValue option argument
  | .value _, '-' :: _ => .error .misuse
  | .value option, _ => a.takeValue option argument
  | .any, ['-', '-'] => .ok { a with expectation := .operand }
  | .any, '-' :: '-' :: body =>
    match body.dropWhile (· ≠ '=') with
    | [] => a.takeLong (String.ofList body) none
    | _ :: value =>
      a.takeLong (String.ofList (body.takeWhile (· ≠ '='))) (some (String.ofList value))
  | .any, '-' :: c :: rest => a.takeShort (c :: rest)
  | .any, _ => a.takeOperand argument

/-- Takes all arguments of a command, whose operands must all be there. -/
def scan (known : List CommandOption) (room : Nat) (arguments : List String) :
    Except Stop Arguments := do
  let a ← arguments.foldlM step (initial known room)
  match a.expectation with
  | .value _ => .error .misuse
  | _ => if a.room = 0 then .ok a else .error .misuse

end Arguments

end RegisterLang
