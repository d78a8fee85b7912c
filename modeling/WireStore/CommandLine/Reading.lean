import WireStore.CommandLine.Argument

/-!
# Reading a command line

Arguments are read from left to right, and the first that decides something
ends the reading: a request for the version or for help, or a mistake. An
option that takes a number is given as `--name number` or `--name=number`, at
most once in each part of the line; after a lone `--` every argument stands for
itself. What the other arguments mean is the program's: they are its operands.
-/

namespace WireStore.CommandLine

/-- A number given to an option, in the part of the line that has this depth. -/
structure Setting where
  name : String
  depth : Nat
  value : Nat
  deriving DecidableEq, Repr

/-- How far the reading of a command line has come. -/
structure Reading (σ : Type) where
  /-- What the operands so far amount to. -/
  operands : σ
  /-- How many parts of the line have been entered. -/
  depth : Nat := 0
  /-- The numbers given so far, latest first. -/
  settings : List Setting := []
  /-- The option whose number is due. -/
  awaiting : Option String := none
  /-- Every further argument stands for itself. -/
  literal : Bool := false

/-- What a program expects on its command line. -/
structure Grammar (σ : Type) where
  /-- The options that take a number. -/
  options : List String
  /-- Holds of the depths at which the version can be asked for. -/
  tellsVersion : Nat → Bool
  /-- Takes an operand. -/
  operand : Reading σ → String → Except Refusal (Reading σ)

namespace Reading

variable {σ : Type}

/-- The number given to an option; the deepest part of the line has the last word. -/
def number? (reading : Reading σ) (name : String) : Option Nat :=
  (reading.settings.find? fun setting => setting.name == name).map Setting.value

/-- Gives an option its number, once in each part of the line. -/
def set (reading : Reading σ) (name value : String) : Except Refusal (Reading σ) :=
  let given := reading.settings.any fun setting =>
    setting.name == name && setting.depth == reading.depth
  match given, size? value with
  | false, some number =>
    .ok { reading with
      settings := ⟨name, reading.depth, number⟩ :: reading.settings
      awaiting := none }
  | _, _ => .error .misused

/-- Takes an option that is spelled out. -/
def takeLong (grammar : Grammar σ) (reading : Reading σ) (name : String) :
    Option String → Except Refusal (Reading σ)
  | some value => if grammar.options.contains name then reading.set name value else .error .misused
  | none =>
    if grammar.options.contains name then .ok { reading with awaiting := some name }
    else if name = "help" then .error .help
    else if name = "version" ∧ grammar.tellsVersion reading.depth = true then .error .version
    else .error .misused

/-- Takes options of one letter, of which only the first counts. -/
def takeShort (grammar : Grammar σ) (reading : Reading σ) (letter : Char) : Refusal :=
  if letter = 'h' then .help
  else if letter = 'V' ∧ grammar.tellsVersion reading.depth = true then .version
  else .misused

/-- Takes the next argument. -/
def take (grammar : Grammar σ) (reading : Reading σ) (text : String) :
    Except Refusal (Reading σ) :=
  if reading.literal then grammar.operand reading text
  else
    match reading.awaiting, Argument.ofText text with
    | some name, .plain value => reading.set name value
    | some _, _ => .error .misused
    | none, .separator => .ok { reading with literal := true }
    | none, .long name attached => reading.takeLong grammar name attached
    | none, .short letter => .error (reading.takeShort grammar letter)
    | none, .plain operand => grammar.operand reading operand

/-- Reads all arguments; none may be left waiting for its number. -/
def ofArguments (grammar : Grammar σ) (operands : σ) (arguments : List String) :
    Except Refusal (Reading σ) :=
  (arguments.foldlM (take grammar) { operands }).bind fun reading =>
    if reading.awaiting.isSome then .error .misused else .ok reading

end Reading

end WireStore.CommandLine
