import WireStore.Text.Numeral
import WireStore.Text.Utf8

/-!
# Arguments of a command line

An argument is told by its looks: an option spelled out, perhaps with a value
attached to it, options of one letter, a lone `--`, or anything else.
-/

namespace WireStore.CommandLine

/-- Why a program is not started. -/
inductive Refusal where
  | version
  | help
  /-- The arguments are not usable. -/
  | misused
  deriving DecidableEq, Repr

/-- What an argument is by its looks. -/
inductive Argument where
  /-- A lone `--`. -/
  | separator
  /-- An option spelled out, with the value attached to it by an equals sign. -/
  | long (name : String) (attached : Option String)
  /-- Options of one letter; the first is what counts. -/
  | short (letter : Char)
  /-- Anything else, a lone `-` included. -/
  | plain (text : String)
  deriving DecidableEq, Repr

/-- The name of a long option and what is attached to it. -/
def splitAttached (body : List Char) : String × Option String :=
  let name := body.takeWhile (· != '=')
  match body.dropWhile (· != '=') with
  | [] => (String.ofList name, none)
  | _ :: value => (String.ofList name, some (String.ofList value))

/-- Tells what an argument is. -/
def Argument.ofText (text : String) : Argument :=
  match text.toList with
  | ['-', '-'] => .separator
  | '-' :: '-' :: body =>
    let (name, attached) := splitAttached body
    .long name attached
  | '-' :: letter :: _ => .short letter
  | _ => .plain text

/-- A number of up to sixty-four bits, with a plus sign allowed before it. -/
def size? (text : String) : Option Nat :=
  (Numeral.unsigned? (Utf8.encode text)).filter (· < Numeral.sizeBound)

end WireStore.CommandLine
