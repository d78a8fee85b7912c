import WireStore.Client.Shell

/-!
# Frontends

A frontend feeds a shell with the lines of its input until one of them ends the
session or the input does. A batch passes over blank lines and comments; a
dialogue prompts for each line and ends the line of its last prompt. Failing to
read the next line, or to print, ends either at once.
-/

namespace WireStore

/-- How lines are taken from the input. -/
inductive Frontend where
  | batch
  | dialogue
  deriving DecidableEq, Repr

/-- How a frontend came to its end, and what it left unread. -/
structure Finished (ν : Type) where
  result : Except Error Unit
  shell : Shell ν
  rest : Source

namespace Frontend

variable {ν : Type} [Network ν]

/-- What a dialogue shows when it awaits a line. -/
def prompt : String := "kv> "

/-- Holds of the lines a batch passes over: blank ones and comments. -/
def isSkipped (line : Bytes) : Bool :=
  Token.allBlank line.stripLineEnd || line.stripLineEnd.head? == some 35

/-- What is done before a line is read. -/
def beforeLine (frontend : Frontend) (shell : Shell ν) : Except Error Unit × Shell ν :=
  match frontend with
  | .batch => (.ok (), shell)
  | .dialogue =>
    let (printed, out) := shell.out.send (Utf8.encode prompt)
    (Shell.printing () printed, { shell with out })

/-- What is done with a line. -/
def onLine (frontend : Frontend) (shell : Shell ν) (line : Bytes) : Except Error Flow × Shell ν :=
  match frontend with
  | .batch => if isSkipped line then (.ok .goOn, shell) else shell.execute line
  | .dialogue => shell.execute line

/-- What is done when there is no further line. -/
def atEnd (frontend : Frontend) (shell : Shell ν) : Except Error Unit × Shell ν :=
  match frontend with
  | .batch => shell.finish
  | .dialogue =>
    match shell.out.writeAll [Bytes.lineFeed] with
    | (.ok (), out) => { shell with out }.finish
    | (.error reason, out) => (.error (.io reason), { shell with out })

/-- The next line of the input with its line end, if there is one. -/
def nextLine (input : Source) : Except Error (Option Bytes) × Source :=
  let scan := input.scanLine none
  match scan.stop with
  | .fault reason => (.error (.io reason), scan.rest)
  | _ => (.ok (if scan.taken = [] then none else some scan.taken), scan.rest)

theorem size_nextLine_lt {input rest : Source} {line : Bytes}
    (found : nextLine input = (.ok (some line), rest)) : rest.size < input.size := by
  have kept := input.size_scan (· == Bytes.lineFeed) none
  unfold nextLine Source.scanLine at found
  generalize input.scan (· == Bytes.lineFeed) none = scan at found kept
  rcases scan with ⟨taken, stop, left⟩
  cases stop <;> simp only [Prod.mk.injEq, reduceCtorEq, false_and, Except.ok.injEq] at found <;>
  · obtain ⟨read, rfl⟩ := found
    cases taken with
    | nil => simp at read
    | cons octet octets =>
      simp only [List.length_cons] at kept
      omega

/-- The frontend has come to its end with this result. -/
def stop (outcome : Except Error Unit × Shell ν) (rest : Source) : Finished ν :=
  ⟨outcome.1, outcome.2, rest⟩

/-- Feeds a shell with the lines of an input. -/
def run (frontend : Frontend) (shell : Shell ν) (input : Source) : Finished ν :=
  match frontend.beforeLine shell with
  | (.error reason, shell) => ⟨.error reason, shell, input⟩
  | (.ok (), shell) =>
    match _ : nextLine input with
    | (.error reason, rest) => ⟨.error reason, shell, rest⟩
    | (.ok none, rest) => stop (frontend.atEnd shell) rest
    | (.ok (some line), rest) =>
      match frontend.onLine shell line with
      | (.error reason, shell) => ⟨.error reason, shell, rest⟩
      | (.ok .quit, shell) => stop shell.finish rest
      | (.ok .goOn, shell) => run frontend shell rest
termination_by input.size
decreasing_by exact size_nextLine_lt ‹_›

end Frontend

end WireStore
