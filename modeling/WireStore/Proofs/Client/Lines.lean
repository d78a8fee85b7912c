import WireStore.Client.Frontend
import WireStore.Proofs.Frame.Stages

/-!
# The lines of an input

An input is cut behind every line feed. What is behind the last one is a line as
well if the input ends there, and none if a fault is raised there. `Source.lines`
says so without regard to how the input is delivered, and `nextLine_cases` says
that a frontend takes these lines one after another and nothing else.

Whether a line ends a session, and whether a batch passes over it, can be told
from the line alone, and none does both (`isCommand_of_quits`).
-/

namespace WireStore

variable {input : Source} {line part : Bytes} {signals more : List Signal} {reason : Fault}

namespace Signal

/-- The lines with their line feeds, when `part` of the first of them has been passed. -/
def linesFrom (part : Bytes) : List Signal → List Bytes
  | [] => if part = [] then [] else [part]
  | fault _ :: _ => []
  | octet value :: rest =>
    if value = Bytes.lineFeed then (part ++ [value]) :: linesFrom [] rest
    else linesFrom (part ++ [value]) rest

/-- The first fault that is no interruption. -/
def firstFault? : List Signal → Option Fault
  | [] => none
  | fault reason :: _ => some reason
  | octet _ :: rest => firstFault? rest

theorem linesFrom_octets (unbroken : line.Unbroken) (part : Bytes) (signals : List Signal) :
    linesFrom part (octets line ++ signals) = linesFrom (part ++ line) signals := by
  induction line generalizing part with
  | nil => rw [List.append_nil, octets_nil, List.nil_append]
  | cons value line ih =>
    have here : value ≠ Bytes.lineFeed := fun same => unbroken (same ▸ List.mem_cons_self)
    have later : Bytes.Unbroken line := fun mem => unbroken (List.mem_cons_of_mem _ mem)
    rw [octets_cons, List.cons_append, linesFrom, if_neg here, ih later, List.append_assoc,
      List.singleton_append]

theorem firstFault?_octets (bytes : Bytes) (signals : List Signal) :
    firstFault? (octets bytes ++ signals) = firstFault? signals := by
  induction bytes with
  | nil => rfl
  | cons value bytes ih => exact ih

/-- The first line ends in its line feed, or the source ends in it, or a fault is raised in it. -/
theorem exists_line (signals : List Signal) :
    ∃ line, Bytes.Unbroken line ∧
      ((∃ more, signals = octets line ++ octet Bytes.lineFeed :: more) ∨
        signals = octets line ∨ ∃ reason more, signals = octets line ++ fault reason :: more) := by
  induction signals with
  | nil => exact ⟨[], List.not_mem_nil, .inr (.inl rfl)⟩
  | cons signal signals ih =>
    cases signal with
    | fault reason => exact ⟨[], List.not_mem_nil, .inr (.inr ⟨reason, signals, rfl⟩)⟩
    | octet value =>
      by_cases ends : value = Bytes.lineFeed
      · exact ⟨[], List.not_mem_nil, .inl ⟨signals, by rw [ends]; rfl⟩⟩
      · obtain ⟨line, unbroken, cases⟩ := ih
        refine ⟨value :: line, fun mem => ?_, ?_⟩
        · rcases List.mem_cons.mp mem with same | later
          · exact ends same.symm
          · exact unbroken later
        · rcases cases with ⟨more, rfl⟩ | rfl | ⟨reason, more, rfl⟩
          · exact .inl ⟨more, rfl⟩
          · exact .inr (.inl rfl)
          · exact .inr (.inr ⟨reason, more, rfl⟩)

end Signal

namespace Source

/-- The lines of an input, up to the first fault. -/
def lines (input : Source) : List Bytes := Signal.linesFrom [] input.signals

def firstFault? (input : Source) : Option Fault := Signal.firstFault? input.signals

example : (Source.chunk [97, 10] (.fault ⟨.interrupted, ""⟩ (.ofBytes [10, 98]))).lines =
    [[97, 10], [10], [98]] := by
  decide

end Source

namespace Frontend

/-! ## The next line -/

theorem nextLine_of_line (unbroken : line.Unbroken)
    (same : input.signals = Signal.octets line ++ .octet Bytes.lineFeed :: more) :
    ∃ rest, nextLine input = (.ok (some (line ++ [Bytes.lineFeed])), rest) ∧
      rest.signals = more := by
  obtain ⟨taken, stop, left⟩ := Source.scan_of_signals same
    (Signal.scan_found _ none unbroken.clear (beq_self_eq_true _) (by simp))
  refine ⟨_, ?_, left⟩
  simp [nextLine, Source.scanLine, taken, stop]

theorem nextLine_of_end (unbroken : part.Unbroken) (same : input.signals = Signal.octets part) :
    ∃ rest, nextLine input = (.ok (if part = [] then none else some part), rest) ∧
      rest.signals = [] := by
  obtain ⟨taken, stop, left⟩ := Source.scan_of_signals same
    (Signal.scan_ended _ none unbroken.clear (by simp))
  refine ⟨_, ?_, left⟩
  simp only [nextLine, Source.scanLine, taken, stop]

theorem nextLine_of_fault (unbroken : part.Unbroken)
    (same : input.signals = Signal.octets part ++ .fault reason :: more) :
    ∃ rest, nextLine input = (.error (.io reason), rest) ∧ rest.signals = more := by
  obtain ⟨-, stop, left⟩ := Source.scan_of_signals same
    (Signal.scan_fault _ none unbroken.clear (by simp))
  refine ⟨_, ?_, left⟩
  simp only [nextLine, Source.scanLine, stop]

/-- The next line is the first one and leaves the others; without one the input is at its end, or
at a fault with less than a line before it. -/
theorem nextLine_cases (input : Source) :
    (∃ line rest, nextLine input = (.ok (some line), rest) ∧
      input.signals = Signal.octets line ++ rest.signals ∧
      input.lines = line :: rest.lines ∧ input.firstFault? = rest.firstFault?) ∨
    (∃ rest, nextLine input = (.ok none, rest) ∧ input.lines = [] ∧ input.firstFault? = none) ∨
    ∃ reason rest, nextLine input = (.error (.io reason), rest) ∧ input.lines = [] ∧
      input.firstFault? = some reason := by
  unfold Source.lines Source.firstFault?
  obtain ⟨line, unbroken, ⟨more, same⟩ | same | ⟨reason, more, same⟩⟩ :=
    Signal.exists_line input.signals
  · obtain ⟨rest, next, rfl⟩ := nextLine_of_line unbroken same
    refine .inl ⟨_, rest, next, ?_, ?_, ?_⟩
    · rw [same, Signal.octets_append, List.append_assoc]
      rfl
    · rw [same, Signal.linesFrom_octets unbroken]
      rfl
    · rw [same, Signal.firstFault?_octets]
      rfl
  · obtain ⟨rest, next, left⟩ := nextLine_of_end unbroken same
    rw [← List.append_nil (Signal.octets line)] at same
    have faultless : Signal.firstFault? input.signals = none := by
      rw [same, Signal.firstFault?_octets]
      rfl
    by_cases empty : line = []
    · subst empty
      exact .inr (.inl ⟨rest, next, by rw [same]; rfl, faultless⟩)
    · rw [if_neg empty] at next
      refine .inl ⟨line, rest, next, by rw [left, same], ?_, ?_⟩
      · rw [left, same, Signal.linesFrom_octets unbroken]
        simp [Signal.linesFrom, empty]
      · rw [faultless, left]
        rfl
  · obtain ⟨rest, next, -⟩ := nextLine_of_fault unbroken same
    refine .inr (.inr ⟨reason, rest, next, ?_, ?_⟩)
    · rw [same, Signal.linesFrom_octets unbroken]
      rfl
    · rw [same, Signal.firstFault?_octets]
      rfl

end Frontend

/-! ## Lines that end a session, and lines that are passed over -/

theorem Token.next_fst_eq_nil_iff (bytes : Bytes) :
    (next bytes).1 = [] ↔ allBlank bytes = true := by
  rw [← skipBlank_eq_nil_iff, next]
  constructor
  · intro empty
    cases text : skipBlank bytes with
    | nil => rfl
    | cons octet rest =>
      -- What is left after the blanks does not begin with one, so a token begins there.
      have first := List.head?_dropWhile_not Ascii.isBlank bytes
      rw [← skipBlank, text] at first
      have ink : isInk octet = true := by simpa [isInk] using first
      simp [text, ink] at empty
  · intro blank
    rw [blank]
    rfl

namespace Instruction

variable {octet : UInt8}

/-- Holds of the lines that end a session. -/
def quits (line : Bytes) : Bool := Verb.parse? (splitVerb line).1 == some .quit

/-- The lines up to the first that ends a session, and that one. -/
def untilQuit : List Bytes → List Bytes
  | [] => []
  | line :: others => if quits line then [line] else line :: untilQuit others

/-- Holds of lines that are neither blank nor comments. -/
def isCommand (line : Bytes) : Bool := !Token.allBlank line && line.head? != some 35

theorem allBlank_stripLast (blank : Ascii.isBlank octet = true) (bytes : Bytes) :
    Token.allBlank (Bytes.stripLast octet bytes) = Token.allBlank bytes := by
  unfold Bytes.stripLast
  split
  next last =>
    obtain ⟨front, rfl⟩ := List.getLast?_eq_some_iff.mp last
    simp [Token.allBlank, blank]
  next => rfl

theorem head?_stripLast {first : UInt8} (differs : octet ≠ first) (bytes : Bytes) :
    (Bytes.stripLast octet bytes).head? = some first ↔ bytes.head? = some first := by
  unfold Bytes.stripLast
  split
  next last =>
    obtain ⟨front, rfl⟩ := List.getLast?_eq_some_iff.mp last
    rw [List.dropLast_concat]
    cases front with
    | nil => simp [differs]
    | cons head tail => rfl
  next => rfl

theorem allBlank_stripLineEnd (line : Bytes) :
    Token.allBlank line.stripLineEnd = Token.allBlank line := by
  rw [Bytes.stripLineEnd, allBlank_stripLast (by decide), allBlank_stripLast (by decide)]

/-- A batch need not look at the line end. -/
theorem isSkipped_eq (line : Bytes) : Frontend.isSkipped line = !isCommand line := by
  have comment : line.stripLineEnd.head? = some 35 ↔ line.head? = some 35 := by
    rw [Bytes.stripLineEnd, head?_stripLast (by decide), head?_stripLast (by decide)]
  rw [Frontend.isSkipped, isCommand, allBlank_stripLineEnd, Bool.not_and, Bool.not_not]
  congr 1
  rw [Bool.eq_iff_iff]
  simp [comment]

theorem splitVerb_eq_nil_iff (line : Bytes) :
    (splitVerb line).1 = [] ↔ Token.allBlank line = true := by
  rw [splitVerb, Token.next_fst_eq_nil_iff, allBlank_stripLineEnd]

theorem splitVerb_of_comment (comment : line.head? = some 35) :
    (splitVerb line).1.head? = some 35 := by
  rw [← @head?_stripLast Bytes.lineFeed 35 (by decide),
    ← @head?_stripLast Bytes.carriageReturn 35 (by decide)] at comment
  obtain ⟨rest, same⟩ := List.head?_eq_some_iff.mp comment
  have text : line.stripLineEnd = 35 :: rest := same
  have ink : Token.isInk 35 = true := by decide
  have dark : Ascii.isBlank 35 = false := by decide
  simp [splitVerb, Token.next, Token.skipBlank, text, ink, dark]

/-- No spelling of a verb is empty or begins like a comment. -/
theorem parse?_eq_none {token : Bytes} (head : token.head? = none ∨ token.head? = some 35) :
    Verb.parse? token = none := by
  have first : (token.map Ascii.lower).head? = none ∨ (token.map Ascii.lower).head? = some 35 := by
    rw [List.head?_map]
    rcases head with none | comment
    · exact .inl (by rw [none]; rfl)
    · exact .inr (by rw [comment]; rfl)
  have others : ∀ entry ∈ Verb.spellings, ¬(((Utf8.encode entry.1).map Ascii.lower).head? = none ∨
      ((Utf8.encode entry.1).map Ascii.lower).head? = some 35) := by
    decide
  rw [Verb.parse?, Option.map_eq_none_iff, List.find?_eq_none]
  intro entry mem same
  rw [Ascii.sameIgnoringCase_iff] at same
  exact others entry mem (same ▸ first)

theorem isCommand_of_quits (quit : quits line = true) : isCommand line = true := by
  have verb : Verb.parse? (splitVerb line).1 = some .quit := by simpa [quits] using quit
  rw [← Bool.not_eq_false]
  intro skipped
  have head : (splitVerb line).1.head? = none ∨ (splitVerb line).1.head? = some 35 := by
    rcases Bool.and_eq_false_iff.mp skipped with blank | comment
    · rw [(splitVerb_eq_nil_iff line).mpr (by simpa using blank)]
      exact .inl rfl
    · exact .inr (splitVerb_of_comment (by simpa using comment))
  exact nomatch verb.symm.trans (parse?_eq_none head)

theorem ofVerb_eq_quit_iff {verb : Verb} {arguments : Bytes} :
    ofVerb verb arguments = .ok .quit ↔ verb = .quit := by
  cases verb
  case quit => exact ⟨fun _ => rfl, fun _ => rfl⟩
  all_goals
    refine ⟨fun made => ?_, nofun⟩
    simp only [ofVerb, naming, carrying] at made
  case connect | read | delete =>
    split at made <;> exact nomatch made
  case create | update =>
    split at made
    · exact nomatch made
    · split at made <;> exact nomatch made
  all_goals exact nomatch made

end Instruction

end WireStore
