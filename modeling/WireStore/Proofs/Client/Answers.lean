import WireStore.Proofs.Client.Deeds
import WireStore.Proofs.Client.Frontends
import WireStore.Proofs.Client.UserLines
import WireStore.Proofs.Stream.Messages

/-!
# Every line is answered

Whatever a line says and whatever the network makes of it, a shell goes on: the errors of the
parser, of the session and of the peer are printed like any other outcome. A blank line has no
outcome, a line that ends the session has none that is printed, and every other line is answered by
a text that ends its line (`interpret_outcome`).

On an output that never fails such a text arrives whole, and one flush follows it.
`turns_answered` says so of all lines that are given to a shell one after another, whatever state
the earlier ones left behind.
-/

namespace WireStore

/-! ## Lines that end the session -/

namespace Token

variable {octet : UInt8}

/-- A blank behind a text is no part of its first token. -/
theorem next_fst_concat (blank : Ascii.isBlank octet = true) (bytes : Bytes) :
    (next (bytes ++ [octet])).1 = (next bytes).1 := by
  by_cases empty : allBlank bytes = true
  · have both : allBlank (bytes ++ [octet]) = true := by
      rw [allBlank, List.all_append, Bool.and_eq_true]
      exact ⟨empty, by simp [blank]⟩
    rw [(next_fst_eq_nil_iff _).mpr both, (next_fst_eq_nil_iff _).mpr empty]
  · have filled : (next bytes).1 ≠ [] := fun same => empty ((next_fst_eq_nil_iff bytes).mp same)
    rw [(next_append_iff filled (detached_cons blank [])).mpr rfl]

theorem next_fst_stripLast (blank : Ascii.isBlank octet = true) (bytes : Bytes) :
    (next (bytes.stripLast octet)).1 = (next bytes).1 := by
  unfold Bytes.stripLast
  split
  next last =>
    obtain ⟨front, rfl⟩ := List.getLast?_eq_some_iff.mp last
    rw [List.dropLast_concat, next_fst_concat blank]
  next => rfl

end Token

namespace Instruction

variable {line : Bytes}

/-- The verb of a line can be read without regard to the line end. -/
theorem splitVerb_fst (line : Bytes) : (splitVerb line).1 = (Token.next line).1 := by
  rw [splitVerb, Bytes.stripLineEnd, Token.next_fst_stripLast (by decide),
    Token.next_fst_stripLast (by decide)]

theorem quits_iff :
    quits line = true ↔
      ∃ word ∈ ["quit", "exit"],
        Ascii.sameIgnoringCase (Utf8.encode word) (Token.next line).1 = true := by
  rw [quits, beq_iff_eq, splitVerb_fst, Verb.parse?_eq_some_iff]
  simp [Verb.spellings]

end Instruction

/-! ## What a line comes to -/

namespace Session

variable {ν : Type} [Network ν] (session : Session ν)

/-- A line is blank, or ends the session, or is answered by a line. -/
theorem interpret_outcome (line : Bytes) :
    (Token.allBlank line = true ∧ session.interpret line = (.nothing, session)) ∨
    (Instruction.quits line = true ∧ session.interpret line = (.quit, session.disconnect.2)) ∨
    (Token.allBlank line = false ∧ Instruction.quits line = false ∧
      ∃ text, (session.interpret line).1 = .line text) := by
  rcases session.interpret_cases line with ⟨empty, -, told⟩ | ⟨unknown, refused, told⟩ |
    ⟨verb, known, parsed, told⟩
  · exact .inl ⟨(Instruction.splitVerb_eq_nil_iff line).mp empty, told⟩
  · refine .inr (.inr ⟨?_, ?_, ?_⟩)
    · rw [← Bool.not_eq_true, ← Instruction.parse_eq_none_iff, refused]
      simp
    · rw [Instruction.quits, unknown]
      rfl
    · rw [told]
      exact ⟨_, rfl⟩
  · by_cases quit : verb = .quit
    · subst quit
      refine .inr (.inl ⟨?_, told⟩)
      rw [Instruction.quits, known]
      rfl
    · refine .inr (.inr ⟨?_, ?_, ?_⟩)
      · rw [← Bool.not_eq_true, ← Instruction.parse_eq_none_iff, parsed]
        cases Instruction.ofVerb verb (Instruction.splitVerb line).2 <;> simp [Except.map]
      · simpa [Instruction.quits, known] using quit
      · rw [told]
        exact session.exists_line_interpretVerb quit _

end Session

/-! ## Lines one after another -/

namespace Shell

variable {ν : Type}

/-- A line that was given to a shell, and what the shell made of it. -/
structure Turn (ν : Type) where
  before : Shell ν
  line : Bytes
  result : Except Error Flow
  after : Shell ν

/-- Lines given to a shell one after another. -/
def turns [Network ν] (shell : Shell ν) : List Bytes → List (Turn ν)
  | [] => []
  | line :: lines =>
    ⟨shell, line, (shell.execute line).1, shell.carry line⟩ :: (shell.carry line).turns lines

/-- What a shell makes of a line on an output that never fails. -/
structure Turn.Answered (turn : Turn ν) : Prop where
  /-- Whatever goes wrong is no failure of the shell. -/
  returns : ∃ flow, turn.result = .ok flow
  quits_iff : turn.result = .ok .quit ↔
    ∃ word ∈ ["quit", "exit"],
      Ascii.sameIgnoringCase (Utf8.encode word) (Token.next turn.line).1 = true
  left : turn.result = .ok .quit → turn.after.session.isConnected = false
  blank : Token.allBlank turn.line = true → turn.after.out = turn.before.out
  quit : turn.result = .ok .quit → turn.after.out.log = .flush :: turn.before.out.log
  /-- Any other line is answered by a line, with one flush behind the whole of it. -/
  told : turn.result ≠ .ok .quit → Token.allBlank turn.line = false →
    ∃ (text : Bytes) (portions : List Bytes), portions.flatten = text ++ [Bytes.lineFeed] ∧
      turn.after.out.log =
        .flush :: ((portions.map Sink.Event.took).reverse ++ turn.before.out.log)

variable [Network ν] {shell : Shell ν}

theorem execute_eq_quit_iff (reliable : shell.out.Reliable) (line : Bytes) :
    (shell.execute line).1 = .ok .quit ↔
      ∃ word ∈ ["quit", "exit"],
        Ascii.sameIgnoringCase (Utf8.encode word) (Token.next line).1 = true := by
  rw [← Instruction.quits_iff, congrArg Prod.fst (execute_of_reliable reliable line).1]
  cases Instruction.quits line <;> simp

/-- Whatever a line comes to, it is answered. -/
theorem answered_of_execute (reliable : shell.out.Reliable) (line : Bytes) :
    Turn.Answered ⟨shell, line, (shell.execute line).1, shell.carry line⟩ := by
  have quits_iff := execute_eq_quit_iff reliable line
  have result := congrArg Prod.fst (execute_of_reliable reliable line).1
  have onward : (Except.ok Flow.goOn : Except Error Flow) ≠ .ok .quit := by simp
  rcases shell.session.interpret_outcome line with
    ⟨blank, told⟩ | ⟨quits, told⟩ | ⟨filled, stays, text, told⟩
  · have executed : shell.execute line = (.ok .goOn, shell) := by rw [execute, told]
    rw [executed] at quits_iff
    rw [carry, executed]
    exact
      { returns := ⟨_, rfl⟩
        quits_iff
        left := fun quit => absurd quit onward
        blank := fun _ => rfl
        quit := fun quit => absurd quit onward
        told := fun _ filled => absurd blank (Bool.eq_false_iff.mp filled) }
  · have executed : shell.execute line =
        (.ok .quit, ⟨shell.session.disconnect.2, shell.out.afterFlush⟩) := by
      rw [execute, told, Sink.flush, reliable.flushed]
      rfl
    have filled : ¬Token.allBlank line = true := by
      intro blank
      cases congrArg Prod.fst (told.symm.trans (shell.session.interpret_of_allBlank blank))
    rw [executed] at quits_iff
    rw [carry, executed]
    exact
      { returns := ⟨_, rfl⟩
        quits_iff
        left := fun _ => (Session.disconnect_eq _).2
        blank := fun blank => absurd blank filled
        quit := fun _ => rfl
        told := fun stays => absurd rfl stays }
  · have printed : (shell.execute line).2.out = (shell.out.send (text ++ [Bytes.lineFeed])).2 := by
      unfold execute
      rcases interpreted : shell.session.interpret line with ⟨outcome, session⟩
      obtain rfl : outcome = .line text := by rw [← told, interpreted]
      rfl
    rw [stays] at result
    have goes : (shell.execute line).1 ≠ .ok .quit := fun quit => onward (result.symm.trans quit)
    obtain ⟨portions, whole, log⟩ := reliable.log_send (text ++ [Bytes.lineFeed])
    exact
      { returns := ⟨_, result⟩
        quits_iff
        left := fun quit => absurd quit goes
        blank := fun blank => absurd blank (Bool.eq_false_iff.mp filled)
        quit := fun quit => absurd quit goes
        told := fun _ _ => ⟨text, portions, whole, (congrArg Sink.log printed).trans log⟩ }

/-- Lines that are given to a shell one after another, on an output that never fails and whatever
the network does, are answered each by itself. No error ends the shell: it is left by `quit` or
`exit` as the first token, which disconnects, prints nothing and flushes once. A blank line leaves
the output alone, and any other line prints a text that ends its line, with one flush behind it. -/
theorem turns_answered (reliable : shell.out.Reliable) (lines : List Bytes) :
    (shell.turns lines).map Turn.line = lines ∧ ∀ turn ∈ shell.turns lines, turn.Answered := by
  induction lines generalizing shell with
  | nil => exact ⟨rfl, List.forall_mem_nil _⟩
  | cons line lines ih =>
    have carried := (execute_of_reliable reliable line).2
    obtain ⟨heard, answered⟩ := @ih (shell.carry line) carried.reliable
    rw [turns]
    constructor
    · rw [List.map_cons, heard]
    · intro turn mem
      cases mem with
      | head => exact answered_of_execute reliable line
      | tail _ later => exact answered turn later

/-- A peer stops in the middle of a value. -/
theorem turns_answered_of_truncated_value :
    let peer : ScriptedPeer :=
      { address := ⟨.loopback, 5000⟩, scripts := [.sends (Utf8.encode "OK 5\nab")] }
    let shell : Shell ScriptedPeer :=
      { session := { network := peer }
        out := { portion := some 3, interruptions := [false, true] } }
    let connect := Utf8.encode "connect 127.0.0.1 5000\n"
    let read := Utf8.encode "read 7\n"
    let blank := Utf8.encode " \n"
    let quit := Utf8.encode " Quit now\n"
    let turns := shell.turns [connect, read, blank, read, quit]
    shell.out.Reliable ∧
      turns.map Turn.line = [connect, read, blank, read, quit] ∧
      (∀ turn ∈ turns, turn.Answered) ∧
      turns.getLast?.map (fun turn => turn.after.out.written) =
        some (Utf8.encode "OK\nERR truncated value from server\nERR not connected\n") ∧
      turns.map (fun turn => turn.after.out.flushes) = [1, 2, 2, 3, 4] := by
  intro peer shell connect read blank quit turns
  have reliable : shell.out.Reliable := ⟨rfl, by decide, rfl⟩
  obtain ⟨heard, answered⟩ := turns_answered reliable [connect, read, blank, read, quit]
  exact ⟨reliable, heard, answered, by decide +kernel, by decide +kernel⟩

end Shell

end WireStore
