import WireStore.Loopback.Scripted
import WireStore.Proofs.Client.Deeds
import WireStore.Proofs.Client.Frontends
import WireStore.Proofs.Text.Validity

/-!
# Refusals as they are shown

A line that refuses is taken apart into a message by one function and put together again by another.
`Refuses` relates lines to messages, and the two functions are inverse to each other on it but for
one line: the word with a space and nothing behind it has the message of the bare word
(`announcement_of_refuses`, `reply_of_refuses`).

So a shell prints a refusal as it came (`execute_prints_refusal`), whatever text follows the word
and however the line ends, and keeps the connection. Only that one line loses its space
(`refusal_not_verbatim`).
-/

namespace WireStore

variable {limits : Limits} {line reply ending : Bytes} {message : String} {source : Source}
  {more : List Signal}

namespace Reply

/-! ## Lines that refuse -/

/-- Holds of a line and the message that its reader finds in it. -/
inductive Refuses : Bytes → String → Prop where
  | bare : Refuses errorWord ""
  | text (message : String) : Refuses (errorWord ++ 32 :: Utf8.encode message) message

/-- Holds of the lines that refuse and that a reader with these limits is given whole. -/
structure Refusing (limits : Limits) (line : Bytes) : Prop where
  valid : Utf8.isValid line = true
  unbroken : line.Unbroken
  clean : line.getLast? ≠ some Bytes.carriageReturn
  short : line.length ≤ limits.maxHeaderLength
  begins : line = errorWord ∨ (errorWord ++ [32]) <+: line

theorem Refusing.refuses (refusing : Refusing limits line) : ∃ message, Refuses line message := by
  rcases refusing.begins with rfl | ⟨rest, rfl⟩
  · exact ⟨"", .bare⟩
  · have ascii : ∀ octet ∈ errorWord ++ [32], octet.toNat < 0x80 := by decide +kernel
    obtain ⟨message, rfl⟩ := Utf8.isValid_iff.mp (Utf8.isValid_of_append ascii refusing.valid)
    refine ⟨message, ?_⟩
    rw [List.append_assoc]
    exact .text message

theorem announcement_of_refuses (refuses : Refuses line message) :
    announcement line = .error message := by
  cases refuses with
  | bare => rfl
  | text =>
    have field : announcement (errorWord ++ 32 :: Utf8.encode message) =
        .error (Utf8.lossy (Utf8.encode message)) := rfl
    rw [field, Utf8.lossy_encode]

/-- The line as it is shown. -/
def shown (line : Bytes) : Bytes :=
  if line = errorWord ++ [32] then errorWord else line

theorem reply_of_refuses (refuses : Refuses line message) :
    Outcome.reply (.error message) = .line (shown line) := by
  cases refuses with
  | bare => rfl
  | text =>
    by_cases empty : message = ""
    · subst empty
      rfl
    · have filled : message.isEmpty = false := by simpa using empty
      have said : Utf8.encode message ≠ [] := by
        intro nothing
        apply empty
        rw [← Utf8.lossy_encode message, nothing]
        rfl
      have other : errorWord ++ 32 :: Utf8.encode message ≠ errorWord ++ [32] := by
        intro same
        exact said (List.cons.inj (List.append_cancel_left same)).2
      simp only [Outcome.reply, filled, Bool.false_eq_true, if_false]
      rw [shown, if_neg other, Utf8.encode_append]
      rfl

/-! ## Refusals that arrive -/

theorem read_of_refusing (alloc : Allocator) (refusing : Refusing limits line)
    (refuses : Refuses line message)
    (ends : ending = [Bytes.lineFeed] ∨ ending = [Bytes.carriageReturn, Bytes.lineFeed])
    (arrives : source.signals = Signal.octets (line ++ ending) ++ more) :
    ∃ rest, read alloc limits source = (.ok (.error message), rest) ∧ rest.signals = more := by
  obtain ⟨rest, found, left⟩ := Line.read_of_ending limits.maxHeaderLength refusing.unbroken
    refusing.clean refusing.short ends arrives
  refine ⟨rest, ?_, left⟩
  unfold read
  rw [found]
  simp only [readAfterLine, announcement_of_refuses refuses]

end Reply

/-! ## Refusals that are printed -/

section Printed

variable {ν : Type} [Network ν] {session : Session ν} {shell : Shell ν} {link : Link}
  {content : Request} {arrived : Source} {network : ν}

/-- The reply to a request refuses: it is shown, and the link is kept. -/
theorem Session.interpret_of_refusing (linked : session.link = some link)
    (parsed : Instruction.parse line = .ok (some (.request content)))
    (sent : Network.send session.network content.encode = (.ok arrived, network))
    (refusing : Reply.Refusing session.limits reply)
    (ends : ending = [Bytes.lineFeed] ∨ ending = [Bytes.carriageReturn, Bytes.lineFeed])
    (arrives : (link.incoming ++ arrived).signals = Signal.octets (reply ++ ending) ++ more) :
    ∃ rest, rest.signals = more ∧
      session.interpret line =
        (.line (Reply.shown reply),
          { session with network, link := some { link with incoming := rest } }) := by
  obtain ⟨message, refuses⟩ := refusing.refuses
  obtain ⟨rest, read, left⟩ := Reply.read_of_refusing session.alloc refusing refuses ends arrives
  refine ⟨rest, left, ?_⟩
  rw [session.interpret_of_parse parsed, perform, request_of_sent session linked sent, receive,
    read]
  exact congrArg (·, _) (Reply.reply_of_refuses refuses)

/-- A connected shell whose request is answered by a line that refuses, ended in either way, prints
that line as it came, on whatever output, and keeps the connection, of which it has read that line
and no more. The exception is the word with one space behind it, which is printed without the
space. -/
theorem Shell.execute_prints_refusal (linked : shell.session.link = some link)
    (parsed : Instruction.parse line = .ok (some (.request content)))
    (sent : Network.send shell.session.network content.encode = (.ok arrived, network))
    (refusing : Reply.Refusing shell.session.limits reply)
    (ends : ending = [Bytes.lineFeed] ∨ ending = [Bytes.carriageReturn, Bytes.lineFeed])
    (arrives : (link.incoming ++ arrived).signals = Signal.octets (reply ++ ending) ++ more) :
    let shown := if reply = Utf8.encode "ERR " then Utf8.encode "ERR" else reply
    let printed := shell.out.send (shown ++ [Bytes.lineFeed])
    ∃ rest session, rest.signals = more ∧
      session = { shell.session with network, link := some { link with incoming := rest } } ∧
      shell.execute line = (printing .goOn printed.1, ⟨session, printed.2⟩) ∧
      (shell.out.Reliable →
        (shell.execute line).1 = .ok .goOn ∧
          (shell.execute line).2.out.written =
            shell.out.written ++ (shown ++ [Bytes.lineFeed])) := by
  intro shown printed
  obtain ⟨rest, left, told⟩ :=
    Session.interpret_of_refusing linked parsed sent refusing ends arrives
  let session : Session ν :=
    { shell.session with network, link := some { link with incoming := rest } }
  have executed : shell.execute line = (printing .goOn printed.1, ⟨session, printed.2⟩) := by
    rw [execute, told]
    rfl
  refine ⟨rest, session, left, rfl, executed, fun reliable => ?_⟩
  obtain ⟨after, wrote, -, written⟩ := reliable.send (shown ++ [Bytes.lineFeed])
  have parts : printed = (.ok (), after) := wrote
  rw [executed, parts]
  exact ⟨rfl, written⟩

end Printed

namespace Shell

/-- A message that begins with a space, on a line that ends with a carriage return and a line
feed. -/
theorem execute_prints_refusal_of_spaced_message :
    let address : Address := ⟨.loopback, 5000⟩
    let reply := Utf8.encode "ERR  é\t"
    let source : Source := .ofBytes (reply ++ [13, 10] ++ Utf8.encode "OK\n")
    let shell : Shell ScriptedPeer :=
      { session := { network := { address, scripts := [] }, link := some ⟨address, source⟩ }
        out := { portion := some 2, interruptions := [false, true] } }
    let asked := shell.execute (Utf8.encode "read 1\n")
    asked.1 = .ok .goOn ∧ asked.2.out.written = reply ++ [Bytes.lineFeed] ∧
      asked.2.session.link.map (·.incoming.signals) =
        some (Signal.octets (Utf8.encode "OK\n")) := by
  intro address reply source shell asked
  have refusing : Reply.Refusing shell.session.limits reply :=
    ⟨by decide +kernel, by decide +kernel, by decide +kernel, by decide +kernel,
      .inr ⟨Utf8.encode " é\t", by decide +kernel⟩⟩
  have reliable : shell.out.Reliable := ⟨rfl, by decide, rfl⟩
  have other : reply ≠ Utf8.encode "ERR " := by decide +kernel
  have parsed : Instruction.parse (Utf8.encode "read 1\n") = .ok (some (.request (.read 1))) := by
    decide +kernel
  have arrives : (source ++ .ended).signals =
      Signal.octets (reply ++ [13, 10]) ++ Signal.octets (Utf8.encode "OK\n") := by
    decide +kernel
  have linked : shell.session.link = some ⟨address, source⟩ := rfl
  have sent : Network.send shell.session.network (Request.read 1).encode =
      (.ok .ended, shell.session.network.note (Request.read 1).encode) := rfl
  obtain ⟨rest, session, left, rfl, executed, printed⟩ :=
    execute_prints_refusal linked parsed sent refusing (.inr rfl) arrives
  rw [if_neg other] at executed printed
  rw [executed] at printed
  have whole : asked = _ := executed
  have nothing : shell.out.written = [] := rfl
  obtain ⟨result, written⟩ := printed reliable
  rw [nothing, List.nil_append] at written
  rw [whole]
  exact ⟨result, written, congrArg some left⟩

/-- A peer refuses without a message, but with the space that its message would follow. Its reader
takes the line for the bare word, so the space is not printed. -/
theorem refusal_not_verbatim :
    let peer : ScriptedPeer :=
      { address := ⟨.loopback, 5000⟩, scripts := [.sends (Utf8.encode "ERR \n")] }
    let start : Shell ScriptedPeer := { session := { network := peer } }
    let shell := (start.execute (Utf8.encode "connect 127.0.0.1 5000\n")).2
    let asked := shell.execute (Utf8.encode "read 1\n")
    let reply := Utf8.encode "ERR "
    Reply.Refusing shell.session.limits reply ∧ shell.out.Reliable ∧
      shell.session.link.map (·.incoming.bytes) = some (reply ++ [Bytes.lineFeed]) ∧
      Reply.announcement reply = Reply.announcement (Utf8.encode "ERR") ∧
      asked.1 = .ok .goOn ∧ asked.2.session.isConnected = true ∧
      asked.2.out.written = shell.out.written ++ Utf8.encode "ERR\n" ∧
      asked.2.out.written ≠ shell.out.written ++ (reply ++ [Bytes.lineFeed]) := by
  intro peer start shell asked reply
  have refusing : Reply.Refusing shell.session.limits reply :=
    ⟨by decide +kernel, by decide +kernel, by decide +kernel, by decide +kernel,
      .inr ⟨[], by decide +kernel⟩⟩
  have ready : start.out.Reliable := ⟨rfl, by decide, rfl⟩
  have reliable : shell.out.Reliable := (execute_of_reliable ready _).2.reliable
  exact ⟨refusing, reliable, by decide +kernel, by decide +kernel,
    by decide +kernel, by decide +kernel, by decide +kernel, by decide +kernel⟩

end Shell

end WireStore
