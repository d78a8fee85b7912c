import WireStore.Loopback.Scripted
import WireStore.Proofs.Client.Lines
import WireStore.Proofs.Stream.Sinks

/-!
# Frontends are folds

On an output that never fails, a frontend carries out the lines of its input one
after another, up to the first that ends the session: a batch those that are
neither blank nor comments, a dialogue all of them, with a prompt before each.
`run_ends` says with which shell and at what place of the input it comes to its
end; `run_eq_foldl` adds what the two frontends have in common.

Whether a line ends the session can be told from the line (`flow_interpret`), so
the lines that are heard do not depend on what is carried out.
-/

namespace WireStore

/-! ## One line -/

namespace Outcome

def text : Outcome → Bytes
  | .print text => text
  | .nothing | .quit => []

def flow : Outcome → Flow
  | .quit => .quit
  | .nothing | .print _ => .goOn

theorem exists_line_reply (reply : Reply) : ∃ text, Outcome.reply reply = .line text := by
  unfold Outcome.reply
  split
  · exact ⟨_, rfl⟩
  · exact ⟨_, rfl⟩
  · split <;> exact ⟨_, rfl⟩

end Outcome

namespace Session

variable {ν : Type} [Network ν] (session : Session ν) {line : Bytes} {lines : List Bytes}

theorem exists_line_perform {instruction : Instruction} (other : instruction ≠ .quit) :
    ∃ text, (session.perform instruction).1 = .line text := by
  cases instruction with
  | connect host port =>
    simp only [perform]
    split <;> exact ⟨_, rfl⟩
  | disconnect => exact ⟨_, rfl⟩
  | help =>
    -- Only the last line of the text matters, so only that line is decoded.
    have ends : ∃ front, Instruction.helpText = front ++ "  quit | exit | help\n" := ⟨_, rfl⟩
    obtain ⟨front, whole⟩ := ends
    have last : (Utf8.encode "  quit | exit | help\n").getLast? = some Bytes.lineFeed := by
      decide +kernel
    obtain ⟨text, same⟩ := List.getLast?_eq_some_iff.mp last
    refine ⟨Utf8.encode front ++ text, congrArg Outcome.print ?_⟩
    rw [whole, Utf8.encode_append, same, List.append_assoc]
  | quit => exact absurd rfl other
  | request content =>
    simp only [perform]
    split
    · exact Outcome.exists_line_reply _
    · exact ⟨_, rfl⟩

theorem exists_line_interpretVerb {verb : Verb} (other : verb ≠ .quit) (arguments : Bytes) :
    ∃ text, (session.interpretVerb verb arguments).1 = .line text := by
  unfold interpretVerb
  split
  · exact ⟨_, rfl⟩
  · cases made : Instruction.ofVerb verb arguments with
    | error reason => exact ⟨_, rfl⟩
    | ok instruction =>
      apply session.exists_line_perform
      rintro rfl
      exact other (Instruction.ofVerb_eq_quit_iff.mp made)

theorem flow_interpretVerb (verb : Verb) (arguments : Bytes) :
    (session.interpretVerb verb arguments).1.flow = if verb = .quit then .quit else .goOn := by
  by_cases quit : verb = .quit
  · subst quit
    rfl
  · obtain ⟨text, told⟩ := session.exists_line_interpretVerb quit arguments
    rw [told, if_neg quit]
    rfl

/-- Which lines end the session does not depend on the session. -/
theorem flow_interpret (line : Bytes) :
    (session.interpret line).1.flow = if Instruction.quits line then .quit else .goOn := by
  unfold interpret Instruction.quits
  rcases split : Instruction.splitVerb line with ⟨token, arguments⟩
  simp only
  by_cases empty : token = []
  · subst empty
    rfl
  · rw [if_neg (by simpa using empty)]
    cases known : Verb.parse? token with
    | none => rfl
    | some verb => simp [flow_interpretVerb]

/-- A blank line does nothing. -/
theorem interpret_of_allBlank (blank : Token.allBlank line = true) :
    session.interpret line = (.nothing, session) := by
  have empty := (Instruction.splitVerb_eq_nil_iff line).mpr blank
  unfold interpret
  rcases split : Instruction.splitVerb line with ⟨token, arguments⟩
  obtain rfl : token = [] := by rw [← empty, split]
  rfl

def after (session : Session ν) (lines : List Bytes) : Session ν :=
  lines.foldl (fun session line => (session.interpret line).2) session

/-- What is printed for each of some lines. -/
def texts (session : Session ν) : List Bytes → List Bytes
  | [] => []
  | line :: lines =>
    let (outcome, after) := session.interpret line
    outcome.text :: after.texts lines

/-- Where there are no comments, a batch does and prints what a dialogue does. -/
theorem after_commands (plain : ∀ line ∈ lines, line.head? ≠ some 35) :
    session.after (lines.filter Instruction.isCommand) = session.after lines ∧
      (session.texts (lines.filter Instruction.isCommand)).flatten =
        (session.texts lines).flatten := by
  induction lines generalizing session with
  | nil => exact ⟨rfl, rfl⟩
  | cons line lines ih =>
    obtain ⟨same, printed⟩ := ih (session.interpret line).2
      fun other mem => plain other (List.mem_cons_of_mem _ mem)
    by_cases command : Instruction.isCommand line = true
    · rw [List.filter_cons_of_pos command]
      refine ⟨same, ?_⟩
      simp only [texts, List.flatten_cons, printed]
    · have blank : Token.allBlank line = true := by
        have here := plain line List.mem_cons_self
        simpa [Instruction.isCommand, here] using command
      have nothing := session.interpret_of_allBlank blank
      rw [List.filter_cons_of_neg command]
      simp only [nothing] at same printed
      simp only [after, texts, List.foldl_cons, List.flatten_cons, nothing, Outcome.text,
        List.nil_append] at same ⊢
      exact ⟨same, printed⟩

end Session

namespace Shell

variable {ν : Type} {shell mid last : Shell ν} {session : Session ν} {text front back : Bytes}

/-- Holds of what a shell becomes by printing this text on an output that never fails, with this
session. -/
structure Reaches (shell : Shell ν) (session : Session ν) (text : Bytes) (last : Shell ν) :
    Prop where
  session : last.session = session
  reliable : last.out.Reliable
  written : last.out.written = shell.out.written ++ text

theorem Reaches.refl (reliable : shell.out.Reliable) : shell.Reaches shell.session [] shell :=
  ⟨rfl, reliable, (List.append_nil _).symm⟩

theorem Reaches.trans {other : Session ν} (first : shell.Reaches session front mid)
    (second : mid.Reaches other back last) : shell.Reaches other (front ++ back) last where
  session := second.session
  reliable := second.reliable
  written := by rw [second.written, first.written, List.append_assoc]

theorem reaches_of_send (reliable : shell.out.Reliable) (session : Session ν) (text : Bytes) :
    ∃ out, shell.out.send text = (.ok (), out) ∧ shell.Reaches session text ⟨session, out⟩ := by
  obtain ⟨out, sent, sound, written⟩ := reliable.send text
  exact ⟨out, sent, rfl, sound, written⟩

theorem reaches_of_flush (reliable : shell.out.Reliable) (session : Session ν) :
    ∃ out, shell.out.flush = (.ok (), out) ∧ shell.Reaches session [] ⟨session, out⟩ := by
  obtain ⟨out, flushed, sound, written⟩ := reliable.flush
  refine ⟨out, flushed, rfl, sound, ?_⟩
  rw [List.append_nil]
  exact written

variable [Network ν]

def carry (shell : Shell ν) (line : Bytes) : Shell ν := (shell.execute line).2

theorem execute_of_reliable (reliable : shell.out.Reliable) (line : Bytes) :
    let told := shell.session.interpret line
    shell.execute line =
        (.ok (if Instruction.quits line then .quit else .goOn), shell.carry line) ∧
      shell.Reaches told.2 told.1.text (shell.carry line) := by
  rw [← shell.session.flow_interpret line]
  unfold carry execute
  rcases shell.session.interpret line with ⟨_ | text | _, session⟩
  · exact ⟨rfl, rfl, reliable, (List.append_nil _).symm⟩
  · obtain ⟨out, sent, reaches⟩ := shell.reaches_of_send reliable session text
    simp only [sent]
    exact ⟨rfl, reaches⟩
  · obtain ⟨out, flushed, reaches⟩ := shell.reaches_of_flush reliable session
    simp only [flushed]
    exact ⟨rfl, reaches⟩

theorem finish_of_reliable (reliable : shell.out.Reliable) :
    shell.finish = (.ok (), shell.finish.2) ∧
      shell.Reaches shell.session.disconnect.2 [] shell.finish.2 := by
  obtain ⟨out, flushed, reaches⟩ := shell.reaches_of_flush reliable shell.session.disconnect.2
  unfold finish
  simp only [flushed]
  exact ⟨rfl, reaches⟩

end Shell

namespace Frontend

variable {ν : Type} {frontend : Frontend} {shell : Shell ν} {input rest : Source}

/-! ## What a frontend adds -/

/-- What a frontend shows when it awaits a line. -/
def cue : Frontend → Bytes
  | .batch => []
  | .dialogue => Utf8.encode prompt

/-- The shell when a line is awaited. -/
def awaiting (frontend : Frontend) (shell : Shell ν) : Shell ν :=
  match frontend with
  | .batch => shell
  | .dialogue => { shell with out := (shell.out.send (Utf8.encode prompt)).2 }

/-- What a frontend shows when there is no further line. -/
def parting : Frontend → Bytes
  | .batch => []
  | .dialogue => [Bytes.lineFeed]

/-- The shell when a line was awaited and there is none. -/
def closing (frontend : Frontend) (shell : Shell ν) : Shell ν :=
  match frontend with
  | .batch => shell
  | .dialogue => { shell with out := (shell.out.writeAll [Bytes.lineFeed]).2 }

theorem beforeLine_of_reliable (frontend : Frontend) (reliable : shell.out.Reliable) :
    frontend.beforeLine shell = (.ok (), frontend.awaiting shell) ∧
      shell.Reaches shell.session frontend.cue (frontend.awaiting shell) := by
  cases frontend with
  | batch => exact ⟨rfl, .refl reliable⟩
  | dialogue =>
    obtain ⟨out, sent, reaches⟩ :=
      shell.reaches_of_send reliable shell.session (Utf8.encode prompt)
    unfold beforeLine awaiting
    simp only [sent]
    exact ⟨rfl, reaches⟩

variable [Network ν]

/-- The lines that are carried out. -/
def attended (frontend : Frontend) (lines : List Bytes) : List Bytes :=
  match frontend with
  | .batch => lines.filter Instruction.isCommand
  | .dialogue => lines

def told (frontend : Frontend) (shell : Shell ν) (lines : List Bytes) : Shell ν :=
  (frontend.attended lines).foldl (fun shell line => (frontend.awaiting shell).carry line) shell

theorem atEnd_of_reliable (frontend : Frontend) (reliable : shell.out.Reliable) :
    frontend.atEnd shell = (.ok (), (frontend.closing shell).finish.2) ∧
      shell.Reaches shell.session frontend.parting (frontend.closing shell) := by
  cases frontend with
  | batch => exact ⟨(Shell.finish_of_reliable reliable).1, .refl reliable⟩
  | dialogue =>
    obtain ⟨out, wrote, sound, written⟩ := reliable.writeAll [Bytes.lineFeed]
    unfold atEnd closing
    simp only [wrote]
    exact ⟨(Shell.finish_of_reliable sound).1, rfl, sound, written⟩

theorem told_nil (frontend : Frontend) (shell : Shell ν) : frontend.told shell [] = shell := by
  cases frontend <;> rfl

theorem told_cons (frontend : Frontend) (shell : Shell ν) (line : Bytes) (lines : List Bytes) :
    frontend.told shell (line :: lines) = frontend.told (frontend.told shell [line]) lines := by
  unfold told
  rw [← List.foldl_append]
  cases frontend with
  | batch => rw [attended, attended, attended, ← List.filter_append, List.singleton_append]
  | dialogue => rfl

theorem onLine_of_reliable (frontend : Frontend) (reliable : shell.out.Reliable) (line : Bytes) :
    frontend.onLine (frontend.awaiting shell) line =
      (.ok (if Instruction.quits line then .quit else .goOn), frontend.told shell [line]) := by
  have ready := (frontend.beforeLine_of_reliable reliable).2.reliable
  have executed := (Shell.execute_of_reliable ready line).1
  cases frontend with
  | dialogue => exact executed
  | batch =>
    unfold onLine told
    simp only [Instruction.isSkipped_eq, attended]
    by_cases command : Instruction.isCommand line = true
    · rw [List.filter_cons_of_pos command]
      simp only [command, Bool.not_true, Bool.false_eq_true, if_false]
      exact executed
    · rw [List.filter_cons_of_neg command]
      have heard : Instruction.quits line = false := by
        rw [← Bool.not_eq_true]
        exact fun quit => command (Instruction.isCommand_of_quits quit)
      simp only [heard, command, Bool.not_false, Bool.false_eq_true, if_true, if_false]
      rfl

theorem told_reaches (frontend : Frontend) (reliable : shell.out.Reliable) (lines : List Bytes) :
    shell.Reaches (shell.session.after (frontend.attended lines))
      ((shell.session.texts (frontend.attended lines)).flatMap (frontend.cue ++ ·))
      (frontend.told shell lines) := by
  unfold told
  generalize frontend.attended lines = attended
  induction attended generalizing shell with
  | nil => exact .refl reliable
  | cons line others ih =>
    obtain ⟨-, cued⟩ := frontend.beforeLine_of_reliable reliable
    obtain ⟨-, carried⟩ := Shell.execute_of_reliable cued.reliable line
    have later := @ih ((frontend.awaiting shell).carry line) carried.reliable
    rw [cued.session] at carried
    rw [carried.session] at later
    have all := (cued.trans carried).trans later
    simpa only [Session.after, Session.texts, List.foldl_cons, List.flatMap_cons] using all

/-- Where there are no comments, what a batch passes over makes no difference. -/
theorem attended_of_plain (frontend : Frontend) (session : Session ν) {lines : List Bytes}
    (plain : ∀ line ∈ lines, line.head? ≠ some 35) :
    session.after (frontend.attended lines) = session.after lines ∧
      (session.texts (frontend.attended lines)).flatMap (frontend.cue ++ ·) =
        (session.texts lines).flatMap (frontend.cue ++ ·) := by
  cases frontend with
  | dialogue => exact ⟨rfl, rfl⟩
  | batch =>
    obtain ⟨same, printed⟩ := session.after_commands plain
    refine ⟨same, ?_⟩
    have uncued (texts : List Bytes) : texts.flatMap (cue .batch ++ ·) = texts.flatten :=
      congrArg List.flatten (List.map_id texts)
    rw [uncued, uncued]
    exact printed

/-! ## To the end -/

/-- How a frontend comes to its end with a shell that was told what was heard of its input. -/
inductive Ends (frontend : Frontend) (told : Shell ν) (heard : List Bytes) (input : Source) :
    Finished ν → Prop where
  /-- A line ended the session, and nothing behind it was read. -/
  | quit {rest : Source} (asked : heard.any Instruction.quits = true)
      (unread : input.signals = Signal.octets heard.flatten ++ rest.signals) :
      Ends frontend told heard input ⟨.ok (), told.finish.2, rest⟩
  | ended (rest : Source) (going : heard.any Instruction.quits = false)
      (faultless : input.firstFault? = none) :
      Ends frontend told heard input
        ⟨.ok (), (frontend.closing (frontend.awaiting told)).finish.2, rest⟩
  /-- The input failed where a line was awaited. -/
  | failed (rest : Source) {reason : Fault} (going : heard.any Instruction.quits = false)
      (faulty : input.firstFault? = some reason) :
      Ends frontend told heard input ⟨.error (.io reason), frontend.awaiting told, rest⟩

variable {before after told : Shell ν} {line : Bytes} {heard : List Bytes} {reason : Fault}
  {finished : Finished ν}

theorem run_of_line {flow : Flow} (ready : frontend.beforeLine shell = (.ok (), before))
    (next : nextLine input = (.ok (some line), rest))
    (done : frontend.onLine before line = (.ok flow, after)) :
    run frontend shell input =
      if flow = .quit then stop after.finish rest else run frontend after rest := by
  rw [run, ready]
  simp only
  split
  all_goals
    rename_i found
    cases found.symm.trans next
  rw [done]
  cases flow <;> rfl

theorem run_of_end (ready : frontend.beforeLine shell = (.ok (), before))
    (next : nextLine input = (.ok none, rest)) :
    run frontend shell input = stop (frontend.atEnd before) rest := by
  rw [run, ready]
  simp only
  split
  all_goals
    rename_i found
    cases found.symm.trans next
  rfl

theorem run_of_fault (ready : frontend.beforeLine shell = (.ok (), before))
    (next : nextLine input = (.error (.io reason), rest)) :
    run frontend shell input = ⟨.error (.io reason), before, rest⟩ := by
  rw [run, ready]
  simp only
  split
  all_goals
    rename_i found
    cases found.symm.trans next
  rfl

/-- A frontend that comes to an end behind a further line does so before it as well. -/
theorem Ends.cons (ends : Ends frontend told heard rest finished)
    (going : Instruction.quits line = false)
    (signals : input.signals = Signal.octets line ++ rest.signals)
    (faults : input.firstFault? = rest.firstFault?) :
    Ends frontend told (line :: heard) input finished := by
  cases ends with
  | quit asked unread =>
    refine .quit (by rw [List.any_cons, asked, Bool.or_true]) ?_
    rw [signals, unread, List.flatten_cons, Signal.octets_append, List.append_assoc]
  | ended rest still faultless =>
    exact .ended rest (by rw [List.any_cons, going, still]; rfl) (faults.trans faultless)
  | failed rest still faulty =>
    exact .failed rest (by rw [List.any_cons, going, still]; rfl) (faults.trans faulty)

/-- A frontend is told the lines of its input one after another, up to the first that ends the
session. -/
theorem run_ends (frontend : Frontend) (reliable : shell.out.Reliable) (input : Source) :
    let heard := Instruction.untilQuit input.lines
    Ends frontend (frontend.told shell heard) heard input (run frontend shell input) := by
  generalize all : input.lines = lines
  induction lines generalizing shell input with
  | nil =>
    have ready := (frontend.beforeLine_of_reliable reliable).1
    simp only [Instruction.untilQuit, told_nil]
    rcases nextLine_cases input with ⟨line, rest, -, -, same, -⟩ | ⟨rest, next, -, faultless⟩ |
      ⟨reason, rest, next, -, faulty⟩
    · exact nomatch all.symm.trans same
    · have sound := (frontend.beforeLine_of_reliable reliable).2.reliable
      rw [run_of_end ready next, (frontend.atEnd_of_reliable sound).1]
      exact .ended rest rfl faultless
    · rw [run_of_fault ready next]
      exact .failed rest rfl faulty
  | cons line lines ih =>
    have ready := (frontend.beforeLine_of_reliable reliable).1
    rcases nextLine_cases input with ⟨first, rest, next, signals, same, faults⟩ |
      ⟨rest, -, same, -⟩ | ⟨reason, rest, -, same, -⟩
    · obtain ⟨rfl, rfl⟩ := List.cons.inj (same.symm.trans all)
      have sound := (frontend.told_reaches reliable [first]).reliable
      have done := frontend.onLine_of_reliable reliable first
      rw [run_of_line ready next done, Instruction.untilQuit]
      by_cases quit : Instruction.quits first = true
      · simp only [quit, if_true]
        rw [(Shell.finish_of_reliable sound).1, stop]
        refine .quit (by rw [List.any_cons, quit]; rfl) ?_
        rw [signals, List.flatten_cons, List.flatten_nil, List.append_nil]
      · have going : Instruction.quits first = false := by simpa using quit
        simp only [going, Bool.false_eq_true, if_false, reduceCtorEq]
        rw [told_cons]
        exact (ih sound rest rfl).cons going signals faults
    · exact nomatch all.symm.trans same
    · exact nomatch all.symm.trans same

/-- The session when a frontend has come to its end: it is given up unless the input failed. -/
def leave (heard : List Bytes) (input : Source) (session : Session ν) : Session ν :=
  if !heard.any Instruction.quits && input.firstFault?.isSome then session
  else session.disconnect.2

/-- What a frontend shows after the last line that it heard. -/
def epilogue (frontend : Frontend) (heard : List Bytes) (input : Source) : Bytes :=
  if heard.any Instruction.quits then []
  else if input.firstFault?.isSome then frontend.cue
  else frontend.cue ++ frontend.parting

theorem Ends.result_eq (ends : Ends frontend told heard input finished) :
    finished.result =
      if heard.any Instruction.quits then .ok ()
      else input.firstFault?.elim (.ok ()) fun reason => .error (.io reason) := by
  cases ends with
  | quit asked unread => rw [if_pos asked]
  | ended rest going faultless => rw [going, faultless]; rfl
  | failed rest going faulty => rw [going, faulty]; rfl

theorem Ends.unread (ends : Ends frontend told heard input finished)
    (asked : heard.any Instruction.quits = true) :
    input.signals = Signal.octets heard.flatten ++ finished.rest.signals := by
  cases ends with
  | quit asked unread => exact unread
  | ended rest going | failed rest going => exact nomatch asked.symm.trans going

theorem Ends.reaches (ends : Ends frontend told heard input finished) (reliable : told.out.Reliable) :
    told.Reaches (leave heard input told.session) (frontend.epilogue heard input)
      finished.shell := by
  obtain ⟨-, cued⟩ := frontend.beforeLine_of_reliable reliable
  unfold leave epilogue
  cases ends with
  | quit asked unread =>
    rw [asked]
    exact (Shell.finish_of_reliable reliable).2
  | ended rest going faultless =>
    obtain ⟨-, closed⟩ := frontend.atEnd_of_reliable cued.reliable
    have finished := (Shell.finish_of_reliable closed.reliable).2
    rw [closed.session, cued.session] at finished
    rw [cued.session] at closed
    have all := (cued.trans closed).trans finished
    rw [List.append_nil] at all
    rw [going, faultless]
    exact all
  | failed rest going faulty =>
    rw [going, faulty]
    exact cued

end Frontend

end WireStore
