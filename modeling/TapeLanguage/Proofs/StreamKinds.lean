import TapeLanguage.Machine.Session
import TapeLanguage.Proofs.Coupling

/-!
# Kinds of input and output

A text, the bytes that encode it, and any division of these bytes into chunks that are not empty are
the same input. What a machine can still read is in each case the bytes that wait and the bytes of
the rest, and as long as no empty chunk pretends to be the end, the next byte is the first of these
(`Supply.fetch_eq_of_bytes`). So machines that have the same bytes left stay in step, and a session
over one of them shows in every call what a session over the other shows (`shownAll_eq`), whatever
the calls leave of a character or of a chunk. Over all its calls a session delivers the bytes of its
input in order and each of them once (`Session.bytes_eq_calls`).

An output of any kind takes the same bytes from a machine: a stream of bytes as they are, with or
without a way to flush it, a text over a buffer through its buffer, and a text as the characters of
these code points (`Output.Takes`). No instruction looks at the output. So machines that differ in
their outputs stay in step, and what one of them has written the other one has taken
(`StreamCoupling.takenBy`). Over any calls a session is followed in the same way whatever its output
is, and all outputs take the same bytes (`followed_whatever_output`).
-/

set_option autoImplicit false

namespace TapeLanguage

/-- The contents of a text are its encoding. -/
theorem Input.contents_toList (t : String) : (text t.toList).contents = t.toUTF8.data.toList := by
  rw [contents_text, String.toUTF8, ← String.utf8Encode_toList, List.utf8Encode,
    List.data_toByteArray]

/-- The machines have the same bytes left, and they have written the same. -/
def StreamCoupling.sameBytes : StreamCoupling :=
  { StreamCoupling.same with
    supply := fun s s' => s.input.Steady ∧ s'.input.Steady ∧ s'.bytes = s.bytes
    fetch := by
      rintro s s' ⟨h, h', hbytes⟩
      obtain ⟨hfirst, hrest⟩ := Supply.fetch_eq_of_bytes h h' hbytes
      exact ⟨hfirst, Supply.steady_fetch h, Supply.steady_fetch h', hrest⟩ }

/-! ## Calls -/

/-- A call that executes instructions. -/
inductive Call where
  /-- Run a program from its beginning. -/
  | run (program : Program.Decoding)
  /-- Execute one instruction. -/
  | apply (instruction : Instruction)

/-- A call as a command. -/
def Call.command : Call → Command
  | run program => .run program
  | apply instruction => .apply instruction

/-- What is seen of a call. -/
structure Shown where
  /-- The answer or the error. -/
  result : Option (Except Error Answer)
  /-- The bytes that are delivered to the input instructions, in order. -/
  delivered : List UInt8
  /-- The tape after the call. -/
  tape : Tape
  /-- What has been written until after the call. -/
  output : Output

namespace Session

/-- The bytes that a call delivers to the input instructions it executes. -/
def delivered (fuel : Nat) (traced : Bool) (s : Session) : Call → List UInt8
  | .run program =>
    match program.outcome with
    | .ok p =>
      (Run.start s.machine p (Trace.ofCreated traced program.created)).delivered p traced fuel
    | .error _ => []
  | .apply instruction => s.machine.taken instruction

/-- The session after a call. -/
def afterCall (fuel : Nat) (traced : Bool) (s : Session) (call : Call) : Session :=
  (s.perform fuel traced call.command).session

/-- What is seen of a call. -/
def shown (fuel : Nat) (traced : Bool) (s : Session) (call : Call) : Shown where
  result := (s.perform fuel traced call.command).result
  delivered := s.delivered fuel traced call
  tape := (s.afterCall fuel traced call).machine.tape
  output := (s.afterCall fuel traced call).machine.output

/-- What is seen of calls one after another. -/
def shownAll (fuel : Nat) (traced : Bool) : Session → List Call → List Shown
  | _, [] => []
  | s, call :: rest =>
    s.shown fuel traced call :: shownAll fuel traced (s.afterCall fuel traced call) rest

/-- The session after calls. -/
def afterCalls (fuel : Nat) (traced : Bool) (s : Session) (calls : List Call) : Session :=
  calls.foldl (afterCall fuel traced) s

/-! ## Every byte once -/

/-- What a call delivers and what it leaves is what was there before. -/
theorem bytes_eq_call (fuel : Nat) (traced : Bool) (s : Session) (call : Call) :
    s.machine.supply.bytes =
      s.delivered fuel traced call ++ (s.afterCall fuel traced call).machine.supply.bytes := by
  cases call with
  | run program =>
    simp only [delivered, afterCall, Call.command, perform]
    cases program.outcome with
    | ok p => exact Run.bytes_eq_delivered p traced fuel (.start s.machine p _)
    | error e => rfl
  | apply instruction =>
    have htaken := s.machine.bytes_eq_taken instruction
    simp only [delivered, afterCall, Call.command, perform]
    cases happly : s.machine.apply instruction with
    | moved next m | stopped fault m =>
      rw [happly] at htaken
      exact htaken

/-- **The bytes that calls deliver are the first ones of what the session could read**, in order and
each of them once. -/
theorem bytes_eq_calls (fuel : Nat) (traced : Bool) (s : Session) (calls : List Call) :
    s.machine.supply.bytes = (s.shownAll fuel traced calls).flatMap Shown.delivered ++
      (s.afterCalls fuel traced calls).machine.supply.bytes := by
  induction calls generalizing s with
  | nil => rfl
  | cons call rest ih =>
    rw [shownAll, List.flatMap_cons, List.append_assoc, afterCalls, List.foldl_cons]
    rw [s.bytes_eq_call fuel traced call]
    exact congrArg (_ ++ ·) (ih (s.afterCall fuel traced call))

end Session

/-! ## Sessions in step -/

namespace Coupling

variable {streams : StreamCoupling}

/-- A run that is in step with another one is answered in the same way. -/
theorem Runs.runAnswer_eq {r r' : Run} (h : (ofStreams streams).Runs r r') :
    Session.runAnswer r' = Session.runAnswer r := by
  have hphase : r'.phase = r.phase := h.phase.trans r.phase.shifted_zero
  have hsteps : r'.machine.steps = r.machine.steps := h.machine.steps
  rw [Session.runAnswer, Session.runAnswer, hphase, hsteps]

/-- A call does the same to sessions whose machines are in step. -/
theorem call_eq {s s' : Session} (h : (ofStreams streams).Machines s.machine s'.machine)
    (fuel : Nat) (traced : Bool) (call : Call) :
    (s'.perform fuel traced call.command).result = (s.perform fuel traced call.command).result ∧
      s'.delivered fuel traced call = s.delivered fuel traced call ∧
      (ofStreams streams).Machines (s.afterCall fuel traced call).machine
        (s'.afterCall fuel traced call).machine := by
  cases call with
  | run program =>
    simp only [Session.delivered, Session.afterCall, Call.command, Session.perform]
    cases program.outcome with
    | ok p =>
      have hruns := h.run p fuel traced traced (Trace.ofCreated traced program.created)
        (Trace.ofCreated traced program.created)
      exact ⟨hruns.runAnswer_eq, h.delivered p fuel traced traced _ _, hruns.machine⟩
    | error e => exact ⟨rfl, rfl, h⟩
  | apply instruction =>
    have hi : (ofStreams streams).Instructions instruction instruction :=
      instructions_ofStreams instruction
    have htaken := h.taken hi
    have houtcomes := h.apply hi
    simp only [Session.delivered, Session.afterCall, Call.command, Session.perform]
    generalize s.machine.apply instruction = o at houtcomes ⊢
    generalize s'.machine.apply instruction = o' at houtcomes ⊢
    cases houtcomes with
    | moved hnext hm =>
      obtain rfl := hnext.trans (Int.add_zero _)
      exact ⟨rfl, htaken, hm⟩
    | stopped hfault hm =>
      obtain rfl := hfault.trans (Fault.shifted_zero _)
      exact ⟨rfl, htaken, hm⟩

end Coupling

/-- Sessions that have the same bytes left show the same in every call. -/
theorem shownAll_eq (fuel : Nat) (traced : Bool) (calls : List Call) {s s' : Session}
    (h : (Coupling.ofStreams .sameBytes).Machines s.machine s'.machine) :
    s'.shownAll fuel traced calls = s.shownAll fuel traced calls := by
  induction calls generalizing s s' with
  | nil => rfl
  | cons call rest ih =>
    obtain ⟨hresult, hdelivered, hafter⟩ := Coupling.call_eq h fuel traced call
    have hshown : s'.shown fuel traced call = s.shown fuel traced call := by
      rw [Session.shown, Session.shown, hresult, hdelivered, hafter.tape,
        show _ = _ from Eq.symm hafter.output]
    rw [Session.shownAll, Session.shownAll, hshown, ih hafter]

/-- A session over two streams that their owner keeps. -/
def Session.over (input : Input) (output : Output) : Session :=
  { machine := Machine.new input output }

/-- A session over an input without early ends is in step with one over the bytes of the input. -/
theorem over_machines (input : Input) (h : input.Steady) (output : Output) :
    (Coupling.ofStreams .sameBytes).Machines (Session.over (.bytes input.contents) output).machine
      (Session.over input output).machine := by
  refine ⟨rfl, rfl, rfl, rfl, rfl, ?_, rfl⟩
  cases input with
  | bytes _ | wrapped _ | codePoints _ | chunks _ => exact ⟨trivial, h, rfl⟩
  | interrupting _ | closed => exact absurd h id

/-- **The kind of the input does not matter.** Sessions over a text of characters, over a text on a
buffer, over the bytes that encode the text, and over any division of these bytes into chunks that
are not empty show the same in every call. Each of them delivers the bytes in order and each byte
once, over all calls together. No other text has an encoding (`Input.steady_codePoints_iff`). -/
theorem shownAll_eq_of_encoding {t : String} {cs : List (List UInt8)}
    (hfull : ∀ chunk ∈ cs, chunk ≠ []) (hflat : cs.flatten = t.toUTF8.data.toList)
    (output : Output) (fuel : Nat) (traced : Bool) (calls : List Call) :
    let encoded := t.toUTF8.data.toList
    ∀ input ∈ [Input.text t.toList, .wrapped encoded, .bytes encoded, .chunks cs],
      let shown := (Session.over input output).shownAll fuel traced calls
      shown = (Session.over (.bytes encoded) output).shownAll fuel traced calls ∧
        encoded = shown.flatMap Shown.delivered ++
          ((Session.over input output).afterCalls fuel traced calls).machine.supply.bytes := by
  intro encoded input hinput
  have hsteady : input.Steady ∧ input.contents = encoded := by
    simp only [List.mem_cons, List.not_mem_nil, or_false] at hinput
    rcases hinput with rfl | rfl | rfl | rfl
    · exact ⟨Input.steady_text _, Input.contents_toList t⟩
    · exact ⟨trivial, rfl⟩
    · exact ⟨trivial, rfl⟩
    · exact ⟨hfull, hflat⟩
  obtain ⟨hsteady, hcontents⟩ := hsteady
  have hstep := over_machines input hsteady output
  constructor
  · rw [← hcontents]
    exact shownAll_eq fuel traced calls hstep
  · rw [← (Session.over input output).bytes_eq_calls fuel traced calls, ← hcontents]
    exact hstep.supply.2.2.symm

/-- A character that is split between two chunks and between two calls. -/
theorem shownAll_eq_of_encoding_split :
    let calls : List Call :=
      [.run (Program.decode (Token.ofText ",")), .apply ⟨.input, 0, 0, none, none, none⟩]
    let shown := fun input => (Session.over input (.bytes #[] 0)).shownAll 2 false calls
    (shown (.bytes [0xC3, 0xA9])).map Shown.delivered = [[0xC3], [0xA9]] ∧
      shown (.chunks [[0xC3], [0xA9]]) = shown (.bytes [0xC3, 0xA9]) ∧
      shown (.text "é".toList) = shown (.bytes [0xC3, 0xA9]) := by
  have hfull : ∀ chunk ∈ [[(0xC3 : UInt8)], [0xA9]], chunk ≠ [] := by decide
  have hflat : [[(0xC3 : UInt8)], [0xA9]].flatten = "é".toUTF8.data.toList := by decide
  have hagree := shownAll_eq_of_encoding hfull hflat (.bytes #[] 0) 2 false
    [.run (Program.decode (Token.ofText ",")), .apply ⟨.input, 0, 0, none, none, none⟩]
  refine ⟨rfl, (hagree (.chunks [[0xC3], [0xA9]]) ?_).1, (hagree (.text "é".toList) ?_).1⟩
  · simp only [List.mem_cons, or_true, true_or]
  · exact List.mem_cons_self

/-! ## Taking bytes -/

namespace Output

/-- An output has taken some bytes since it was in the first state. A text takes a byte as the
character of that code point; how often an output was flushed does not matter. -/
inductive Takes (taken : List UInt8) : Output → Output → Prop
  | bytes (written : Array UInt8) (flushes flushes' : Nat) :
    Takes taken (.bytes written flushes) (.bytes (written ++ taken.toArray) flushes')
  | wrapped (written : Array UInt8) (flushes flushes' : Nat) :
    Takes taken (.wrapped written flushes) (.wrapped (written ++ taken.toArray) flushes')
  | unflushed (written : Array UInt8) :
    Takes taken (.unflushed written) (.unflushed (written ++ taken.toArray))
  | text (written : Array Char) :
    Takes taken (.text written)
      (.text (written ++ (taken.map fun byte => Char.ofNat byte.toNat).toArray))

/-- An output has taken nothing since it is what it was. -/
theorem Takes.refl (o : Output) : Takes [] o o := by
  cases o with
  | bytes written flushes => simpa using @Takes.bytes [] written flushes flushes
  | wrapped written flushes => simpa using @Takes.wrapped [] written flushes flushes
  | unflushed written => simpa using @Takes.unflushed [] written
  | text written => simpa using @Takes.text [] written

variable {taken : List UInt8} {o a : Output}

/-- **One more byte is taken.** -/
theorem Takes.write (h : Takes taken o a) (byte : UInt8) :
    Takes (taken ++ [byte]) o (a.write byte) := by
  cases h with
  | bytes written flushes flushes' =>
    simpa [Output.write] using @Takes.bytes (taken ++ [byte]) written flushes flushes'
  | wrapped written flushes flushes' =>
    simpa [Output.write] using @Takes.wrapped (taken ++ [byte]) written flushes flushes'
  | unflushed written =>
    simpa [Output.write] using @Takes.unflushed (taken ++ [byte]) written
  | text written => simpa [Output.write] using @Takes.text (taken ++ [byte]) written

/-- Flushing takes nothing, where it is possible and where it is not. -/
theorem Takes.flush (h : Takes taken o a) : Takes taken o a.flush := by
  cases h with
  | bytes written flushes flushes' => exact .bytes written flushes (flushes' + 1)
  | wrapped written flushes flushes' => exact .wrapped written flushes (flushes' + 1)
  | unflushed written => exact .unflushed written
  | text written => exact .text written

end Output

/-! ## Machines that differ in their outputs -/

/-- The machines read the same, and the output of the second one, which has begun as `o`, has taken
what the first one has written. -/
def StreamCoupling.takenBy (o : Output) : StreamCoupling :=
  { StreamCoupling.same with
    output := fun a a' => o.Takes a.contents a'
    write := by
      intro a a' byte h
      rw [Output.contents_flush, Output.contents_write]
      exact (h.write byte).flush
    flush := by
      intro a a' h
      rw [Output.contents_flush]
      exact h.flush }

/-- The machine as if it had written nothing. -/
def Machine.unwritten (m : Machine) : Machine :=
  { m with output := .bytes #[] 0 }

/-- Machines in step that read the same differ in their outputs alone. -/
theorem Coupling.Machines.unwritten_eq {streams : StreamCoupling} {m m' : Machine}
    (h : (ofStreams streams).Machines m m') (hsupply : m'.supply = m.supply) :
    m'.unwritten = m.unwritten := by
  obtain ⟨tape, resume, bookmark, steps, program, queue, input, output⟩ := m
  obtain ⟨tape', resume', bookmark', steps', program', queue', input', output'⟩ := m'
  obtain ⟨htape, hresume, hbookmark, hsteps, hprogram, -, -⟩ := h
  obtain rfl : tape' = tape := htape
  obtain rfl : resume' = resume := hresume.trans (List.map_id'' Int.add_zero resume)
  obtain rfl : bookmark = bookmark' := hbookmark
  obtain rfl : steps' = steps := hsteps
  obtain rfl : program = program' := hprogram
  obtain ⟨rfl, rfl⟩ := Supply.mk.inj hsupply
  rfl

/-! ## Sessions -/

namespace Session

/-- What calls lead to: the answer to each of them, and the machine after it but for what it has
written. -/
def followed (fuel : Nat) (traced : Bool) :
    Session → List Call → List (Option (Except Error Answer) × Machine)
  | _, [] => []
  | s, call :: rest =>
    ((s.perform fuel traced call.command).result,
        (s.afterCall fuel traced call).machine.unwritten) ::
      followed fuel traced (s.afterCall fuel traced call) rest

/-- **Calls do the same whatever the output takes.** -/
theorem followed_eq {o : Output} (fuel : Nat) (traced : Bool) (calls : List Call) {s s' : Session}
    (h : (Coupling.ofStreams (.takenBy o)).Machines s.machine s'.machine) :
    s'.followed fuel traced calls = s.followed fuel traced calls ∧
      (Coupling.ofStreams (.takenBy o)).Machines (s.afterCalls fuel traced calls).machine
        (s'.afterCalls fuel traced calls).machine := by
  induction calls generalizing s s' with
  | nil => exact ⟨rfl, h⟩
  | cons call rest ih =>
    obtain ⟨hresult, -, hafter⟩ := Coupling.call_eq h fuel traced call
    obtain ⟨hrest, hlast⟩ := ih hafter
    refine ⟨?_, hlast⟩
    rw [followed, followed, hresult, hafter.unwritten_eq (Eq.symm hafter.supply), hrest]

end Session

/-- Sessions over the same input are in step, and what is written to bytes is taken by any output
that is used directly. -/
theorem over_takenBy (input : Input) (o : Output) :
    (Coupling.ofStreams (.takenBy o.unwrapped)).Machines
      (Session.over input (.bytes #[] 0)).machine (Session.over input o).machine :=
  ⟨rfl, rfl, rfl, rfl, rfl, rfl, .refl o.unwrapped⟩

/-- **The kind of the output does not matter.** Whatever the calls are, there are answers, states
and bytes such that a session over any output is answered in this way and is in these states, call
by call, and its output takes these bytes: a stream of bytes with or without a way to flush it as
they are, a text over a buffer in its buffer, and any other text as the characters of these code
points, in order. -/
theorem followed_whatever_output (input : Input) (fuel : Nat) (traced : Bool) (calls : List Call) :
    ∃ (seen : List (Option (Except Error Answer) × Machine)) (taken : List UInt8),
      ∀ output : Output,
        (Session.over input output).followed fuel traced calls = seen ∧
          output.unwrapped.Takes taken
            ((Session.over input output).afterCalls fuel traced calls).machine.output := by
  -- a session that writes to bytes tells what all of them do
  let s := Session.over input (.bytes #[] 0)
  refine ⟨s.followed fuel traced calls,
    (s.afterCalls fuel traced calls).machine.output.contents, ?_⟩
  intro output
  obtain ⟨hfollowed, hafter⟩ :=
    Session.followed_eq fuel traced calls (over_takenBy input output)
  exact ⟨hfollowed, hafter.output⟩

/-- A byte beyond ASCII is one character of a text. -/
example : ((Session.over (.bytes [0xE9]) (.text #[])).afterCalls 3 false
    [.run (Program.decode (Token.ofText ",."))]).machine.output = .text #['é'] := rfl

end TapeLanguage
