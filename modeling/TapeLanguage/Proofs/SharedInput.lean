import Mathlib.Data.List.Forall2
import TapeLanguage.Proofs.InTurn

/-!
# Programs that share an input

The programs of a command line run on machines of their own and read from one input. Each program
has its share of the input (`Share`): the bytes that are delivered to its instructions, and the
bytes that its machine has fetched with the last of these and keeps to itself. The shares and what
is left at the end are together the whole input, in order (`TakenInTurn.contents`).

On an input of single bytes a machine keeps none of them (`Supply.fetch_atByte`), so each program
reads on at the byte after the last one that was delivered before. On a text each program reads on
at the code point after the last one that was begun (`Supply.fetch_begun`): the bytes of a character
that is not finished are not delivered to any other program (`respond_shares_input`). A surrogate,
which has no bytes, can only be the last code point that is begun, since the program that comes to
it fails (`Run.advance_begun`).
-/

set_option autoImplicit false

namespace TapeLanguage

/-! ## Inputs of single bytes -/

/-- The units of the input are single bytes. -/
def Input.Bytewise : Input → Prop
  | bytes _ | wrapped _ | interrupting _ | closed => True
  | codePoints _ | chunks _ => False

theorem Input.bytewise_unwrapped {input : Input} (h : input.Bytewise) :
    input.unwrapped.Bytewise := by
  cases input with
  | bytes _ | wrapped _ | interrupting _ | closed => trivial
  | codePoints _ | chunks _ => exact absurd h id

/-- No byte waits on an input of single bytes. -/
def Supply.AtByte (s : Supply) : Prop :=
  s.queue = [] ∧ s.input.Bytewise

theorem Supply.fetch_atByte (s : Supply) (h : s.AtByte) : s.fetch.2.AtByte := by
  obtain ⟨queue, input⟩ := s
  obtain ⟨rfl, hbytewise⟩ := h
  cases input with
  | bytes rest | wrapped rest | interrupting rest => cases rest <;> exact ⟨rfl, trivial⟩
  | closed => exact ⟨rfl, trivial⟩
  | codePoints _ | chunks _ => exact absurd hbytewise id

/-! ## Texts -/

/-- Some bytes are what is left of the last of some code points, or there are none. -/
def LeftOf (part : List CodePoint) (rest : List UInt8) : Prop :=
  rest = [] ∨ ∃ before c first, part = before ++ [c] ∧ first ≠ [] ∧ c.utf8 = first ++ rest

/-- The bytes that wait behind the first one of a code point are left of it. -/
theorem LeftOf.ofUnit (part : List CodePoint) (c : CodePoint) :
    LeftOf (part ++ [c]) (Input.ofUnit c.utf8).more := by
  cases hencoded : c.utf8 with
  | nil => exact Or.inl rfl
  | cons byte more => exact Or.inr ⟨part, c, [byte], rfl, List.cons_ne_nil byte [], hencoded⟩

/-- **Fetching begins at most one code point more**, and only when no byte waits; if that is a
surrogate, no byte is fetched. -/
theorem Supply.fetch_begun {part left : List CodePoint} {queue : List UInt8}
    (hleft : LeftOf part queue) :
    let s : Supply := ⟨queue, .codePoints left⟩
    ∃ begun rest, left = begun ++ rest ∧ s.fetch.2.input = .codePoints rest ∧
      LeftOf (part ++ begun) s.fetch.2.queue ∧
      ∀ lone, .surrogate lone ∈ begun → s.fetch.1 = .error (.unencodable lone) := by
  cases queue with
  | cons byte more =>
    -- one more byte of the code point is taken
    refine ⟨[], left, rfl, rfl, ?_, fun _ h => absurd h List.not_mem_nil⟩
    rw [List.append_nil]
    obtain hnil | ⟨before, c, first, hpart, -, hencoded⟩ := hleft
    · exact absurd hnil (List.cons_ne_nil byte more)
    · refine Or.inr ⟨before, c, first ++ [byte], hpart, by simp, ?_⟩
      rw [hencoded, List.append_assoc]
      rfl
  | nil =>
    cases left with
    | nil => exact ⟨[], [], rfl, rfl, Or.inl rfl, fun _ h => absurd h List.not_mem_nil⟩
    | cons c left =>
      -- the next code point is begun
      refine ⟨[c], left, rfl, ?_⟩
      cases c with
      | char c =>
        refine ⟨rfl, LeftOf.ofUnit part (.char c), fun lone h => ?_⟩
        exact CodePoint.noConfusion (List.mem_singleton.1 h)
      | surrogate s =>
        refine ⟨rfl, Or.inl rfl, fun lone h => ?_⟩
        obtain rfl := CodePoint.surrogate.inj (List.mem_singleton.1 h)
        rfl

/-- The code points in front of a text have been begun, and only bytes of the last of them wait. A
run that has begun a surrogate has failed. -/
def Run.Begun (cs : List CodePoint) (r : Run) : Prop :=
  ∃ part left, cs = part ++ left ∧ r.machine.input = .codePoints left ∧
    LeftOf part r.machine.queue ∧
    ∀ lone, .surrogate lone ∈ part → r.phase = .failed (.unencodable lone)

theorem Run.advance_begun {cs : List CodePoint} (p : Program) (traced : Bool) {r : Run}
    (h : r.Begun cs) : (advance p traced r).Begun cs := by
  cases hrunning : r.isRunning with
  | false => rwa [advance_of_ended p traced hrunning]
  | true =>
    obtain ⟨part, left, hcs, hinput, hleft, hlone⟩ := h
    -- a run that goes on has not come to a surrogate
    have hnone : ∀ lone, .surrogate lone ∉ part := by
      intro lone hmem
      rw [isRunning, hlone lone hmem] at hrunning
      exact Bool.noConfusion hrunning
    have hkept : (advance p traced r).machine.supply = r.machine.supply →
        (advance p traced r).Begun cs := by
      intro hsame
      have hqueue : (advance p traced r).machine.queue = r.machine.queue :=
        congrArg Supply.queue hsame
      refine ⟨part, left, hcs, (congrArg Supply.input hsame).trans hinput, by rwa [hqueue],
        fun lone hmem => absurd hmem (hnone lone)⟩
    cases hnext : r.next? p with
    | none => exact hkept (advance_of_no_next traced hnext).2
    | some i =>
      have hadvance := advance_supply traced hnext
      by_cases hop : i.op = .input
      · -- the next code point may be begun
        rw [r.machine.apply_input_supply hop] at hadvance
        have hsupply : r.machine.supply = ⟨r.machine.queue, .codePoints left⟩ :=
          congrArg (Supply.mk r.machine.queue) hinput
        obtain ⟨begun, rest, rfl, hrest, hmore, herror⟩ := @Supply.fetch_begun part left _ hleft
        rw [hsupply] at hadvance
        have hqueue : (advance p traced r).machine.queue = _ := congrArg Supply.queue hadvance
        refine ⟨part ++ begun, rest, by rw [hcs, List.append_assoc],
          (congrArg Supply.input hadvance).trans hrest, by rwa [hqueue], fun lone hmem => ?_⟩
        have hbegun := (List.mem_append.1 hmem).resolve_left (hnone lone)
        obtain ⟨noted, hstopped⟩ := advance_of_next traced hnext
        rw [hstopped, r.machine.apply_of_input hop, hsupply, ← Prod.eta (Supply.fetch _),
          herror lone hbegun]
        rfl
      · exact hkept (hadvance.trans (r.machine.apply_supply hop))

namespace CommandLine

/-! ## Shares -/

/-- What one program takes of the input. -/
structure Share where
  /-- The bytes that are delivered to its instructions. -/
  delivered : List UInt8
  /-- The bytes that its machine has fetched and keeps. -/
  kept : List UInt8

/-- All bytes that the machine has fetched. -/
def Share.bytes (share : Share) : List UInt8 :=
  share.delivered ++ share.kept

/-- A program on a new machine. -/
def opening (debug : Bool) (l : Loaded) (input : Input) (output : Output) : Run :=
  .start (.new input output) l.program (Trace.note debug #[] (.running l.name))

/-- The shares of the programs that `runAll` runs, in order. -/
def shares (fuel : Nat) (debug : Bool) : List Loaded → Input → Output → List Share
  | [], _, _ => []
  | l :: rest, input, output =>
    let r := (opening debug l input output).advanceFor l.program debug fuel
    let share := ⟨(opening debug l input output).delivered l.program debug fuel, r.machine.queue⟩
    match r.phase with
    | .finished => share :: shares fuel debug rest r.machine.input r.machine.output
    | _ => [share]

/-- A share is that of the code points of a part: their bytes, of which the last ones may be
kept. -/
structure Share.Begins (part : List CodePoint) (share : Share) : Prop where
  bytes : share.bytes = part.flatMap CodePoint.utf8
  kept : LeftOf part share.kept

/-- One program takes its share of an input and leaves the rest, and its run ends in a phase. -/
structure Takes (input : Input) (share : Share) (rest : Input) (phase : Phase) : Prop where
  contents : input.contents = share.bytes ++ rest.contents
  atByte : input.Bytewise → share.kept = [] ∧ rest.Bytewise
  begins : ∀ cs, input = .codePoints cs →
    ∃ part left, cs = part ++ left ∧ rest = .codePoints left ∧ share.Begins part ∧
      ∀ lone, .surrogate lone ∈ part → phase = .failed (.unencodable lone)

/-- **A program takes its share of the input.** -/
theorem takes_opening (fuel : Nat) (debug : Bool) (l : Loaded) (input : Input) (output : Output) :
    let start := opening debug l input output
    let r := start.advanceFor l.program debug fuel
    Takes input ⟨start.delivered l.program debug fuel, r.machine.queue⟩ r.machine.input
      r.phase := by
  intro start r
  have hsupply : start.machine.supply = ⟨[], input.unwrapped⟩ := rfl
  have hcontents : input.contents =
      start.delivered l.program debug fuel ++ r.machine.queue ++ r.machine.input.contents := by
    have hbytes := start.bytes_eq_delivered l.program debug fuel
    rw [hsupply, Supply.bytes, List.nil_append, input.contents_unwrapped] at hbytes
    rw [hbytes, List.append_assoc]
    rfl
  refine ⟨hcontents, ?_, ?_⟩
  · intro hbytewise
    exact Run.supply_invariant Supply.fetch_atByte l.program debug fuel (r := start)
      ⟨rfl, Input.bytewise_unwrapped hbytewise⟩
  · rintro cs rfl
    have hstart : start.Begun cs :=
      ⟨[], cs, rfl, rfl, Or.inl rfl, fun _ h => absurd h List.not_mem_nil⟩
    obtain ⟨part, left, rfl, hleft, hkept, hlone⟩ :=
      Run.advanceFor_invariant (P := Run.Begun cs) (fun h => Run.advance_begun l.program debug h)
        fuel hstart
    change r.machine.input = .codePoints left at hleft
    refine ⟨part, left, rfl, hleft, ⟨?_, hkept⟩, hlone⟩
    rw [hleft, Input.contents, Input.contents, List.flatMap_append] at hcontents
    exact (List.append_cancel_right hcontents).symm

/-- Shares of an input are taken one after the other, and the rest is left. The last part is how the
last of the runs has ended. -/
inductive TakenInTurn : Input → List Share → Input → Phase → Prop
  /-- No program is left. -/
  | nil {input : Input} : TakenInTurn input [] input .finished
  /-- A program finishes, and the others read what it leaves. -/
  | cons {input next rest : Input} {share : Share} {taken : List Share} {phase : Phase}
    (htakes : Takes input share next .finished) (htaken : TakenInTurn next taken rest phase) :
    TakenInTurn input (share :: taken) rest phase
  /-- A program after which no other one runs. -/
  | last {input rest : Input} {share : Share} {phase : Phase}
    (htakes : Takes input share rest phase) : TakenInTurn input [share] rest phase

/-- The status of a command line whose last run has ended in a phase. -/
def statusOf : Phase → Status
  | .finished => .exited 0
  | .running => .unfinished
  | .failed fault => (failure (.fault fault)).1

/-- **The programs take their shares one after the other.** -/
theorem takenInTurn_shares (fuel : Nat) (debug : Bool) (programs : List Loaded) (input : Input)
    (output : Output) (messages : Array Message) :
    ∃ phase, TakenInTurn input (shares fuel debug programs input output)
        (runAll fuel debug programs input output messages).input phase ∧
      (runAll fuel debug programs input output messages).status = statusOf phase := by
  induction programs generalizing input output messages with
  | nil => exact ⟨_, .nil, rfl⟩
  | cons l rest ih =>
    have htakes := takes_opening fuel debug l input output
    have hrun : (Machine.new input output).run l.program fuel debug
        (Trace.note debug #[] (.running l.name)) =
          (opening debug l input output).advanceFor l.program debug fuel := rfl
    rw [shares, runAll, hrun]
    dsimp only at htakes ⊢
    generalize (opening debug l input output).advanceFor l.program debug fuel = r at htakes ⊢
    cases hphase : r.phase with
    | running | failed fault =>
      -- no other program runs, and what this one leaves is left
      exact ⟨_, .last htakes, by rw [hphase]; rfl⟩
    | finished =>
      obtain ⟨phase, htaken, hstatus⟩ := ih r.machine.input r.machine.output _
      exact ⟨phase, .cons (hphase ▸ htakes) htaken, hstatus⟩

namespace TakenInTurn

variable {input rest : Input} {taken : List Share} {phase : Phase}

/-- The shares and what is left are the whole input. -/
theorem contents (h : TakenInTurn input taken rest phase) :
    input.contents = taken.flatMap Share.bytes ++ rest.contents := by
  induction h with
  | nil => rfl
  | cons htakes _ ih => rw [htakes.contents, ih, List.flatMap_cons, List.append_assoc]
  | last htakes => rw [htakes.contents, List.flatMap_singleton]

/-- On an input of single bytes no byte is kept. -/
theorem kept_eq_nil (h : TakenInTurn input taken rest phase) (hbytewise : input.Bytewise) :
    ∀ share ∈ taken, share.kept = [] := by
  induction h with
  | nil => exact fun share hshare => absurd hshare List.not_mem_nil
  | last htakes =>
    intro share hshare
    rw [List.mem_singleton.1 hshare]
    exact (htakes.atByte hbytewise).1
  | cons htakes _ ih =>
    obtain ⟨hkept, hnext⟩ := htakes.atByte hbytewise
    intro share hshare
    rcases List.mem_cons.1 hshare with rfl | hshare
    · exact hkept
    · exact ih hnext share hshare

/-- A text is divided into the parts that the programs begin. If one of these holds a surrogate,
the last run has failed at it. -/
theorem exists_parts (h : TakenInTurn input taken rest phase) {cs : List CodePoint}
    (hcs : input = .codePoints cs) :
    ∃ parts left, cs = parts.flatten ++ left ∧ rest = .codePoints left ∧
      List.Forall₂ Share.Begins parts taken ∧
      ∀ lone, .surrogate lone ∈ parts.flatten → phase = .failed (.unencodable lone) := by
  induction h generalizing cs with
  | nil => exact ⟨[], cs, rfl, hcs, .nil, fun _ h => absurd h List.not_mem_nil⟩
  | last htakes =>
    obtain ⟨part, left, rfl, hrest, hbegins, hlone⟩ := htakes.begins cs hcs
    refine ⟨[part], left, ?_, hrest, .cons hbegins .nil, ?_⟩
    · rw [List.flatten_singleton]
    · rwa [List.flatten_singleton]
  | cons htakes _ ih =>
    obtain ⟨part, next, rfl, hnext, hbegins, hlone⟩ := htakes.begins cs hcs
    obtain ⟨parts, left, rfl, hrest, hparts, hothers⟩ := ih hnext
    refine ⟨part :: parts, left, ?_, hrest, .cons hbegins hparts, fun lone hmem => ?_⟩
    · rw [List.flatten_cons, List.append_assoc]
    · -- the program finished, so there is none in its part
      rcases List.mem_append.1 hmem with hpart | hmore
      · exact Phase.noConfusion (hlone lone hpart)
      · exact hothers lone hmore

end TakenInTurn

/-! ## A command line -/

/-- The bytes that are delivered where none is kept. -/
theorem flatMap_bytes_of_kept {taken : List Share} (h : ∀ share ∈ taken, share.kept = []) :
    taken.flatMap Share.bytes = taken.flatMap Share.delivered := by
  refine List.flatMap_congr ?_
  intro share hshare
  rw [Share.bytes, h share hshare, List.append_nil]

/-- **Programs read on where the program before them has stopped reading.** Let all sources of a
command line be programs. The shares of those that run and the rest that is left are the whole input
in order. On an input of single bytes all that is fetched is delivered, so that the delivered bytes
of all programs are the first ones of the input, and each program reads on at the next byte. On a
text each program reads on at the next code point: the text is divided into one part for each
program and the rest, and a program is delivered the bytes of its part, but perhaps for some at the
end of its last character. If a part holds a surrogate, the command line ends there, with an error
that is not caught. -/
theorem respond_shares_input {files : FileSource} {arguments : List String} {o : Options}
    {programs : List Loaded} (hread : readCommandLine arguments = .ok o)
    (hprograms : o.sources files = programs.map Loaded.source) (hdump : o.dump = false)
    (fuel : Nat) (input : Input) (output : Output) :
    let report := respond fuel files arguments input output
    let taken := shares fuel o.debug programs input output
    input.contents = taken.flatMap Share.bytes ++ report.input.contents ∧
      (input.Bytewise → (∀ share ∈ taken, share.kept = []) ∧
        input.contents = taken.flatMap Share.delivered ++ report.input.contents) ∧
      ∀ cs, input = .codePoints cs → ∃ parts left, cs = parts.flatten ++ left ∧
        report.input = .codePoints left ∧ List.Forall₂ Share.Begins parts taken ∧
        ∀ lone, .surrogate lone ∈ parts.flatten →
          report.status = .uncaught (.fault (.unencodable lone)) := by
  intro report taken
  obtain ⟨events, hruns⟩ := carryOut_eq_runAll output fuel hprograms input hdump
  have hreport : report = runAll fuel o.debug programs input output (events.map .event) :=
    (respond_of_accepted hread input output fuel).trans hruns
  obtain ⟨phase, htaken, hstatus⟩ :=
    takenInTurn_shares fuel o.debug programs input output (events.map .event)
  rw [← hreport] at htaken hstatus
  refine ⟨htaken.contents, ?_, ?_⟩
  · intro hbytewise
    have hkept := htaken.kept_eq_nil hbytewise
    exact ⟨hkept, flatMap_bytes_of_kept hkept ▸ htaken.contents⟩
  · intro cs hcs
    obtain ⟨parts, left, hparts, hrest, hbegins, hlone⟩ := htaken.exists_parts hcs
    refine ⟨parts, left, hparts, hrest, hbegins, fun lone hmem => ?_⟩
    rw [hstatus, hlone lone hmem]
    rfl

/-- Two programs copy one byte each, from a text of two characters. The first one begins the first
character, and the second one reads on at the next character. -/
theorem respond_shares_input_copying : ∃ (files : FileSource) (o : Options)
    (programs : List Loaded), readCommandLine ["a", "b"] = .ok o ∧
    o.sources files = programs.map Loaded.source ∧ o.dump = false ∧
    let report := respond 4 files ["a", "b"] (.text ['é', 'A']) (.bytes #[] 0)
    let taken := shares 4 o.debug programs (.text ['é', 'A']) (.bytes #[] 0)
    taken = [⟨[0xC3], [0xA9]⟩, ⟨[0x41], []⟩] ∧
      ∃ parts left, ['é', 'A'].map CodePoint.char = parts.flatten ++ left ∧
        report.input = .codePoints left ∧ List.Forall₂ Share.Begins parts taken := by
  have hfiles : ∃ (files : FileSource) (o : Options) (programs : List Loaded),
      readCommandLine ["a", "b"] = .ok o ∧ o.sources files = programs.map Loaded.source ∧
        o.dump = false ∧ shares 4 o.debug programs (.text ['é', 'A']) (.bytes #[] 0) =
          [⟨[0xC3], [0xA9]⟩, ⟨[0x41], []⟩] :=
    ⟨⟨fun _ => .ok (.ok [0x2C, 0x2E]), Encoding.ofName⟩, _, [⟨"a", _⟩, ⟨"b", _⟩],
      rfl, rfl, rfl, rfl⟩
  obtain ⟨files, o, programs, hread, hprograms, hdump, htaken⟩ := hfiles
  have hshares := respond_shares_input hread hprograms hdump 4 (.text ['é', 'A']) (.bytes #[] 0)
  obtain ⟨parts, left, hparts, hrest, hbegins, -⟩ := hshares.2.2 _ rfl
  exact ⟨files, o, programs, hread, hprograms, hdump, htaken, parts, left, hparts, hrest, hbegins⟩

/-- The second byte of the first character is delivered to neither program, so that the delivered
bytes are not the first ones of the text. -/
theorem respond_drops_rest_of_character : ∃ (files : FileSource) (o : Options)
    (programs : List Loaded), readCommandLine ["a", "b"] = .ok o ∧
    o.sources files = programs.map Loaded.source ∧ o.dump = false ∧
    let report := respond 4 files ["a", "b"] (.text ['é', 'A']) (.bytes #[] 0)
    let delivered := (shares 4 o.debug programs (.text ['é', 'A']) (.bytes #[] 0)).flatMap
      Share.delivered
    report.status = .exited 0 ∧ report.output.contents = [0xC3, 0x41] ∧
      delivered = [0xC3, 0x41] ∧ ¬ delivered <+: (Input.text ['é', 'A']).contents := by
  refine ⟨⟨fun _ => .ok (.ok [0x2C, 0x2E]), Encoding.ofName⟩, _, [⟨"a", _⟩, ⟨"b", _⟩],
    rfl, rfl, rfl, rfl, rfl, rfl, ?_⟩
  -- the text is encoded as C3 A9 41
  show ¬ [0xC3, 0x41] <+: [(0xC3 : UInt8), 0xA9, 0x41]
  decide

end CommandLine

end TapeLanguage
