import Mathlib.Data.Set.List
import TapeLanguage.Proofs.Step

/-!
# The supply of bytes

What a machine can still read is its `Supply`: the bytes that wait, and the rest of the input. An
input instruction fetches one byte of it or learns why there is none (`Machine.take_eq`), and no
other instruction touches it.

The bytes of the supply are fetched in order, each of them once: what an instruction takes and what
is left after it are together what was there before (`Machine.bytes_eq_taken`). So the bytes that
are delivered to the input instructions of a run are the first ones of the supply
(`Run.bytes_eq_delivered`), for every kind of input, however the run ends. What is left of the input
itself are its units but the first ones (`Run.input_advanceFor`).
-/

set_option autoImplicit false

namespace TapeLanguage

/-- What a machine can still read. -/
structure Supply where
  /-- The bytes that wait. -/
  queue : List UInt8
  /-- The rest of the input. -/
  input : Input

/-- Why there is no byte. -/
inductive Lack where
  /-- The input has ended. -/
  | ended
  /-- The next code point has no encoding. -/
  | unencodable (s : Surrogate)
  /-- The user interrupted the reading. -/
  | interrupted
  /-- The input has been closed. -/
  | refused
  deriving DecidableEq, Repr

/-- The fault of an instruction that lacks a byte. -/
def Lack.fault (position : Int) : Lack → Fault
  | ended => .inputExhausted position
  | unencodable s => .unencodable s
  | interrupted => .interrupted
  | refused => .closedInput

namespace Reading

/-- The byte that a reading gives, or why it gives none. -/
def first : Reading → Except Lack UInt8
  | delivered byte _ => .ok byte
  | ended => .error .ended
  | unencodable s => .error (.unencodable s)
  | interrupted => .error .interrupted
  | refused => .error .refused

/-- The bytes that wait after a reading. -/
def more : Reading → List UInt8
  | delivered _ more => more
  | ended | unencodable _ | interrupted | refused => []

/-- The bytes that a reading gives. -/
def bytes (r : Reading) : List UInt8 :=
  r.first.toOption.toList ++ r.more

end Reading

namespace Supply

/-- All bytes that are left. -/
def bytes (s : Supply) : List UInt8 :=
  s.queue ++ s.input.contents

/-- The next byte, and what is left after it. -/
def fetch (s : Supply) : Except Lack UInt8 × Supply :=
  match s.queue with
  | byte :: more => (.ok byte, ⟨more, s.input⟩)
  | [] => (s.input.read.1.first, ⟨s.input.read.1.more, s.input.read.2⟩)

end Supply

/-! ## Reading takes bytes off the front -/

theorem Input.bytes_ofUnit (bytes : List UInt8) : (ofUnit bytes).bytes = bytes := by
  cases bytes with
  | nil => rfl
  | cons byte more => rfl

/-- One reading takes the first bytes of an input. -/
theorem Input.contents_eq_read (input : Input) :
    input.contents = input.read.1.bytes ++ input.read.2.contents := by
  cases input with
  | bytes rest | wrapped rest | interrupting rest => cases rest <;> rfl
  | codePoints rest =>
    cases rest with
    | nil => rfl
    | cons c rest =>
      rw [contents, List.flatMap_cons]
      cases c with
      | char c => rw [read, bytes_ofUnit, contents, CodePoint.utf8]
      | surrogate s => rfl
  | chunks rest =>
    cases rest with
    | nil => rfl
    | cons chunk rest => rw [read, bytes_ofUnit, contents, List.flatten_cons, contents]
  | closed => rfl

/-- **The byte that is fetched is the first one that was left.** -/
theorem Supply.bytes_eq_fetch (s : Supply) :
    s.bytes = s.fetch.1.toOption.toList ++ s.fetch.2.bytes := by
  obtain ⟨queue, input⟩ := s
  cases queue with
  | cons byte more => rfl
  | nil =>
    rw [bytes, List.nil_append, input.contents_eq_read, Reading.bytes, List.append_assoc]
    rfl

/-! ## The units that are left -/

namespace Input

/-- What is left of an input after its first units. -/
def drop (k : Nat) : Input → Input
  | bytes rest => bytes (rest.drop k)
  | wrapped rest => wrapped (rest.drop k)
  | codePoints rest => codePoints (rest.drop k)
  | chunks rest => chunks (rest.drop k)
  | interrupting rest => interrupting (rest.drop k)
  | closed => closed

@[simp] theorem drop_zero (input : Input) : input.drop 0 = input := by
  cases input <;> rfl

theorem drop_drop (j k : Nat) (input : Input) : (input.drop j).drop k = input.drop (j + k) := by
  cases input <;> simp only [drop, List.drop_drop]

/-- One reading leaves all units but the first. -/
theorem read_eq_drop (input : Input) : input.read.2 = input.drop 1 := by
  cases input with
  | bytes rest | wrapped rest | chunks rest | interrupting rest => cases rest <;> rfl
  | codePoints rest =>
    cases rest with
    | nil => rfl
    | cons c rest => cases c <;> rfl
  | closed => rfl

end Input

/-- Fetching takes at most one unit of the input. -/
theorem Supply.input_fetch (s : Supply) : ∃ k, s.fetch.2.input = s.input.drop k := by
  obtain ⟨queue, input⟩ := s
  cases queue with
  | cons byte more => exact ⟨0, input.drop_zero.symm⟩
  | nil => exact ⟨1, input.read_eq_drop⟩

/-- What fetching leaves of an end of an input is an end of it. -/
theorem Supply.input_fetch_drop (input : Input) (s : Supply) (h : ∃ k, s.input = input.drop k) :
    ∃ k, s.fetch.2.input = input.drop k := by
  obtain ⟨k, hk⟩ := h
  obtain ⟨j, hj⟩ := s.input_fetch
  refine ⟨k + j, ?_⟩
  rw [hj, hk, Input.drop_drop]

/-! ## Lacking a byte -/

namespace Input

/-- The ways in which a byte can be lacking on an input. -/
def Lacks : Input → Lack → Prop
  | bytes _, lack | wrapped _, lack | chunks _, lack => lack = .ended
  | codePoints rest, lack => lack = .ended ∨ ∃ s, .surrogate s ∈ rest ∧ lack = .unencodable s
  | interrupting _, lack => lack = .interrupted
  | closed, lack => lack = .refused

theorem lacks_unwrapped (input : Input) : input.unwrapped.Lacks = input.Lacks := by
  cases input <;> rfl

/-- A byte can be lacking on an end of an input only as on the whole. -/
theorem lacks_of_drop {input : Input} {k : Nat} {lack : Lack} (h : (input.drop k).Lacks lack) :
    input.Lacks lack := by
  cases input with
  | bytes _ | wrapped _ | chunks _ | interrupting _ | closed => exact h
  | codePoints rest => exact h.imp_right fun ⟨s, hs, hlack⟩ => ⟨s, List.mem_of_mem_drop hs, hlack⟩

/-- A unit of the input gives its first byte, or the input has ended. -/
theorem ended_of_unit {unit : List UInt8} {lack : Lack} (h : (ofUnit unit).first = .error lack) :
    lack = .ended := by
  cases unit with
  | nil => exact (Except.error.inj h).symm
  | cons byte more => exact absurd h nofun

/-- A reading that gives no byte lacks it in a way of the input. -/
theorem lacks_of_first {input : Input} {lack : Lack} (h : input.read.1.first = .error lack) :
    input.Lacks lack := by
  cases input with
  | bytes rest | wrapped rest | interrupting rest =>
    cases rest with
    | nil => exact (Except.error.inj h).symm
    | cons byte rest => exact absurd h nofun
  | codePoints rest =>
    cases rest with
    | nil => exact Or.inl (Except.error.inj h).symm
    | cons c rest =>
      cases c with
      | char c => exact Or.inl (ended_of_unit h)
      | surrogate s => exact Or.inr ⟨s, List.mem_cons_self, (Except.error.inj h).symm⟩
  | chunks rest =>
    cases rest with
    | nil => exact (Except.error.inj h).symm
    | cons unit rest => exact ended_of_unit h
  | closed => exact (Except.error.inj h).symm

end Input

/-- A byte that is not fetched is lacking in a way of the input. -/
theorem Supply.lacks_of_fetch {s : Supply} {lack : Lack} (h : s.fetch.1 = .error lack) :
    s.input.Lacks lack := by
  obtain ⟨queue, input⟩ := s
  cases queue with
  | cons byte more => exact absurd h nofun
  | nil => exact Input.lacks_of_first h

/-! ## Inputs without early ends -/

/-- A character has a byte at least, and a surrogate has none. -/
theorem CodePoint.utf8_ne_nil_iff {c : CodePoint} : c.utf8 ≠ [] ↔ c ∈ Set.range char := by
  cases c with
  | char a => exact ⟨fun _ => ⟨a, rfl⟩, fun _ => String.utf8EncodeChar_ne_nil⟩
  | surrogate s => exact ⟨fun h => absurd rfl h, fun ⟨_, h⟩ => CodePoint.noConfusion h⟩

namespace Input

/-- The input ends where its contents end, and delivers them until then: no unit of it is without a
byte. -/
def Steady : Input → Prop
  | bytes _ | wrapped _ => True
  | codePoints rest => ∀ c ∈ rest, c.utf8 ≠ []
  | chunks rest => ∀ chunk ∈ rest, chunk ≠ []
  | interrupting _ | closed => False

/-- **A text delivers its encoding exactly if it has one**, being made of characters alone. -/
theorem steady_codePoints_iff {rest : List CodePoint} :
    (codePoints rest).Steady ↔ ∃ cs, codePoints rest = text cs := by
  calc (codePoints rest).Steady
      ↔ ∀ c ∈ rest, c ∈ Set.range CodePoint.char :=
        forall₂_congr fun _ _ => CodePoint.utf8_ne_nil_iff
    _ ↔ rest ∈ Set.range (List.map CodePoint.char) := by
        rw [Set.range_list_map]
        rfl
    _ ↔ ∃ cs, codePoints rest = text cs :=
        exists_congr fun _ =>
          ⟨fun h => congrArg codePoints h.symm, fun h => (codePoints.inj h).symm⟩

/-- The contents of a text of characters are the bytes that encode them. -/
theorem contents_text (cs : List Char) :
    (text cs).contents = cs.flatMap String.utf8EncodeChar := by
  rw [text, contents, List.flatMap_map]
  rfl

theorem steady_text (cs : List Char) : (text cs).Steady :=
  steady_codePoints_iff.2 ⟨cs, rfl⟩

theorem Steady.drop {input : Input} (h : input.Steady) (k : Nat) : (input.drop k).Steady := by
  cases input with
  | bytes _ | wrapped _ => trivial
  | codePoints rest => exact fun c hc => h c (List.mem_of_mem_drop hc)
  | chunks rest => exact fun chunk hchunk => h chunk (List.mem_of_mem_drop hchunk)
  | interrupting _ | closed => exact absurd h id

/-- A unit with a byte gives its first one, and the others wait. -/
theorem ofUnit_of_append {unit rest : List UInt8} {byte : UInt8} {bytes : List UInt8}
    (hunit : unit ≠ []) (h : unit ++ rest = byte :: bytes) :
    ∃ more, ofUnit unit = .delivered byte more ∧ more ++ rest = bytes := by
  cases unit with
  | nil => exact absurd rfl hunit
  | cons first more =>
    obtain ⟨rfl, hrest⟩ := List.cons.inj h
    exact ⟨more, rfl, hrest⟩

/-- While bytes are left, the first of them is read. -/
theorem Steady.read_of_cons {input : Input} {byte : UInt8} {rest : List UInt8} (h : input.Steady)
    (hc : input.contents = byte :: rest) :
    ∃ more, input.read = (.delivered byte more, input.drop 1) ∧
      more ++ (input.drop 1).contents = rest := by
  cases input with
  | bytes bs | wrapped bs =>
    obtain rfl : bs = byte :: rest := hc
    exact ⟨[], rfl, rfl⟩
  | codePoints cs =>
    cases cs with
    | nil => exact absurd hc nofun
    | cons c cs =>
      have hunit := h c List.mem_cons_self
      obtain ⟨a, rfl⟩ := CodePoint.utf8_ne_nil_iff.1 hunit
      obtain ⟨more, hread, hmore⟩ := ofUnit_of_append hunit hc
      exact ⟨more, congrArg (·, codePoints cs) hread, hmore⟩
  | chunks chunks =>
    cases chunks with
    | nil => exact absurd hc nofun
    | cons chunk rest =>
      obtain ⟨more, hread, hmore⟩ := ofUnit_of_append (h chunk List.mem_cons_self) hc
      exact ⟨more, congrArg (·, Input.chunks rest) hread, hmore⟩
  | interrupting _ | closed => exact absurd h id

/-- Where no byte is left, the input has ended and stays as it is. -/
theorem Steady.read_of_nil {input : Input} (h : input.Steady) (hc : input.contents = []) :
    input.read = (.ended, input) := by
  cases input with
  | bytes bs | wrapped bs =>
    obtain rfl : bs = [] := hc
    rfl
  | codePoints cs =>
    cases cs with
    | nil => rfl
    | cons c cs =>
      have hnil := List.flatMap_eq_nil_iff.1 hc c List.mem_cons_self
      exact absurd hnil (h c List.mem_cons_self)
  | chunks chunks =>
    cases chunks with
    | nil => rfl
    | cons chunk rest =>
      have hnil := List.flatten_eq_nil_iff.1 hc chunk List.mem_cons_self
      exact absurd hnil (h chunk List.mem_cons_self)
  | interrupting _ | closed => exact absurd h id

end Input

namespace Supply

variable {s : Supply}

theorem steady_fetch (h : s.input.Steady) : s.fetch.2.input.Steady := by
  obtain ⟨k, hk⟩ := s.input_fetch
  rw [hk]
  exact h.drop k

/-- While bytes are left, the first of them is fetched. -/
theorem fetch_of_cons (h : s.input.Steady) {byte : UInt8} {rest : List UInt8}
    (hc : s.bytes = byte :: rest) : s.fetch.1 = .ok byte ∧ s.fetch.2.bytes = rest := by
  obtain ⟨queue, input⟩ := s
  cases queue with
  | cons first more =>
    obtain ⟨rfl, hrest⟩ := List.cons.inj hc
    exact ⟨rfl, hrest⟩
  | nil =>
    obtain ⟨more, hread, hrest⟩ := h.read_of_cons hc
    simp only [fetch, hread, Reading.first, Reading.more]
    exact ⟨trivial, hrest⟩

/-- Nothing is fetched where nothing is left, and the supply stays as it is. -/
theorem fetch_of_nil (h : s.input.Steady) (hnil : s.bytes = []) : s.fetch = (.error .ended, s) := by
  obtain ⟨queue, input⟩ := s
  obtain ⟨rfl, hcontents⟩ := List.append_eq_nil_iff.1 hnil
  simp only [fetch, h.read_of_nil hcontents, Reading.first, Reading.more]

/-- A byte is lacking where nothing is left. -/
theorem bytes_of_lack {lack : Lack} (h : s.input.Steady) (hlack : s.fetch.1 = .error lack) :
    s.bytes = [] := by
  cases hbytes : s.bytes with
  | nil => rfl
  | cons byte rest =>
    rw [(fetch_of_cons h hbytes).1] at hlack
    cases hlack

/-- **What is fetched depends on the bytes that are left**, and not on how they are kept. -/
theorem fetch_eq_of_bytes {s' : Supply} (h : s.input.Steady) (h' : s'.input.Steady)
    (hbytes : s'.bytes = s.bytes) :
    s'.fetch.1 = s.fetch.1 ∧ s'.fetch.2.bytes = s.fetch.2.bytes := by
  cases hs : s.bytes with
  | nil =>
    rw [fetch_of_nil h hs, fetch_of_nil h' (hbytes.trans hs)]
    exact ⟨rfl, hbytes⟩
  | cons byte rest =>
    obtain ⟨hfirst, hrest⟩ := fetch_of_cons h hs
    obtain ⟨hfirst', hrest'⟩ := fetch_of_cons h' (hbytes.trans hs)
    exact ⟨hfirst'.trans hfirst.symm, hrest'.trans hrest.symm⟩

end Supply

namespace Machine

/-- What a machine can still read. -/
def supply (m : Machine) : Supply :=
  ⟨m.queue, m.input⟩

/-- A machine with another supply. -/
def withSupply (m : Machine) (s : Supply) : Machine :=
  { m with queue := s.queue, input := s.input }

/-- Store a fetched byte, or stop for want of one. -/
def stored (m : Machine) (position : Int) : Except Lack UInt8 × Supply → Outcome
  | (.ok byte, s) =>
    .moved (position + 1) (withSupply { m with tape := m.tape.store byte } s)
  | (.error lack, s) => .stopped (lack.fault position) (m.withSupply s)

/-- **An input instruction fetches a byte.** -/
theorem take_eq (m : Machine) (position : Int) :
    m.take position = m.stored position m.supply.fetch := by
  cases hqueue : m.queue with
  | cons byte more => simp only [take, Supply.fetch, supply, stored, withSupply, hqueue]
  | nil =>
    simp only [take, Supply.fetch, supply, hqueue]
    obtain ⟨reading, rest⟩ := m.input.read
    cases reading with
    | delivered byte more => simp only [Reading.first, Reading.more, stored, withSupply]
    | ended | unencodable s | interrupted | refused =>
      simp only [Reading.first, Reading.more, stored, withSupply, Lack.fault, ← hqueue]

/-! ## One instruction -/

/-- The byte that an instruction takes into the cell. -/
def taken (m : Machine) (i : Instruction) : List UInt8 :=
  match i.op, m.apply i with
  | .input, .moved _ m' => [m'.tape.read]
  | _, _ => []

theorem move_supply (m : Machine) (delta position : Int) :
    (m.move delta position).machine.supply = m.supply := by
  unfold move
  cases m.tape.move? delta <;> rfl

/-- Only an input instruction touches the supply. -/
theorem apply_supply (m : Machine) {i : Instruction} (h : i.op ≠ .input) :
    (m.apply i).machine.supply = m.supply := by
  cases hop : i.op with
  | moveRight =>
    rw [apply, hop]
    exact m.move_supply 1 i.index
  | moveLeft =>
    rw [apply, hop]
    exact m.move_supply (-1) i.index
  | increment | decrement | output =>
    rw [apply, hop]
    rfl
  | input => exact absurd hop h
  | openLoop | closeLoop =>
    obtain ⟨resume, bookmark, hframe⟩ := m.apply_bracket (by rw [hop]; rfl)
    rw [hframe]
    rfl

theorem apply_of_input (m : Machine) {i : Instruction} (h : i.op = .input) :
    m.apply i = m.stored i.index m.supply.fetch := by
  unfold apply
  rw [h]
  exact m.take_eq i.index

/-- An input instruction leaves what its fetching leaves. -/
theorem apply_input_supply (m : Machine) {i : Instruction} (h : i.op = .input) :
    (m.apply i).machine.supply = m.supply.fetch.2 := by
  rw [m.apply_of_input h]
  obtain ⟨result, rest⟩ := m.supply.fetch
  cases result <;> rfl

/-- The byte that an input instruction takes is the one that it fetches. -/
theorem taken_of_input (m : Machine) {i : Instruction} (h : i.op = .input) :
    m.taken i = m.supply.fetch.1.toOption.toList := by
  rw [taken, m.apply_of_input h, h]
  obtain ⟨result, rest⟩ := m.supply.fetch
  cases result with
  | ok byte =>
    show [(m.tape.store byte).read] = [byte]
    rw [Tape.read_store]
  | error lack => rfl

theorem taken_of_other (m : Machine) {i : Instruction} (h : i.op ≠ .input) : m.taken i = [] := by
  rw [taken]
  split
  · exact absurd ‹_› h
  · rfl

/-- **What an instruction takes and what it leaves is what was there before.** -/
theorem bytes_eq_taken (m : Machine) (i : Instruction) :
    m.supply.bytes = m.taken i ++ (m.apply i).machine.supply.bytes := by
  by_cases h : i.op = .input
  · rw [m.taken_of_input h, m.apply_input_supply h]
    exact m.supply.bytes_eq_fetch
  · rw [m.taken_of_other h, m.apply_supply h, List.nil_append]

/-- What fetching a byte keeps of the supply is kept by an instruction. -/
theorem supply_apply {P : Supply → Prop} (hfetch : ∀ s, P s → P s.fetch.2) {m : Machine}
    (i : Instruction) (hm : P m.supply) : P (m.apply i).machine.supply := by
  by_cases hop : i.op = .input
  · rw [m.apply_input_supply hop]
    exact hfetch m.supply hm
  · rw [m.apply_supply hop]
    exact hm

/-- What an instruction leaves of the input is an end of it. -/
theorem input_apply (m : Machine) (i : Instruction) :
    ∃ k, (m.apply i).machine.input = m.input.drop k :=
  supply_apply (Supply.input_fetch_drop m.input) i ⟨0, m.input.drop_zero.symm⟩

/-- A byte can be lacking on a new machine only as on the input that it is given. -/
theorem lacks_of_new {input : Input} {output : Output} {lack : Lack}
    (h : (new input output).input.Lacks lack) : input.Lacks lack := by
  rwa [new, Input.lacks_unwrapped] at h

/-- A byte can be lacking after an instruction only as before it. -/
theorem lacks_of_apply {m : Machine} {i : Instruction} {lack : Lack}
    (h : (m.apply i).machine.input.Lacks lack) : m.input.Lacks lack := by
  obtain ⟨k, hk⟩ := m.input_apply i
  rw [hk] at h
  exact Input.lacks_of_drop h

end Machine

/-! ## A run -/

namespace Run

/-- The instruction that a run is about to execute. -/
def next? (p : Program) (r : Run) : Option Instruction :=
  if r.isRunning && decide (r.position < p.size) then p.get? r.position else none

/-- The bytes that are delivered to the input instructions of a run, in order. -/
def delivered (p : Program) (traced : Bool) : Nat → Run → List UInt8
  | 0, _ => []
  | n + 1, r => (r.next? p).elim [] r.machine.taken ++ delivered p traced n (advance p traced r)

/-- A run that is about to execute an instruction goes on with its outcome. -/
theorem advance_of_next {p : Program} (traced : Bool) {r : Run} {i : Instruction}
    (h : r.next? p = some i) :
    ∃ noted, advance p traced r = ofOutcome r.position noted (r.machine.apply i) := by
  obtain ⟨phase, position, m, trace⟩ := r
  rw [next?, Option.ite_none_right_eq_some, Bool.and_eq_true, decide_eq_true_eq] at h
  obtain ⟨⟨hrunning, hlt⟩, hi⟩ := h
  cases phase with
  | running =>
    change position < p.size at hlt
    change p.get? position = some i at hi
    rw [advance, if_pos hlt, hi]
    exact ⟨_, rfl⟩
  | finished | failed fault => exact Bool.noConfusion hrunning

/-- A run that has no instruction to execute comes to an end and touches no byte. -/
theorem advance_of_no_next {p : Program} (traced : Bool) {r : Run} (h : r.next? p = none) :
    (advance p traced r).isRunning = false ∧
      (advance p traced r).machine.supply = r.machine.supply := by
  obtain ⟨phase, position, m, trace⟩ := r
  cases phase with
  | finished | failed fault => exact ⟨rfl, rfl⟩
  | running =>
    rw [advance]
    split
    · next hlt =>
      have hnone : p.get? position = none := by
        rw [next?, show isRunning _ = true from rfl, Bool.true_and] at h
        rwa [if_pos (decide_eq_true hlt)] at h
      rw [hnone]
      exact ⟨rfl, rfl⟩
    · exact ⟨rfl, rfl⟩

/-- An advance leaves what the instruction leaves. -/
theorem advance_supply {p : Program} (traced : Bool) {r : Run} {i : Instruction}
    (h : r.next? p = some i) :
    (advance p traced r).machine.supply = (r.machine.apply i).machine.supply := by
  obtain ⟨noted, hadvance⟩ := advance_of_next traced h
  rw [hadvance]
  cases r.machine.apply i <;> rfl

/-- **What fetching a byte keeps of the supply is kept by a run.** -/
theorem supply_invariant {P : Supply → Prop} (hfetch : ∀ s, P s → P s.fetch.2) (p : Program)
    (traced : Bool) (n : Nat) {r : Run} (hr : P r.machine.supply) :
    P (advanceFor p traced n r).machine.supply :=
  machine_invariant (P := fun m => P m.supply) (fun _ i => Machine.supply_apply hfetch i)
    (fun _ h => h) (fun _ h => h) p traced n hr

/-- What a run leaves of its input is an end of it. -/
theorem input_advanceFor (p : Program) (traced : Bool) (n : Nat) (r : Run) :
    ∃ k, (advanceFor p traced n r).machine.input = r.machine.input.drop k :=
  supply_invariant (Supply.input_fetch_drop r.machine.input) p traced n
    ⟨0, r.machine.input.drop_zero.symm⟩

/-- **The bytes that are delivered to the instructions of a run are the first ones of what the
machine could read**, in order and each of them once. -/
theorem bytes_eq_delivered (p : Program) (traced : Bool) (n : Nat) (r : Run) :
    r.machine.supply.bytes =
      r.delivered p traced n ++ (advanceFor p traced n r).machine.supply.bytes := by
  induction n generalizing r with
  | zero => rfl
  | succ n ih =>
    rw [advanceFor_succ, delivered, List.append_assoc, ← ih]
    cases h : r.next? p with
    | none => rw [(advance_of_no_next traced h).2, Option.elim_none, List.nil_append]
    | some i =>
      rw [advance_supply traced h, Option.elim_some]
      exact r.machine.bytes_eq_taken i

end Run

end TapeLanguage
