import TapeLanguage.Machine.Basic
import TapeLanguage.Machine.Tape
import TapeLanguage.Proofs.Step
import TapeLanguage.Proofs.Supply
import TapeLanguage.Source

/-!
# Structured programs, and what they do on the machine

The tape language told as a structured language, without positions, jumps or a stack. A `Code` is a
tree of actions, sequences and loops; `Code.text` writes it down. It acts on a `Store`: cells, a
pointer, the input that is left and the output so far. `Evaluates` says what becomes of a store and
how many steps that takes: one for each action and one for each test of a loop. A code is done, or
it is stuck at an action that cannot be executed; then the index of the action in the text is kept.

A machine holds a store (`Machine.store`), and an instruction that is no bracket acts on it as its
action does (`apply_carries`). Code is `Placed` in a program when its instructions stand there one
after another and the two brackets of each loop know each other. A machine at the entry of placed
code then does what the code does: it arrives behind the code, with the same loops open as before,
or it fails where the code is stuck (`Evaluates.simulates`). A loop has two entries, its beginning
and, after a pass, its end; at both the machine tests the cell and goes to the same places
(`advance_loop`).

In turn a machine at the entry of placed code that comes to an end within some number of steps has
followed an evaluation (`evaluates_or_running`).
-/

set_option autoImplicit false

namespace TapeLanguage

/-! ## Stores -/

/-- What a program acts on. -/
structure Store where
  /-- The cells. -/
  cells : Fin capacity → UInt8
  /-- The cell that is read and written. -/
  pointer : Fin capacity
  /-- The bytes that are still to be read. -/
  input : List UInt8
  /-- The bytes written. -/
  output : List UInt8

namespace Store

/-- The cell under the pointer. -/
def cell (s : Store) : UInt8 :=
  s.cells s.pointer

/-- Put a byte under the pointer. -/
def put (s : Store) (value : UInt8) : Store :=
  { s with cells := fun i => if i = s.pointer then value else s.cells i }

end Store

/-! ## Actions -/

/-- The instructions that are no brackets. -/
inductive Action where
  | moveLeft
  | moveRight
  | increment
  | decrement
  | output
  | input
  deriving DecidableEq, Repr

/-- Why an action cannot be executed. -/
inductive Obstacle where
  /-- There is no input left. -/
  | noInput
  /-- The pointer is at the first cell. -/
  | firstCell
  /-- The pointer is at the last cell. -/
  | lastCell
  deriving DecidableEq, Repr

namespace Action

/-- The action as an instruction of the tape language. -/
def op : Action → Op
  | moveLeft => .moveLeft
  | moveRight => .moveRight
  | increment => .increment
  | decrement => .decrement
  | output => .output
  | input => .input

/-- Move the pointer one cell up. -/
def up (s : Store) : Except Obstacle Store :=
  if h : s.pointer.val + 1 < capacity then .ok { s with pointer := ⟨s.pointer.val + 1, h⟩ }
  else .error .lastCell

/-- Move the pointer one cell down. -/
def down (s : Store) : Except Obstacle Store :=
  if s.pointer.val = 0 then .error .firstCell
  else .ok { s with pointer := ⟨s.pointer.val - 1, by omega⟩ }

/-- Read a byte into the cell. -/
def read (s : Store) : Except Obstacle Store :=
  match s.input with
  | byte :: rest => .ok { s.put byte with input := rest }
  | [] => .error .noInput

/-- Execute an action. -/
def step (a : Action) (s : Store) : Except Obstacle Store :=
  match a with
  | moveLeft => down s
  | moveRight => up s
  | increment => .ok (s.put (s.cell + 1))
  | decrement => .ok (s.put (s.cell - 1))
  | output => .ok { s with output := s.output ++ [s.cell] }
  | input => read s

end Action

/-- The fault that an obstacle is reported as, at the index of the action. -/
def Obstacle.fault (o : Obstacle) (index : Nat) : Fault :=
  match o with
  | noInput => .inputExhausted index
  | firstCell => .outsideTape index (-1) capacity
  | lastCell => .outsideTape index capacity capacity

/-- A fault tells the obstacle and the index. -/
theorem Obstacle.fault_inj {o o' : Obstacle} {k k' : Nat} (h : o.fault k = o'.fault k') :
    o = o' ∧ k = k' := by
  cases o <;> cases o' <;> simp [fault, capacity] at h ⊢ <;> omega

/-! ## Code -/

/-- A structured program. -/
inductive Code where
  /-- Nothing. -/
  | skip
  /-- An action. -/
  | single (a : Action)
  /-- One code after the other. -/
  | seq (first second : Code)
  /-- A code that is repeated as long as the cell is not zero, which is tested before each pass. -/
  | loop (body : Code)
  deriving DecidableEq, Repr

namespace Code

/-- The number of instructions. -/
def size : Code → Nat
  | skip => 0
  | single _ => 1
  | seq first second => first.size + second.size
  | loop body => body.size + 2

/-- The instructions in the order of the text. -/
def ops : Code → List Op
  | skip => []
  | single a => [a.op]
  | seq first second => first.ops ++ second.ops
  | loop body => .openLoop :: (body.ops ++ [.closeLoop])

/-- The text of a code. -/
def text (c : Code) : String :=
  String.ofList (c.ops.map Op.symbol)

@[simp] theorem length_ops (c : Code) : c.ops.length = c.size := by
  induction c with
  | skip => rfl
  | single a => rfl
  | seq first second ihf ihs => rw [ops, List.length_append, ihf, ihs, size]
  | loop body ih => simp [ops, size, ih]

end Code

/-! ## Evaluation -/

/-- What becomes of a code. -/
inductive Final where
  /-- It is done. -/
  | done (s : Store)
  /-- It is stuck at the action with an index. -/
  | stuck (o : Obstacle) (index : Nat) (s : Store)

/-- The store that is left. -/
def Final.store : Final → Store
  | done s => s
  | stuck _ _ s => s

/-- The code, whose first instruction has the index `start`, takes a store to its end in a number of
steps. A loop that is reached, and a loop whose body has been passed, takes one step to test the
cell. -/
inductive Evaluates : Nat → Code → Store → Nat → Final → Prop
  | skip {start : Nat} {s : Store} : Evaluates start .skip s 0 (.done s)
  | single {start : Nat} {a : Action} {s s' : Store} :
      a.step s = .ok s' → Evaluates start (.single a) s 1 (.done s')
  | obstacle {start : Nat} {a : Action} {s : Store} {o : Obstacle} :
      a.step s = .error o → Evaluates start (.single a) s 0 (.stuck o start s)
  | seq {start : Nat} {first second : Code} {s s' : Store} {n n' : Nat} {e : Final} :
      Evaluates start first s n (.done s') → Evaluates (start + first.size) second s' n' e →
      Evaluates start (.seq first second) s (n + n') e
  | seqStuck {start : Nat} {first second : Code} {s s' : Store} {n k : Nat} {o : Obstacle} :
      Evaluates start first s n (.stuck o k s') →
      Evaluates start (.seq first second) s n (.stuck o k s')
  | loopExit {start : Nat} {body : Code} {s : Store} :
      s.cell = 0 → Evaluates start (.loop body) s 1 (.done s)
  | loopPass {start : Nat} {body : Code} {s s' : Store} {n n' : Nat} {e : Final} :
      s.cell ≠ 0 → Evaluates (start + 1) body s n (.done s') →
      Evaluates start (.loop body) s' n' e → Evaluates start (.loop body) s (1 + n + n') e
  | loopStuck {start : Nat} {body : Code} {s s' : Store} {n k : Nat} {o : Obstacle} :
      s.cell ≠ 0 → Evaluates (start + 1) body s n (.stuck o k s') →
      Evaluates start (.loop body) s (1 + n) (.stuck o k s')

/-- **The index of a stuck code is that of its action in the text.** -/
theorem Evaluates.action_of_stuck {start n k : Nat} {c : Code} {s s' : Store} {o : Obstacle}
    (h : Evaluates start c s n (.stuck o k s')) :
    ∃ (a : Action) (j : Nat), k = start + j ∧ c.ops[j]? = some a.op ∧ a.step s' = .error o := by
  generalize he : Final.stuck o k s' = e at h
  induction h with
  | skip | single _ | loopExit _ => exact absurd he nofun
  | @obstacle start a s o' hstep =>
    cases he
    exact ⟨a, 0, rfl, rfl, hstep⟩
  | @seq start first second _ _ _ _ _ _ _ _ ihs =>
    obtain ⟨a, j, rfl, hop, hstep⟩ := ihs he
    refine ⟨a, first.size + j, by omega, ?_, hstep⟩
    rw [Code.ops, ← Code.length_ops, List.getElem?_append_right (Nat.le_add_right _ _),
      Nat.add_sub_cancel_left]
    exact hop
  | @seqStuck start first second _ _ _ _ _ _ ihf =>
    obtain ⟨a, j, rfl, hop, hstep⟩ := ihf he
    refine ⟨a, j, rfl, ?_, hstep⟩
    rw [Code.ops, List.getElem?_append_left (List.getElem?_eq_some_iff.1 hop).1]
    exact hop
  | loopPass _ _ _ _ ihl => exact ihl he
  | @loopStuck start body _ _ _ _ _ _ _ ihb =>
    obtain ⟨a, j, rfl, hop, hstep⟩ := ihb he
    refine ⟨a, j + 1, by omega, ?_, hstep⟩
    rw [Code.ops, List.getElem?_cons_succ,
      List.getElem?_append_left (List.getElem?_eq_some_iff.1 hop).1]
    exact hop

/-! ## Actions on a machine -/

namespace Machine

/-- The store that a machine holds; waiting bytes are read before the rest of the input. -/
def store (m : Machine) : Store :=
  ⟨m.tape.cell, m.tape.pointer, m.queue ++ m.input.contents, m.output.contents⟩

theorem cell_store_eq (m : Machine) : m.store.cell = m.tape.read := rfl

theorem store_put (m : Machine) (value : UInt8) :
    ({ m with tape := m.tape.store value } : Machine).store = m.store.put value := by
  have hcells : (m.tape.store value).cell =
      fun i => if i = m.tape.pointer then value else m.tape.cell i :=
    funext fun i => m.tape.cell_store value i
  simp only [store, Store.put, hcells, Tape.pointer_store]
  rfl

/-- What an instruction at an index does to a machine, told as what an action does to its store. -/
inductive Carries (m : Machine) (index : Nat) : Except Obstacle Store → Outcome → Prop
  | moved (m' : Machine) : SameLoops m m' → m'.input.Steady →
      Carries m index (.ok m'.store) (.moved (index + 1) m')
  | stopped (o : Obstacle) (m' : Machine) : SameLoops m m' → m'.store = m.store →
      Carries m index (.error o) (.stopped (o.fault index) m')

variable {m : Machine} {index : Nat}

theorem change_carries (hin : m.input.Steady) (f : UInt8 → UInt8) :
    Carries m index (.ok (m.store.put (f m.store.cell))) (m.change (Tape.change f) index) := by
  rw [cell_store_eq, ← store_put]
  exact .moved _ ⟨rfl, rfl, rfl, rfl⟩ hin

theorem emit_carries (hin : m.input.Steady) :
    Carries m index (Action.output.step m.store) (m.emit index) := by
  have hstore : Action.output.step m.store =
      .ok ({ m with output := (m.output.write m.tape.read).flush } : Machine).store := by
    simp only [Action.step, store, Output.contents_flush, Output.contents_write]
    rfl
  rw [hstore]
  exact .moved _ ⟨rfl, rfl, rfl, rfl⟩ hin

theorem up_carries (hin : m.input.Steady) :
    Carries m index (Action.up m.store) (m.move 1 index) := by
  have hbound := m.tape.pointer.isLt
  by_cases h : m.tape.pointer.val + 1 < capacity
  · have hmove : m.tape.move? 1 = some ⟨m.tape.cells, ⟨m.tape.pointer.val + 1, h⟩⟩ :=
      Tape.move?_of_target rfl
    have hup : Action.up m.store =
        .ok ({ m with tape := ⟨m.tape.cells, ⟨m.tape.pointer.val + 1, h⟩⟩ } : Machine).store :=
      dif_pos h
    rw [move, hmove, hup]
    exact .moved _ ⟨rfl, rfl, rfl, rfl⟩ hin
  · -- the pointer is at the last cell
    have htarget : m.tape.target 1 = (capacity : Int) := by
      rw [Tape.target]
      omega
    have hmove : m.tape.move? 1 = none := Tape.move?_of_outside (by omega)
    have hup : Action.up m.store = .error .lastCell := dif_neg h
    rw [move, hmove, hup, htarget]
    exact .stopped .lastCell m (.refl m) rfl

theorem down_carries (hin : m.input.Steady) :
    Carries m index (Action.down m.store) (m.move (-1) index) := by
  have hbound := m.tape.pointer.isLt
  by_cases h : m.tape.pointer.val = 0
  · -- the pointer is at the first cell
    have htarget : m.tape.target (-1) = -1 := by
      rw [Tape.target, h]
      rfl
    have hmove : m.tape.move? (-1) = none := Tape.move?_of_outside (by omega)
    have hdown : Action.down m.store = .error .firstCell := if_pos h
    rw [move, hmove, hdown, htarget]
    exact .stopped .firstCell m (.refl m) rfl
  · have hlt : m.tape.pointer.val - 1 < capacity := by omega
    have hmove : m.tape.move? (-1) = some ⟨m.tape.cells, ⟨m.tape.pointer.val - 1, hlt⟩⟩ := by
      apply Tape.move?_of_target
      show (m.tape.pointer.val : Int) + -1 = ((m.tape.pointer.val - 1 : Nat) : Int)
      omega
    have hdown : Action.down m.store =
        .ok ({ m with tape := ⟨m.tape.cells, ⟨m.tape.pointer.val - 1, hlt⟩⟩ } : Machine).store :=
      if_neg h
    rw [move, hmove, hdown]
    exact .moved _ ⟨rfl, rfl, rfl, rfl⟩ hin

/-- The byte that is stored is the first of the input, which goes on behind it. -/
theorem read_store_eq (byte : UInt8) (queue : List UInt8) (input : Input)
    (h : m.queue ++ m.input.contents = byte :: (queue ++ input.contents)) :
    Action.read m.store =
      .ok (Machine.store { m with tape := m.tape.store byte, queue := queue, input := input }) := by
  have hinput : m.store.input = byte :: (queue ++ input.contents) := h
  have hread : Action.read m.store =
      .ok { m.store.put byte with input := queue ++ input.contents } := by
    rw [Action.read, hinput]
  rw [hread, ← store_put]
  rfl

theorem take_carries (hin : m.input.Steady) :
    Carries m index (Action.read m.store) (m.take index) := by
  cases hqueue : m.queue with
  | cons byte more =>
    -- a byte is waiting, and the input is not asked
    have hread := read_store_eq byte more m.input (by rw [hqueue]; rfl)
    rw [take, hqueue, hread]
    exact .moved _ ⟨rfl, rfl, rfl, rfl⟩ hin
  | nil =>
    cases hcontents : m.input.contents with
    | nil =>
      have hread : Action.read m.store = .error .noInput := by
        simp only [Action.read, store, hqueue, hcontents, List.append_nil]
      rw [take, hqueue, hin.read_of_nil hcontents, hread]
      refine .stopped .noInput _ ⟨rfl, rfl, rfl, rfl⟩ ?_
      simp only [store, hqueue]
    | cons byte rest =>
      obtain ⟨more, hunit, hrest⟩ := hin.read_of_cons hcontents
      have hread := read_store_eq byte more (m.input.drop 1) (by rw [hqueue, hcontents, hrest]; rfl)
      rw [take, hqueue, hunit, hread]
      exact .moved _ ⟨rfl, rfl, rfl, rfl⟩ (hin.drop 1)

/-- **An instruction that is no bracket does to a machine what its action does to the store.** -/
theorem apply_carries {a : Action} {i : Instruction} (hop : i.op = a.op) (hindex : i.index = index)
    (hin : m.input.Steady) : Carries m index (a.step m.store) (m.apply i) := by
  unfold apply
  rw [hop, hindex]
  cases a with
  | moveLeft => exact down_carries hin
  | moveRight => exact up_carries hin
  | increment => exact change_carries hin (· + 1)
  | decrement => exact change_carries hin (· - 1)
  | output => exact emit_carries hin
  | input => exact take_carries hin

end Machine

/-! ## Code in a program -/

/-- The instructions of the code stand in the program one after another, the first at `start`. -/
def Placed (p : Program) : Nat → Code → Prop
  | _, .skip => True
  | start, .single a => ∃ i, p.instructions[start]? = some i ∧ i.op = a.op ∧ i.index = start
  | start, .seq first second => Placed p start first ∧ Placed p (start + first.size) second
  | start, .loop body =>
    (∃ i, p.instructions[start]? = some i ∧ i.op = .openLoop ∧ i.index = start ∧
      i.partner = some ((start + body.size + 1 : Nat) : Int)) ∧
    Placed p (start + 1) body ∧
    ∃ i, p.instructions[start + body.size + 1]? = some i ∧ i.op = .closeLoop ∧
      i.index = (start + body.size + 1 : Nat)

/-- A run goes on at a position, with a resume stack, after some steps and with a store. -/
structure At (position : Nat) (resume : List Int) (steps : Nat) (s : Store) (r : Run) : Prop where
  running : r.phase = .running
  position : r.position = position
  resume : r.machine.resume = resume
  steps : r.machine.steps = steps
  store : r.machine.store = s
  input : r.machine.input.Steady

/-- A run is at the beginning of code, or at the end of a loop that has been passed. -/
def AtEntry (start : Nat) (c : Code) (resume : List Int) (steps : Nat) (s : Store) (r : Run) :
    Prop :=
  At start resume steps s r ∨
    ∃ body, c = .loop body ∧ At (start + body.size + 1) (((start : Int) + 1) :: resume) steps s r

section Simulation

variable {p : Program} {start steps : Nat} {resume : List Int} {s : Store} {r : Run}

/-- Code that is no loop has one entry. -/
theorem AtEntry.front {c : Code} (hr : AtEntry start c resume steps s r)
    (hc : ∀ body, c ≠ .loop body) : At start resume steps s r := by
  rcases hr with hr | ⟨body, hloop, -⟩
  · exact hr
  · exact absurd hloop (hc body)

/-- A run that goes on after an instruction. -/
theorem at_ofOutcome {position next : Nat} {noted : Trace} {m' : Machine}
    (hresume : m'.resume = resume) (hsteps : m'.steps = steps) (hstore : m'.store = s)
    (hin : m'.input.Steady) :
    At next resume (steps + 1) s (Run.ofOutcome position noted (.moved next m')) :=
  ⟨rfl, rfl, hresume, congrArg (· + 1) hsteps, hstore, hin⟩

/-- The outcome of a run that goes on at an instruction. -/
theorem At.advance_eq {i : Instruction} (traced : Bool) (hr : At start resume steps s r)
    (hi : p.instructions[start]? = some i) :
    ∃ noted, Run.advance p traced r = Run.ofOutcome start noted (r.machine.apply i) := by
  obtain ⟨phase, position, m, trace⟩ := r
  obtain rfl : phase = .running := hr.running
  obtain rfl : position = start := hr.position
  exact Run.advance_of_instruction traced m trace hi

/-- **At either entry of a loop the cell is tested**: the run goes on behind the loop or in its
body. -/
theorem advance_loop {body : Code} (traced : Bool) (hp : Placed p start (.loop body))
    (hr : AtEntry start (.loop body) resume steps s r) :
    (s.cell = 0 → At (start + (Code.loop body).size) resume (steps + 1) s
        (Run.advance p traced r)) ∧
      (s.cell ≠ 0 → At (start + 1) (((start : Int) + 1) :: resume) (steps + 1) s
        (Run.advance p traced r)) := by
  obtain ⟨⟨i, hi, hiop, hiindex, hpartner⟩, -, ⟨j, hj, hjop, hjindex⟩⟩ := hp
  rcases hr with hr | ⟨_, ⟨rfl⟩, hr⟩
  · -- at the beginning the loop is skipped or entered
    obtain ⟨noted, hadvance⟩ := hr.advance_eq traced hi
    have hcell : s.cell = r.machine.tape.read := by rw [← hr.store]; rfl
    rw [hadvance, hcell]
    constructor
    · intro hzero
      rw [Machine.apply_skip hiop hzero hpartner]
      exact at_ofOutcome hr.resume hr.steps hr.store hr.input
    · intro hnonzero
      rw [Machine.apply_enter hiop hnonzero, hiindex]
      exact at_ofOutcome (congrArg _ hr.resume) hr.steps hr.store hr.input
  · -- at the end it is left or repeated
    obtain ⟨noted, hadvance⟩ := hr.advance_eq traced hj
    have hcell : s.cell = r.machine.tape.read := by rw [← hr.store]; rfl
    rw [hadvance, hcell]
    constructor
    · intro hzero
      rw [Machine.apply_leave hjop hzero, hjindex]
      exact at_ofOutcome (congrArg List.tail hr.resume) hr.steps hr.store hr.input
    · intro hnonzero
      rw [Machine.apply_repeat hjop hnonzero hr.resume]
      exact at_ofOutcome hr.resume hr.steps hr.store hr.input

/-- What becomes of a run of code whose next instruction stands at `stop`. -/
def Arrives (stop : Nat) (resume : List Int) (steps : Nat) : Final → Run → Prop
  | .done s, r => At stop resume steps s r
  | .stuck o index s, r =>
    r.phase = .failed (o.fault index) ∧ r.machine.steps = steps ∧ r.machine.store = s

/-- A run at an action arrives behind it or fails. -/
theorem advance_action {a : Action} (traced : Bool) (hp : Placed p start (.single a))
    (hr : At start resume steps s r) :
    (∀ s', a.step s = .ok s' → At (start + 1) resume (steps + 1) s' (Run.advance p traced r)) ∧
      ∀ o, a.step s = .error o →
        Arrives (start + 1) resume steps (.stuck o start s) (Run.advance p traced r) := by
  obtain ⟨i, hi, hop, hindex⟩ := hp
  obtain ⟨noted, hadvance⟩ := hr.advance_eq traced hi
  have hcarries := Machine.apply_carries hop hindex hr.input
  rw [hr.store] at hcarries
  rw [hadvance]
  generalize r.machine.apply i = outcome at hcarries ⊢
  constructor
  · intro s' hs'
    rw [hs'] at hcarries
    cases hcarries with
    | moved m' hsame hin =>
      exact at_ofOutcome (hsame.resume.trans hr.resume) (hsame.steps.trans hr.steps) rfl hin
  · intro o ho
    rw [ho] at hcarries
    cases hcarries with
    | stopped _ m' hsame hstore =>
      exact ⟨rfl, hsame.steps.trans hr.steps, hstore.trans hr.store⟩

/-! ## Following an evaluation -/

/-- **Code that is evaluated is executed**: the run arrives behind it or fails where it is stuck. -/
theorem Evaluates.simulates {c : Code} {n : Nat} {e : Final} (traced : Bool)
    (h : Evaluates start c s n e) (hp : Placed p start c) (hr : AtEntry start c resume steps s r) :
    ∃ fuel, Arrives (start + c.size) resume (steps + n) e (Run.advanceFor p traced fuel r) := by
  induction h generalizing resume steps r with
  | skip => exact ⟨0, hr.front nofun⟩
  | single hstep =>
    refine ⟨1, ?_⟩
    rw [Run.advanceFor_succ]
    exact (advance_action traced hp (hr.front nofun)).1 _ hstep
  | obstacle hstep =>
    refine ⟨1, ?_⟩
    rw [Run.advanceFor_succ]
    exact (advance_action traced hp (hr.front nofun)).2 _ hstep
  | seq _ _ ihf ihs =>
    -- the run arrives between the two codes with the same loops open
    obtain ⟨fuel, hfirst⟩ := ihf hp.1 (Or.inl (hr.front nofun))
    obtain ⟨fuel', hsecond⟩ := ihs hp.2 (Or.inl hfirst)
    refine ⟨fuel + fuel', ?_⟩
    rw [Run.advanceFor_add, Code.size, ← Nat.add_assoc, ← Nat.add_assoc]
    exact hsecond
  | seqStuck _ ihf => exact ihf hp.1 (Or.inl (hr.front nofun))
  | loopExit hcell =>
    refine ⟨1, ?_⟩
    rw [Run.advanceFor_succ]
    exact (advance_loop traced hp hr).1 hcell
  | @loopPass start body s s' n n' e hcell _ _ ihb ihl =>
    have hbody := (advance_loop traced hp hr).2 hcell
    obtain ⟨fuel, hpassed⟩ := ihb hp.2.1 (Or.inl hbody)
    -- the body leads to the second entry of the loop
    have hend : start + 1 + body.size = start + body.size + 1 := by omega
    rw [Arrives, hend] at hpassed
    obtain ⟨fuel', hloop⟩ := ihl hp (Or.inr ⟨body, rfl, hpassed⟩)
    refine ⟨fuel + fuel' + 1, ?_⟩
    rw [Run.advanceFor_succ, Run.advanceFor_add, ← Nat.add_assoc, ← Nat.add_assoc]
    exact hloop
  | loopStuck hcell _ ihb =>
    have hbody := (advance_loop traced hp hr).2 hcell
    obtain ⟨fuel, hstuck⟩ := ihb hp.2.1 (Or.inl hbody)
    refine ⟨fuel + 1, ?_⟩
    rw [Run.advanceFor_succ, ← Nat.add_assoc]
    exact hstuck

/-- A run that goes on after some steps goes on after fewer. -/
theorem running_of_add (traced : Bool) (a b : Nat)
    (h : (Run.advanceFor p traced (a + b) r).isRunning = true) :
    (Run.advanceFor p traced a r).isRunning = true := by
  rw [Run.advanceFor_add] at h
  by_cases hrunning : (Run.advanceFor p traced a r).isRunning = true
  · exact hrunning
  · rw [Run.advanceFor_of_ended p traced b (Bool.eq_false_iff.2 hrunning)] at h
    exact h

theorem At.isRunning (h : At start resume steps s r) : r.isRunning = true := by
  rw [Run.isRunning, h.running]

/-- **A run of code that comes to an end follows an evaluation.** -/
theorem evaluates_or_running (traced : Bool) (fuel : Nat) (c : Code) (hp : Placed p start c)
    (hr : AtEntry start c resume steps s r) :
    (∃ n e, Evaluates start c s n e) ∨ (Run.advanceFor p traced fuel r).isRunning = true := by
  -- a loop is taken up again with less fuel, all other code is smaller
  induction fuel generalizing start c resume steps s r with
  | zero =>
    rcases hr with hr | ⟨_, -, hr⟩
    · exact Or.inr hr.isRunning
    · exact Or.inr hr.isRunning
  | succ fuel ih =>
    induction c generalizing start resume steps s r with
    | skip => exact Or.inl ⟨0, _, .skip⟩
    | single a =>
      -- an action is executed or stuck
      cases hstep : a.step s with
      | ok s' => exact Or.inl ⟨1, _, .single hstep⟩
      | error o => exact Or.inl ⟨0, _, .obstacle hstep⟩
    | seq first second ihf ihs =>
      rcases ihf hp.1 (Or.inl (hr.front nofun)) with ⟨n, e, hfirst⟩ | hrunning
      · cases e with
        | stuck o k s' => exact Or.inl ⟨n, _, .seqStuck hfirst⟩
        | done s' =>
          obtain ⟨taken, harrived⟩ := hfirst.simulates traced hp.1 (Or.inl (hr.front nofun))
          rcases ihs hp.2 (Or.inl harrived) with ⟨n', e, hsecond⟩ | hrunning
          · exact Or.inl ⟨_, e, .seq hfirst hsecond⟩
          · -- it still runs that long after the first code, so it does from the beginning
            rw [← Run.advanceFor_add, Nat.add_comm] at hrunning
            exact Or.inr (running_of_add traced _ _ hrunning)
      · exact Or.inr hrunning
    | loop body ihb =>
      by_cases hcell : s.cell = 0
      · exact Or.inl ⟨1, _, .loopExit hcell⟩
      · have hbody := (advance_loop traced hp hr).2 hcell
        rcases ihb hp.2.1 (Or.inl hbody) with ⟨n, e, hpass⟩ | hrunning
        · cases e with
          | stuck o k s' => exact Or.inl ⟨_, _, .loopStuck hcell hpass⟩
          | done s' =>
            -- the loop is reached again, at its end, with at least one step taken
            obtain ⟨taken, hpassed⟩ := hpass.simulates traced hp.2.1 (Or.inl hbody)
            have hend : start + 1 + body.size = start + body.size + 1 := by omega
            rw [Arrives, hend] at hpassed
            rcases ih (.loop body) hp (Or.inr ⟨body, rfl, hpassed⟩) with ⟨n', e, hloop⟩ | hrunning
            · exact Or.inl ⟨_, e, .loopPass hcell hpass hloop⟩
            · rw [← Run.advanceFor_add, Nat.add_comm, ← Run.advanceFor_succ] at hrunning
              refine Or.inr (running_of_add traced (fuel + 1) taken ?_)
              rwa [Nat.add_right_comm]
        · rw [← Run.advanceFor_succ] at hrunning
          exact Or.inr (running_of_add traced (fuel + 1) 1 hrunning)

end Simulation

end TapeLanguage
