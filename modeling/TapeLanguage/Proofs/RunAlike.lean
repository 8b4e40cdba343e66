import TapeLanguage.Proofs.Concatenation
import TapeLanguage.Proofs.Coupling
import TapeLanguage.Proofs.Decoding
import TapeLanguage.Proofs.Places

/-!
# Programs that run alike

Two programs whose instructions differ only in what no run looks at are run alike: in the places of
the instructions, or in one of the two records of a pair of brackets.

A program records the pairs of its brackets twice: a bracket names its partner, and the jump table
leads to it. A bracket that names its partner is never looked up (`Machine.partner?_of_named`), so
the table of a program whose brackets all do so is never used. In a decoded program both records are
the same, and a bracket whose name is removed finds the same partner in the table
(`Program.Decodes.partner?_unnamed`).

In both cases two programs with the same instructions up to the names of partners are run by
machines that differ in nothing but the programs they hold (`Program.runsAs_of_instructions`). So
either record can be replaced without changing a run (`partner_records_interchangeable`).

The places of tokens are kept for diagnostics and are looked at by nothing else. Decoding tokens
without their places (`unplaced`) gives the program or the error that decoding them gives, without
the places (`decode_unplaced`): this is so for each step of the first pass, for each instruction
created by the second, and hence for the whole. The instructions of a source text without their
places are the characters of the text without its comments (`ofText_filter`), so that parsing a text
is decoding its filtered text (`parse_eq_decode_filter`). The symbols of a decoded program are in
the same way its tokens without places, which makes decoding a program's own source give the program
back.

Programs that are the same up to places have the same runs (`run_of_unplaced`).
-/

set_option autoImplicit false

namespace TapeLanguage

/-! ## Programs with one record -/

/-- An instruction that names no partner. -/
def Instruction.unnamed (i : Instruction) : Instruction :=
  { i with partner := none }

namespace Program

/-- The program with another jump table. -/
def withJumps (p : Program) (jumps : Jumps) : Program :=
  { p with jumps := jumps }

/-- The program whose instructions name no partners. -/
def unnamed (p : Program) : Program :=
  { p with instructions := p.instructions.map Instruction.unnamed }

/-- Every bracket names its partner. -/
def NamesPartners (p : Program) : Prop :=
  ∀ i ∈ p.instructions, i.op.isBracket = true → i.partner ≠ none

instance (p : Program) : Decidable p.NamesPartners :=
  inferInstanceAs (Decidable (∀ i ∈ p.instructions, i.op.isBracket = true → i.partner ≠ none))

end Program

/-- Two runs that are at the same place on machines that differ in their programs alone. -/
structure Run.Alike (r r' : Run) : Prop where
  phase : r'.phase = r.phase
  position : r'.position = r.position
  machine : r'.machine = { r.machine with program := r'.machine.program }

/-- The runs of two programs are alike at each step, on every machine. -/
def Program.RunsAs (p q : Program) : Prop :=
  ∀ (m : Machine) (fuel : Nat) (traced : Bool) (trace : Trace),
    (m.run p fuel traced trace).Alike (m.run q fuel traced trace)

/-! ## Machines that hold different programs -/

namespace Coupling

variable {related : Option Program → Option Program → Prop}

/-- Runs in step are alike. -/
theorem Runs.alike {r r' : Run} (h : (ofPrograms related).Runs r r') : r.Alike r' := by
  obtain ⟨hphase, hposition, hm⟩ := h
  have hresume : r'.machine.resume = r.machine.resume := by
    simpa [ofPrograms, ofStreams] using hm.resume
  have hbookmark : r.machine.bookmark = r'.machine.bookmark := hm.bookmark
  have hsupply : r.machine.supply = r'.machine.supply := hm.supply
  have houtput : r.machine.output = r'.machine.output := hm.output
  rw [Machine.supply, Machine.supply, Supply.mk.injEq] at hsupply
  refine ⟨hphase.trans (Phase.shifted_zero _), hposition.trans (Int.add_zero _), ?_⟩
  obtain ⟨phase', position', ⟨tape', resume', bookmark', steps', program', queue', input',
    output'⟩, trace'⟩ := r'
  simp only [Machine.mk.injEq]
  exact ⟨hm.tape, hresume, hbookmark.symm, hm.steps, trivial, hsupply.1.symm, hsupply.2.symm,
    houtput.symm⟩

end Coupling

/-- **Programs have the same runs** if they have the same instructions up to the names of partners,
and the partners are the same on the machines that hold them. -/
theorem Program.runsAs_of_instructions (related : Option Program → Option Program → Prop)
    {p q : Program} (hrelated : related (some p) (some q)) (hsize : q.size = p.size)
    (h : ∀ position, Option.Rel (Coupling.ofPrograms related).Instructions (p.get? position)
      (q.get? position)) : p.RunsAs q := by
  intro m fuel traced trace
  have hstart : (Coupling.ofPrograms related).Runs (.start m p trace) (.start m q trace) :=
    ⟨rfl, rfl, rfl, rfl, rfl, rfl, hrelated, rfl, rfl⟩
  have hruns : (Coupling.ofPrograms related).Runs (m.run p fuel traced trace)
      (m.run q fuel traced trace) :=
    hstart.advanceFor fuel fun _ _ _ => Coupling.places_ofPrograms hsize (h _)
  exact hruns.alike

/-! ## Partners -/

namespace Machine

/-- A bracket that names its partner is not looked up. -/
theorem partner?_of_named (m m' : Machine) {i : Instruction} (h : i.partner ≠ none) :
    m'.partner? i = m.partner? i := by
  rw [partner?, partner?]
  cases hpartner : i.partner with
  | some partner => rfl
  | none => exact absurd hpartner h

/-- A bracket that names no partner is looked up in the jump table. -/
theorem partner?_unnamed (m : Machine) (i : Instruction) :
    m.partner? i.unnamed = m.jump? i.index := rfl

end Machine

namespace Program

/-- **A bracket of a decoded program finds in the jump table the partner that it names.** -/
theorem Decodes.partner?_unnamed {tokens : List Token} {p : Program} {n : Nat} {i : Instruction}
    {m m' : Machine} (h : Decodes tokens p) (hi : p.instructions[n]? = some i)
    (hm : m.program = some p) (hm' : m'.program = some p.unnamed) :
    m'.partner? i.unnamed = m.partner? i := by
  have hjump : m.jump? i.index = p.jumps[(n : Int)]? := by
    rw [Machine.jump?, hm, ← h.index_eq hi]
    rfl
  have hjump' : m'.jump? i.index = p.jumps[(n : Int)]? := by
    rw [Machine.jump?, hm', ← h.index_eq hi]
    rfl
  rw [Machine.partner?_unnamed, hjump', Machine.partner?, hjump, h.partner_eq hi]
  cases p.jumps[(n : Int)]? <;> rfl

/-! ## Replacing a record -/

/-- A program whose brackets name their partners has the same runs with every jump table. -/
theorem NamesPartners.runsAs {p : Program} (h : p.NamesPartners) (jumps : Jumps) :
    p.RunsAs (p.withJumps jumps) := by
  -- no instruction looks into the tables, so nothing has to be known of the programs held
  refine runsAs_of_instructions (fun _ _ => True) trivial rfl ?_
  intro position
  have hsame : (p.withJumps jumps).get? position = p.get? position := rfl
  rw [hsame]
  cases hi : p.get? position with
  | none => exact .none
  | some i =>
    obtain ⟨n, hn⟩ := exists_getElem?_of_get? hi
    refine .some (Coupling.instructions_ofPrograms rfl rfl ?_)
    intro hbracket m m' _
    exact m.partner?_of_named m' (h i (Array.mem_of_getElem? hn) hbracket)

/-- Equal programs differ in their jump tables alone. -/
theorem eq_withJumps_of_same {p q : Program} (h : p.same q = true) : q = p.withJumps q.jumps := by
  have hinstructions : p.instructions = q.instructions := of_decide_eq_true h
  rw [withJumps, hinstructions]

/-- A decoded program has the same runs without the names of partners. -/
theorem Decodes.runsAs_unnamed {tokens : List Token} {p : Program} (h : Decodes tokens p) :
    p.RunsAs p.unnamed := by
  -- the machines hold these two programs, whose tables are the same
  refine runsAs_of_instructions (fun held held' => held = some p ∧ held' = some p.unnamed)
    ⟨rfl, rfl⟩ Array.size_map ?_
  intro position
  have hmap : p.unnamed.get? position = (p.get? position).map Instruction.unnamed :=
    p.get?_map Instruction.unnamed position
  rw [hmap]
  cases hi : p.get? position with
  | none => exact .none
  | some i =>
    obtain ⟨n, hn⟩ := exists_getElem?_of_get? hi
    refine .some (Coupling.instructions_ofPrograms rfl rfl ?_)
    rintro - m m' ⟨hm, hm'⟩
    exact h.partner?_unnamed hn hm hm'

end Program

/-- **The two records of the bracket pairs are interchangeable.** Where every bracket names its
partner, the jump table can be replaced by any other one, so that programs that are equal have the
same runs, although equality leaves the jump tables out. In a decoded program the names can be
removed, as the jump table holds the same partners. -/
theorem partner_records_interchangeable :
    (∀ p : Program, p.NamesPartners →
      (∀ jumps, p.RunsAs (p.withJumps jumps)) ∧ ∀ q, p.same q = true → p.RunsAs q) ∧
    ∀ tokens source p, (Program.decode tokens source).outcome = .ok p → p.RunsAs p.unnamed := by
  refine ⟨fun p hp => ⟨hp.runsAs, ?_⟩, ?_⟩
  · intro q hq
    rw [Program.eq_withJumps_of_same hq]
    exact hp.runsAs q.jumps
  · intro tokens source p h
    exact (Program.decodes_of_decode h).runsAs_unnamed

/-- A loop that ends at a place of its own, and a decoded one whose brackets forget their
partners. -/
theorem partner_records_interchangeable_loop :
    let p : Program := ⟨#[⟨.openLoop, 0, 0, some 2, none, none⟩,
      ⟨.closeLoop, 1, 0, some 0, none, none⟩], ∅⟩
    p.NamesPartners ∧ p.RunsAs (p.withJumps ((∅ : Jumps).insert 0 7)) ∧
      p.RunsAs ⟨p.instructions, (∅ : Jumps).insert 1 5⟩ ∧
      ∃ q, (Program.decode (Token.ofText "+[-]")).outcome = .ok q ∧ q.RunsAs q.unnamed := by
  intro p
  have hnames : p.NamesPartners := by decide
  obtain ⟨htable, hequal⟩ := partner_records_interchangeable.1 p hnames
  have hdecoded : ∃ q, (Program.decode (Token.ofText "+[-]")).outcome = .ok q := ⟨_, rfl⟩
  obtain ⟨q, hq⟩ := hdecoded
  exact ⟨hnames, htable _, hequal _ (decide_eq_true rfl), q, hq,
    partner_records_interchangeable.2 _ _ q hq⟩

/-! ## Without places -/

/-- A token without its place. -/
def Token.unplaced (t : Token) : Token :=
  ⟨t.text, none, none⟩

/-- An instruction without its place. -/
def Instruction.unplaced (i : Instruction) : Instruction :=
  { i with line := none, column := none }

/-- The places are all that instructions can differ in that are the same without them. -/
theorem Instruction.eq_of_unplaced {i i' : Instruction} (h : i'.unplaced = i.unplaced) :
    i'.op = i.op ∧ i'.index = i.index ∧ i'.depth = i.depth ∧ i'.partner = i.partner := by
  simpa [unplaced] using h

/-- A decode error that shows no place. -/
def DecodeError.unplaced : DecodeError → DecodeError
  | unmatchedClose position _ => unmatchedClose position none
  | other => other

namespace Program

open Brackets

/-- A program whose instructions have no places. -/
def unplaced (p : Program) : Program :=
  { p with instructions := p.instructions.map Instruction.unplaced }

@[simp] theorem size_unplaced (p : Program) : p.unplaced.size = p.size :=
  Array.size_map

@[simp] theorem jumps_unplaced (p : Program) : p.unplaced.jumps = p.jumps := rfl

theorem get?_unplaced (p : Program) (position : Int) :
    p.unplaced.get? position = (p.get? position).map Instruction.unplaced :=
  p.get?_map Instruction.unplaced position

/-! ## The first pass without places -/

namespace Matching

/-- A matching of tokens without their places. -/
def unplaced (m : Matching) : Matching :=
  { m with labelled := m.labelled.map fun l => (l.1.unplaced, l.2) }

@[simp] theorem position_unplaced (m : Matching) : m.unplaced.position = m.position :=
  Array.size_map

theorem enter_unplaced (m : Matching) (t : Token) :
    m.unplaced.enter t.unplaced = (m.enter t).unplaced := by
  simp [enter, unplaced, position]

theorem leave_unplaced (m : Matching) (t : Token) (start : Nat) :
    m.unplaced.leave t.unplaced start = (m.leave t start).unplaced := by
  simp [leave, unplaced, position]

theorem pass_unplaced (m : Matching) (t : Token) :
    m.unplaced.pass t.unplaced = (m.pass t).unplaced := by
  simp [pass, unplaced]

/-- A stray loop end that can be shown is reported at its position. -/
theorem ofClose_unplaced {position : Int} {source : Option String} {line column : Option Int}
    (h : ∀ e, DecodeError.ofClose position source line column ≠ .undrawable e) :
    (DecodeError.ofClose position source line column).unplaced =
      .ofClose position none none none := by
  rw [DecodeError.ofClose] at h ⊢
  cases hsite : Site.find? source line column with
  | ok site => rfl
  | error e =>
    rw [hsite] at h
    exact absurd rfl (h e)

/-- A step reads a token without its place as it reads the token. -/
theorem step_unplaced {source : Option String} {m : Matching} {t : Token}
    (h : ∀ e, m.step source t ≠ .error (.undrawable e)) :
    m.unplaced.step none t.unplaced =
      ((m.step source t).map unplaced).mapError DecodeError.unplaced := by
  by_cases ho : t.Opens
  · rw [step_of_opens source m ho, step_of_opens none m.unplaced (t := t.unplaced) ho,
      enter_unplaced]
    rfl
  · by_cases hc : t.Closes
    · rw [step_of_closes source m hc] at h ⊢
      rw [step_of_closes none m.unplaced (t := t.unplaced) hc]
      have hopenings : m.unplaced.openings = m.openings := rfl
      rw [hopenings]
      cases hback : m.openings.back? with
      | some start =>
        simp only
        rw [leave_unplaced]
        rfl
      | none =>
        -- the error would show the place, if it could be drawn
        rw [hback] at h
        have herror := ofClose_unplaced fun e he => h e (congrArg Except.error he)
        simp only [position_unplaced]
        exact congrArg Except.error herror.symm
    · rw [step_of_plain source m ho hc, step_of_plain none m.unplaced (t := t.unplaced) ho hc,
        pass_unplaced]
      rfl

/-- **The first pass does not look at places.** -/
theorem steps_unplaced {source : Option String} (tokens : List Token) {m : Matching}
    (h : ∀ e, steps source m tokens ≠ .error (.undrawable e)) :
    steps none m.unplaced (tokens.map Token.unplaced) =
      ((steps source m tokens).map unplaced).mapError DecodeError.unplaced := by
  induction tokens generalizing m with
  | nil => rfl
  | cons t rest ih =>
    have hfirst : ∀ e, m.step source t ≠ .error (.undrawable e) := by
      intro e he
      apply h e
      rw [steps, he]
    rw [List.map_cons, steps, steps, step_unplaced hfirst]
    rw [steps] at h
    cases hstep : m.step source t with
    | error e => rfl
    | ok next =>
      rw [hstep] at h
      exact ih h

end Matching

/-! ## The second pass without places -/

/-- **The second pass gives the same instructions without places.** -/
theorem create_unplaced (jumps : Jumps) (labelled : List (Token × Nat))
    (made : Array Instruction) :
    create jumps (labelled.map fun l => (l.1.unplaced, l.2)) (made.map Instruction.unplaced) =
      ((create jumps labelled made).1.map Instruction.unplaced,
        (create jumps labelled made).2) := by
  induction labelled generalizing made with
  | nil => rfl
  | cons l rest ih =>
    obtain ⟨t, depth⟩ := l
    rw [List.map_cons, create, create]
    have htext : t.unplaced.text = t.text := rfl
    simp only [htext]
    cases Op.ofText? t.text with
    | none => rfl
    | some op =>
      -- the new instruction has the same index
      have hsize : (made.map Instruction.unplaced).size = made.size := Array.size_map
      have hnext :=
        ih (made.push (.make op depth made.size jumps[(made.size : Int)]? t.line t.column))
      rw [Array.map_push] at hnext
      simp only [hsize]
      exact hnext

theorem Matching.finish_unplaced (m : Matching) :
    m.unplaced.finish.outcome =
      (m.finish.outcome.map Program.unplaced).mapError DecodeError.unplaced := by
  have hcreate := create_unplaced m.jumps m.labelled.toList #[]
  have hlabelled : m.unplaced.labelled.toList =
      m.labelled.toList.map fun l => (l.1.unplaced, l.2) := Array.toList_map
  have hopenings : m.unplaced.openings = m.openings := rfl
  have hjumps : m.unplaced.jumps = m.jumps := rfl
  rw [Array.map_empty] at hcreate
  simp only [finish, hopenings, hjumps, hlabelled, position_unplaced, hcreate]
  by_cases hclosed : m.openings.isEmpty
  · rw [if_pos hclosed, if_pos hclosed]
    generalize create m.jumps m.labelled.toList #[] = result
    obtain ⟨made, stop⟩ := result
    cases stop <;> rfl
  · rw [if_neg hclosed, if_neg hclosed]
    rfl

/-! ## Decoding -/

/-- **Decoding does not look at places**, if it can show the place of its error. -/
theorem decode_unplaced {tokens : List Token} {source : Option String}
    (h : ∀ e, (decode tokens source).outcome ≠ .error (.undrawable e)) :
    (decode (tokens.map Token.unplaced)).outcome =
      ((decode tokens source).outcome.map unplaced).mapError DecodeError.unplaced := by
  have hsteps : ∀ e, Matching.steps source {} tokens ≠ .error (.undrawable e) := by
    intro e he
    apply h e
    rw [decode, he]
  have hread := Matching.steps_unplaced tokens hsteps
  have hempty : Matching.unplaced {} = {} := by simp [Matching.unplaced]
  rw [hempty] at hread
  rw [decode, decode, hread]
  cases Matching.steps source {} tokens with
  | error e => rfl
  | ok m => exact m.finish_unplaced

/-! ## Source texts -/

/-- The characters of a filtered text are its instructions without their places. -/
theorem ofText_filter (text : String) :
    Token.ofText (Source.filter text) =
      ((Source.scan text).map Token.ofLexeme).map Token.unplaced := by
  rw [Token.ofText, Source.filter, String.toList_ofList, ← Source.map_symbol_scan, List.map_map,
    List.map_map]
  rfl

/-- The symbols of a decoded program are its tokens without their places. -/
theorem Decodes.ofText_source {tokens : List Token} {p : Program} (h : Decodes tokens p) :
    Token.ofText p.source = tokens.map Token.unplaced := by
  rw [Token.ofText, source, String.toList_ofList, List.map_map]
  apply List.ext_getElem?
  intro n
  rw [List.getElem?_map, List.getElem?_map, Array.getElem?_toList]
  cases hi : p.instructions[n]? with
  | some i =>
    obtain ⟨t, -, ht, htext, -⟩ := h.instruction n i hi
    rw [ht, Option.map_some, Option.map_some, Token.unplaced, htext]
    rfl
  | none =>
    have hsize : tokens.length ≤ n := by
      rw [← h.size_eq]
      exact Array.getElem?_eq_none_iff.1 hi
    rw [List.getElem?_eq_none hsize]
    rfl

/-- **The symbols of a decoded program are decoded to it again.** -/
theorem decode_source {tokens : List Token} {source : Option String} {p : Program}
    (h : (decode tokens source).outcome = .ok p) :
    (decode (Token.ofText p.source)).outcome = .ok p.unplaced := by
  rw [(decodes_of_decode h).ofText_source, decode_unplaced, h]
  · rfl
  · rw [h]
    exact nofun

/-- Parsing a text is decoding it without its comments. -/
theorem decode_filter (text : String) :
    (decode (Token.ofText (Source.filter text))).outcome =
      ((parse text).outcome.map unplaced).mapError DecodeError.unplaced := by
  rw [ofText_filter]
  apply decode_unplaced
  -- the place of an error in a source text can be shown
  intro e he
  rcases parse_error he with ⟨position, site, hclose⟩ | ⟨position, unclosed, hopen⟩
  · exact absurd hclose nofun
  · exact absurd hopen nofun

theorem source_of_parse {text : String} {p : Program} (h : (parse text).outcome = .ok p) :
    p.source = Source.filter text := by
  apply Token.ofText_injective
  rw [(decodes_of_decode h).ofText_source, ofText_filter]

/-- Texts that differ in their comments are the same program up to places. -/
theorem parse_of_filter_eq {text other : String} {p : Program}
    (h : Source.filter other = Source.filter text) (hp : (parse text).outcome = .ok p) :
    ∃ p', (parse other).outcome = .ok p' ∧ p'.unplaced = p.unplaced := by
  have hother := decode_filter other
  rw [h, decode_filter text, hp] at hother
  cases hresult : (parse other).outcome with
  | ok p' =>
    rw [hresult] at hother
    exact ⟨p', rfl, (Except.ok.inj hother).symm⟩
  | error e =>
    rw [hresult] at hother
    exact absurd hother nofun

end Program

/-! ## Running without places -/

namespace Coupling

/-- The second machine executes the same instructions with other places, so that the programs differ
and their jump tables do not. -/
def replaced : Coupling :=
  { ofStreams .same with program := fun p p' => p'.map Program.jumps = p.map Program.jumps }

theorem instructions_replaced {i i' : Instruction} (h : i'.unplaced = i.unplaced) :
    replaced.Instructions i i' := by
  obtain ⟨hop, hindex, -, hpartner⟩ := Instruction.eq_of_unplaced h
  refine instructions_ofPrograms hop hindex ?_
  intro _ m m' hprogram
  -- the jump tables are the same, though the programs are not
  have hjump : ∀ index, m'.jump? index = m.jump? index := by
    intro index
    have htable := congrArg (fun table => table.bind fun jumps : Jumps => jumps[index]?) hprogram
    rw [Option.bind_map, Option.bind_map] at htable
    exact htable
  rw [Machine.partner?, Machine.partner?, hpartner, hindex, hjump]

theorem places_replaced {p p' : Program} (h : p'.unplaced = p.unplaced) (position : Int) :
    replaced.Places p p' position := by
  have hsize : p'.size = p.size := by rw [← p'.size_unplaced, h, p.size_unplaced]
  have hget : (p'.get? position).map Instruction.unplaced =
      (p.get? position).map Instruction.unplaced := by
    rw [← p'.get?_unplaced, h, p.get?_unplaced]
  refine places_ofPrograms hsize ?_
  generalize p.get? position = i at hget ⊢
  generalize p'.get? position = i' at hget ⊢
  cases i with
  | none =>
    obtain rfl := Option.map_eq_none_iff.1 hget
    exact .none
  | some i =>
    obtain ⟨j, rfl, hj⟩ := Option.map_eq_some_iff.1 hget
    exact .some (instructions_replaced hj)

end Coupling

/-- Programs that are the same up to places end their runs in the same way, whatever is traced. -/
theorem ending_of_unplaced {p p' : Program} (h : p'.unplaced = p.unplaced) (m : Machine) (n : Nat)
    (traced traced' : Bool) (trace trace' : Trace) :
    (m.run p' n traced' trace').ending = (m.run p n traced trace).ending := by
  have hjumps : p'.jumps = p.jumps := by rw [← p'.jumps_unplaced, h, p.jumps_unplaced]
  have hstart : Coupling.replaced.Runs (.start m p trace) (.start m p' trace') :=
    ⟨rfl, rfl, rfl, rfl, rfl, rfl, congrArg some hjumps, rfl, rfl⟩
  have hruns : Coupling.replaced.Runs (m.run p n traced trace) (m.run p' n traced' trace') :=
    hstart.advanceFor n fun _ _ _ => Coupling.places_replaced h _
  rw [hruns.ending_eq Eq.symm fun ho => congrArg Output.contents (Eq.symm ho)]
  exact Ending.after_zero _

/-- **Programs that are the same up to places have the same runs.** -/
theorem run_of_unplaced {p p' : Program} (h : p'.unplaced = p.unplaced) (m : Machine) (n : Nat)
    (traced : Bool) : (m.run p' n traced).ending = (m.run p n traced).ending :=
  ending_of_unplaced h m n traced traced #[] #[]

/-- **Comments and layout do not matter.** Parsing a text gives the program or the error that
decoding its filtered text gives, with places. The symbols of the program are the filtered text, and
decoding the symbols of any program gives it back without places. Texts that have the same filtered
text are programs whose runs are the same at each step, on every machine. -/
theorem parse_eq_decode_filter (text : String) :
    (Program.decode (Token.ofText (Source.filter text))).outcome =
        ((Program.parse text).outcome.map Program.unplaced).mapError DecodeError.unplaced ∧
      (∀ p, (Program.parse text).outcome = .ok p → p.source = Source.filter text) ∧
      (∀ tokens source p, (Program.decode tokens source).outcome = .ok p →
        (Program.decode (Token.ofText p.source)).outcome = .ok p.unplaced) ∧
      ∀ other p, Source.filter other = Source.filter text → (Program.parse text).outcome = .ok p →
        ∃ p', (Program.parse other).outcome = .ok p' ∧
          ∀ (m : Machine) (n : Nat) (traced : Bool),
            (m.run p' n traced).ending = (m.run p n traced).ending := by
  refine ⟨Program.decode_filter text, fun p => Program.source_of_parse, ?_, ?_⟩
  · intro tokens source p h
    exact Program.decode_source h
  · intro other p hfilter hp
    obtain ⟨p', hp', hsame⟩ := Program.parse_of_filter_eq hfilter hp
    exact ⟨p', hp', run_of_unplaced hsame⟩

/-- A loop on two lines with a remark. -/
theorem parse_eq_decode_filter_loop : ∃ p p', (Program.parse "[ -\n] ok").outcome = .ok p ∧
    p.source = "[-]" ∧ (Program.decode (Token.ofText p.source)).outcome = .ok p.unplaced ∧
    (Program.parse "[-]").outcome = .ok p' ∧ ∀ (m : Machine) (n : Nat) (traced : Bool),
      (m.run p' n traced).ending = (m.run p n traced).ending := by
  have hparsed : ∃ p, (Program.parse "[ -\n] ok").outcome = .ok p := ⟨_, rfl⟩
  obtain ⟨p, hp⟩ := hparsed
  obtain ⟨-, hsource, hagain, hruns⟩ := parse_eq_decode_filter "[ -\n] ok"
  obtain ⟨p', hp', hsame⟩ := hruns "[-]" p (by decide) hp
  exact ⟨p, p', hp, (hsource p hp).trans (by decide), hagain _ _ p hp, hp', hsame⟩

end TapeLanguage
