import TapeLanguage.Proofs.Decoding
import TapeLanguage.Proofs.Structured

/-!
# Runs refine structured programs

A program that is decoded from a source text is the structured program with that text, laid out
flat: every balanced list of instructions is the text of some code (`exists_code`), and the code
stands in the decoded program with its brackets paired (`placed_of_spells`). So a run of the program
ends exactly as the code is evaluated, with the same store after the same number of steps
(`run_refines_structured`).
-/

set_option autoImplicit false

namespace TapeLanguage

open Brackets Program

/-! ## Code and tokens -/

/-- The tokens are the symbols of the instructions. -/
def Spells (tokens : List Token) (ops : List Op) : Prop :=
  tokens.map Token.text = ops.map fun op => op.symbol.toString

theorem Spells.length_eq {tokens : List Token} {ops : List Op} (h : Spells tokens ops) :
    tokens.length = ops.length := by
  have hlength := congrArg List.length h
  rwa [List.length_map, List.length_map] at hlength

theorem spells_cons {tokens : List Token} {op : Op} {ops : List Op}
    (h : Spells tokens (op :: ops)) :
    ∃ t rest, tokens = t :: rest ∧ t.text = op.symbol.toString ∧ Spells rest ops := by
  rw [Spells, List.map_cons, List.map_eq_cons_iff] at h
  exact h

theorem spells_append {tokens : List Token} {a b : List Op} (h : Spells tokens (a ++ b)) :
    ∃ ts us, tokens = ts ++ us ∧ Spells ts a ∧ Spells us b := by
  rw [Spells, List.map_append, List.map_eq_append_iff] at h
  exact h

/-- The text of a loop is its body between two brackets. -/
theorem spells_loop {tokens : List Token} {body : Code} (h : Spells tokens (Code.loop body).ops) :
    ∃ s inner e, tokens = s :: (inner ++ [e]) ∧ s.Opens ∧ e.Closes ∧ Spells inner body.ops := by
  obtain ⟨s, rest, rfl, hs, hrest⟩ := spells_cons h
  obtain ⟨inner, last, rfl, hinner, hlast⟩ := spells_append hrest
  obtain ⟨e, none, rfl, he, hnone⟩ := spells_cons hlast
  obtain rfl : none = [] := List.map_eq_nil_iff.1 hnone
  exact ⟨s, inner, e, rfl, (Token.opens_iff hs).2 rfl, (Token.closes_iff he).2 rfl, hinner⟩

/-- A loop body between two brackets spells a loop. -/
theorem spells_enclosed {s e : Token} {inner : List Token} {ops : List Op} (hs : s.Opens)
    (he : e.Closes) (h : Spells (s :: (inner ++ [e])) ops) :
    ∃ body, ops = .openLoop :: (body ++ [.closeLoop]) ∧ Spells inner body := by
  rw [Spells, List.map_cons, eq_comm, List.map_eq_cons_iff] at h
  obtain ⟨first, rest, rfl, hfirst, hrest⟩ := h
  rw [List.map_append, List.map_eq_append_iff] at hrest
  obtain ⟨body, last, rfl, hbody, hlast⟩ := hrest
  rw [List.map_singleton, List.map_eq_singleton_iff] at hlast
  obtain ⟨final, rfl, hfinal⟩ := hlast
  obtain rfl := (Token.opens_iff hfirst.symm).1 hs
  obtain rfl := (Token.closes_iff hfinal.symm).1 he
  exact ⟨body, rfl, hbody.symm⟩

theorem Action.isBracket_op (a : Action) : a.op.isBracket = false := by
  cases a <;> rfl

/-- An instruction that is no bracket is an action. -/
theorem Action.exists_op {op : Op} (ho : op ≠ .openLoop) (hc : op ≠ .closeLoop) :
    ∃ a : Action, a.op = op := by
  cases op with
  | moveLeft => exact ⟨.moveLeft, rfl⟩
  | moveRight => exact ⟨.moveRight, rfl⟩
  | increment => exact ⟨.increment, rfl⟩
  | decrement => exact ⟨.decrement, rfl⟩
  | output => exact ⟨.output, rfl⟩
  | input => exact ⟨.input, rfl⟩
  | openLoop => exact absurd rfl ho
  | closeLoop => exact absurd rfl hc

/-- The text of a code is balanced. -/
theorem balanced_of_spells {c : Code} {tokens : List Token} (h : Spells tokens c.ops) :
    Balanced tokens := by
  induction c generalizing tokens with
  | skip =>
    obtain rfl : tokens = [] := List.map_eq_nil_iff.1 h
    exact .nil
  | single a =>
    obtain ⟨t, rest, rfl, ht, hrest⟩ := spells_cons h
    obtain rfl : rest = [] := List.map_eq_nil_iff.1 hrest
    obtain ⟨ho, hc⟩ := Token.plain_of_text ht a.isBracket_op
    exact .plain ho hc
  | seq first second ihf ihs =>
    obtain ⟨ts, us, rfl, hts, hus⟩ := spells_append h
    exact (ihf hts).append (ihs hus)
  | loop body ih =>
    obtain ⟨s, inner, e, rfl, hs, he, hinner⟩ := spells_loop h
    exact .enclose hs he (ih hinner)

/-- **Balanced tokens that denote instructions are the text of some code.** -/
theorem exists_code {tokens : List Token} (hb : Balanced tokens) {ops : List Op}
    (h : Spells tokens ops) : ∃ c : Code, c.ops = ops := by
  induction hb generalizing ops with
  | nil =>
    cases ops with
    | nil => exact ⟨.skip, rfl⟩
    | cons op ops => exact absurd h nofun
  | @plain t ho hc =>
    have hlength := h.length_eq
    obtain ⟨op, rfl⟩ := List.length_eq_one_iff.1 hlength.symm
    obtain ⟨t', rest, ht, htext, -⟩ := spells_cons h
    obtain rfl : t = t' := (List.cons.inj ht).1
    rw [Token.opens_iff htext] at ho
    rw [Token.closes_iff htext] at hc
    obtain ⟨a, rfl⟩ := Action.exists_op ho hc
    exact ⟨.single a, rfl⟩
  | @append a b _ _ iha ihb =>
    rw [Spells, List.map_append, eq_comm, List.map_eq_append_iff] at h
    obtain ⟨as, bs, rfl, has, hbs⟩ := h
    obtain ⟨first, rfl⟩ := iha has.symm
    obtain ⟨second, rfl⟩ := ihb hbs.symm
    exact ⟨.seq first second, rfl⟩
  | enclose hs he _ ih =>
    obtain ⟨inner, rfl, hinner⟩ := spells_enclosed hs he h
    obtain ⟨body, rfl⟩ := ih hinner
    exact ⟨.loop body, rfl⟩

/-- Whether tokens are balanced depends only on the instructions that they spell. -/
theorem balanced_iff_of_spells {a b : List Token} {ops : List Op} (ha : Spells a ops)
    (hb : Spells b ops) : Balanced a ↔ Balanced b := by
  constructor
  · intro h
    obtain ⟨c, rfl⟩ := exists_code h ha
    exact balanced_of_spells hb
  · intro h
    obtain ⟨c, rfl⟩ := exists_code h hb
    exact balanced_of_spells ha

/-- The instruction at a token that spells an operation is that operation. -/
theorem op_of_text {tokens : List Token} {p : Program} (h : Decodes tokens p) {n : Nat} {t : Token}
    {op : Op} (ht : tokens[n]? = some t) (htext : t.text = op.symbol.toString) :
    ∃ i, p.instructions[n]? = some i ∧ i.op = op ∧ i.index = n := by
  obtain ⟨i, hi⟩ := h.exists_instruction (List.getElem?_eq_some_iff.1 ht).1
  obtain ⟨t', d, ht', htext', -⟩ := h.instruction n i hi
  rw [ht, Option.some.injEq] at ht'
  subst ht'
  have hop : some i.op = some op := by
    rw [← Op.ofText?_eq_some_iff.2 htext', Op.ofText?_eq_some_iff.2 htext]
  exact ⟨i, hi, Option.some.inj hop, h.index_eq hi⟩

/-- **Code whose text is a part of the tokens is placed there.** -/
theorem placed_of_spells {p : Program} {c : Code} {a tokens b : List Token}
    (h : Decodes (a ++ tokens ++ b) p) (hc : Spells tokens c.ops) : Placed p a.length c := by
  induction c generalizing a tokens b with
  | skip => exact trivial
  | single x =>
    obtain ⟨t, rest, rfl, ht, -⟩ := spells_cons hc
    exact op_of_text h (by simp) ht
  | seq first second ihf ihs =>
    -- the second code begins behind the tokens of the first
    obtain ⟨ts, us, rfl, hts, hus⟩ := spells_append hc
    have hsize : first.size = ts.length := by rw [hts.length_eq, Code.length_ops]
    refine ⟨ihf (b := us ++ b) (by simpa using h) hts, ?_⟩
    rw [hsize, ← List.length_append]
    exact ihs (b := b) (by simpa using h) hus
  | loop body ih =>
    obtain ⟨s, inner, e, rfl, hs, he, hinner⟩ := spells_loop hc
    have hsize : body.size = inner.length := by rw [hinner.length_eq, Code.length_ops]
    -- the body is balanced, so its two brackets are partners
    have hm : Matches (a ++ (s :: (inner ++ [e])) ++ b) a.length (a.length + inner.length + 1) := by
      have hpair := matches_of_enclosed (a := a) (b := b) hs he (balanced_of_spells hinner)
      simpa [Nat.add_assoc] using hpair
    obtain ⟨i, hi⟩ := h.exists_instruction hm.opens.lt_length
    obtain ⟨j, hj⟩ := h.exists_instruction hm.closes.lt_length
    rw [Placed, hsize]
    refine ⟨⟨i, hi, (h.opensAt_iff hi).1 hm.opens, h.index_eq hi, h.partner_of_opens hm hi⟩, ?_,
      ⟨j, hj, (h.closesAt_iff hj).1 hm.closes, h.index_eq hj⟩⟩
    have hbefore : a.length + 1 = (a ++ [s]).length := by simp
    rw [hbefore]
    exact ih (b := e :: b) (by simpa using h) hinner

/-! ## Code of a source text -/

theorem Code.text_eq_filter_iff (c : Code) (t : String) :
    c.text = Source.filter t ↔ c.ops = (Source.scan t).map fun l => l.op := by
  have hsymbols : t.toList.filter Source.isSymbol =
      ((Source.scan t).map fun l => l.op).map Op.symbol := by
    rw [← Source.map_symbol_scan, List.map_map]
    rfl
  rw [text, Source.filter, String.ofList_inj, hsymbols]
  exact List.map_inj_right fun _ _ => Op.symbol_injective

theorem spells_lexemes (lexemes : List Source.Lexeme) :
    Spells (lexemes.map Token.ofLexeme) (lexemes.map fun l => l.op) := by
  rw [Spells, List.map_map, List.map_map]
  rfl

/-- An accepted source text is the text of some code. -/
theorem exists_code_of_parse {t : String} {p : Program} (h : (parse t).outcome = .ok p) :
    ∃ c : Code, c.text = Source.filter t := by
  obtain ⟨c, hc⟩ := exists_code (decodes_of_decode h).balanced (spells_lexemes _)
  exact ⟨c, (c.text_eq_filter_iff t).2 hc⟩

/-- Code whose text is all the tokens is the whole program. -/
theorem placed_of_decodes {tokens : List Token} {p : Program} {c : Code} (h : Decodes tokens p)
    (hc : Spells tokens c.ops) : Placed p 0 c ∧ c.size = p.size := by
  refine ⟨placed_of_spells (a := []) (b := []) (by simpa using h) hc, ?_⟩
  rw [h.size_eq, hc.length_eq, Code.length_ops]

/-- The code of an accepted source text is the whole program. -/
theorem placed_of_parse {t : String} {p : Program} {c : Code} (h : (parse t).outcome = .ok p)
    (hc : c.text = Source.filter t) : Placed p 0 c ∧ c.size = p.size := by
  have hspells := spells_lexemes (Source.scan t)
  rw [← (c.text_eq_filter_iff t).1 hc] at hspells
  exact placed_of_decodes (decodes_of_decode h) hspells

/-- The characters of the text of a code spell it. -/
theorem spells_text (c : Code) : Spells (Token.ofText c.text) c.ops := by
  rw [Spells, Token.ofText, Code.text, String.toList_ofList, List.map_map, List.map_map]
  rfl

/-- **The text of a code is decoded to it.** -/
theorem exists_placed (c : Code) :
    ∃ p, (decode (Token.ofText c.text)).outcome = .ok p ∧ Placed p 0 c ∧ c.size = p.size := by
  have hspells := spells_text c
  have hforeign : ∀ n, ¬ StandsAt Token.Foreign (Token.ofText c.text) n := by
    rintro n ⟨t, ht, hforeign⟩
    -- the text of the token is the symbol of an instruction
    have htext : t.text ∈ c.ops.map fun op => op.symbol.toString := by
      rw [← hspells]
      exact List.mem_map_of_mem (List.mem_of_getElem? ht)
    obtain ⟨op, -, hop⟩ := List.mem_map.1 htext
    exact hforeign op hop.symm
  obtain ⟨p, hp, hdecode⟩ := decode_of_balanced none (balanced_of_spells hspells) hforeign
  exact ⟨p, hdecode, placed_of_decodes hp hspells⟩

/-! ## The end of a run -/

/-- How a run ends whose code ends so. -/
def Final.phase : Final → Phase
  | done _ => .finished
  | stuck o index _ => .failed (o.fault index)

/-- A run has ended as the evaluation of its code, after as many steps and with the same store. -/
structure Run.EndsWith (r : Run) (steps : Nat) (e : Final) : Prop where
  phase : r.phase = e.phase
  steps : r.machine.steps = steps
  store : r.machine.store = e.store

/-- A run ends in one way. -/
theorem Run.EndsWith.unique {r : Run} {n n' : Nat} {e e' : Final} (h : r.EndsWith n e)
    (h' : r.EndsWith n' e') : n = n' ∧ e = e' := by
  refine ⟨h.steps.symm.trans h'.steps, ?_⟩
  have hphase := h.phase.symm.trans h'.phase
  have hstore := h.store.symm.trans h'.store
  cases e with
  | done s =>
    cases e' with
    | done s' =>
      obtain rfl : s = s' := hstore
      rfl
    | stuck o k s' => exact absurd hphase nofun
  | stuck o k s =>
    cases e' with
    | done s' => exact absurd hphase nofun
    | stuck o' k' s' =>
      obtain rfl : s = s' := hstore
      obtain ⟨rfl, rfl⟩ := Obstacle.fault_inj (Phase.failed.inj hphase)
      rfl

/-- A run that has failed is stuck. -/
theorem Run.EndsWith.stuck_of_failed {r : Run} {n : Nat} {e : Final} {fault : Fault}
    (h : r.EndsWith n e) (hfailed : r.phase = .failed fault) :
    ∃ o k s, e = .stuck o k s ∧ fault = o.fault k := by
  have hphase := hfailed.symm.trans h.phase
  cases e with
  | done s => exact Phase.noConfusion hphase
  | stuck o k s => exact ⟨o, k, s, rfl, Phase.failed.inj hphase⟩

theorem Run.EndsWith.ended {r : Run} {n : Nat} {e : Final} (h : r.EndsWith n e) :
    r.isRunning = false := by
  rw [isRunning, h.phase]
  cases e <;> rfl

/-- Two runs from the same start that have both ended are the same. -/
theorem Run.advanceFor_eq_of_ended {p : Program} {traced : Bool} {r : Run} {a b : Nat}
    (ha : (advanceFor p traced a r).isRunning = false)
    (hb : (advanceFor p traced b r).isRunning = false) :
    advanceFor p traced a r = advanceFor p traced b r := by
  rw [← advanceFor_of_ended p traced b ha, ← advanceFor_add, Nat.add_comm, advanceFor_add,
    advanceFor_of_ended p traced a hb]

section Ends

variable {p : Program} {c : Code} {m : Machine}

theorem start_at (p : Program) (trace : Trace) (hin : m.input.Steady) :
    At 0 [] 0 m.store (Run.start m p trace) :=
  ⟨rfl, rfl, rfl, rfl, rfl, hin⟩

/-- A run at the end of a program finishes with the store it has. -/
theorem At.endsWith {resume : List Int} {steps : Nat} {s : Store} {r : Run} (traced : Bool)
    (hr : At p.size resume steps s r) : (Run.advance p traced r).EndsWith steps (.done s) := by
  obtain ⟨phase, position, m, trace⟩ := r
  obtain rfl : phase = .running := hr.running
  obtain rfl : position = p.size := hr.position
  rw [Run.advance_at_end]
  refine ⟨rfl, hr.steps, ?_⟩
  rw [← show m.store = s from hr.store]
  simp only [Run.finish, Machine.flush, Machine.store, Output.contents_flush, Final.store]

/-- A run of a program ends as its code is evaluated. -/
theorem Evaluates.endsWith {n : Nat} {e : Final} (h : Evaluates 0 c m.store n e)
    (hp : Placed p 0 c) (hsize : c.size = p.size) (hin : m.input.Steady) (traced : Bool)
    (trace : Trace) : ∃ fuel, (m.run p fuel traced trace).EndsWith n e := by
  obtain ⟨fuel, harrives⟩ := h.simulates traced hp (Or.inl (start_at p trace hin))
  rw [Nat.zero_add, Nat.zero_add, hsize] at harrives
  cases e with
  | done s =>
    refine ⟨fuel + 1, ?_⟩
    rw [Machine.run, Run.advanceFor_add, Run.advanceFor_succ]
    exact At.endsWith traced harrives
  | stuck o k s =>
    obtain ⟨hphase, hsteps, hstore⟩ := harrives
    exact ⟨fuel, hphase, hsteps, hstore⟩

/-- A run of a program that has ended has followed an evaluation of its code. -/
theorem exists_evaluates {fuel : Nat} {traced : Bool} {trace : Trace} (hp : Placed p 0 c)
    (hsize : c.size = p.size) (hin : m.input.Steady)
    (hended : (m.run p fuel traced trace).isRunning = false) :
    ∃ n e, Evaluates 0 c m.store n e ∧ (m.run p fuel traced trace).EndsWith n e := by
  rcases evaluates_or_running traced fuel c hp (Or.inl (start_at p trace hin)) with
    ⟨n, e, h⟩ | hrunning
  · obtain ⟨fuel', hends⟩ := h.endsWith hp hsize hin traced trace
    refine ⟨n, e, h, ?_⟩
    rw [Machine.run, Run.advanceFor_eq_of_ended hended hends.ended]
    exact hends
  · rw [Machine.run, hrunning] at hended
    exact absurd hended nofun

end Ends

/-- **A run refines the structured program with the same text.** For every accepted text there is
such a program, and for each one and every machine over an input that ends once, a run ends in a way
exactly if the structured program is evaluated to it. A run that fails is stuck at the action of its
index. -/
theorem run_refines_structured {t : String} {p : Program} (h : (parse t).outcome = .ok p) :
    (∃ c : Code, c.text = Source.filter t) ∧
      ∀ c : Code, c.text = Source.filter t →
        ∀ (m : Machine) (traced : Bool) (trace : Trace), m.input.Steady →
          (∀ n e, (∃ fuel, (m.run p fuel traced trace).EndsWith n e) ↔
            Evaluates 0 c m.store n e) ∧
          ∀ fuel fault, (m.run p fuel traced trace).phase = .failed fault →
            ∃ (o : Obstacle) (k n : Nat) (s : Store) (a : Action), fault = o.fault k ∧
              Evaluates 0 c m.store n (.stuck o k s) ∧
              c.ops[k]? = some a.op ∧ a.step s = .error o := by
  refine ⟨exists_code_of_parse h, ?_⟩
  intro c hc m traced trace hin
  obtain ⟨hp, hsize⟩ := placed_of_parse h hc
  constructor
  · intro n e
    constructor
    · -- the run has followed some evaluation, and it ends in one way
      rintro ⟨fuel, hends⟩
      obtain ⟨n', e', heval, hends'⟩ := exists_evaluates hp hsize hin hends.ended
      obtain ⟨rfl, rfl⟩ := hends.unique hends'
      exact heval
    · exact fun heval => heval.endsWith hp hsize hin traced trace
  · intro fuel fault hfailed
    have hended : (m.run p fuel traced trace).isRunning = false := by
      rw [Run.isRunning, hfailed]
    obtain ⟨n, e, heval, hends⟩ := exists_evaluates hp hsize hin hended
    obtain ⟨o, k, s, rfl, hfault⟩ := hends.stuck_of_failed hfailed
    obtain ⟨a, j, rfl, hop, hstep⟩ := heval.action_of_stuck
    rw [Nat.zero_add] at heval hfault
    exact ⟨o, j, n, s, a, hfault, heval, hop, hstep⟩

/-- A text that echoes its input up to a zero byte. -/
theorem run_refines_structured_echo : ∃ p, (parse "echo ,[.,]").outcome = .ok p ∧
    let c : Code := .seq (.single .input) (.loop (.seq (.single .output) (.single .input)))
    let m : Machine := .new (.bytes [7, 0]) (.bytes #[] 0)
    c.text = Source.filter "echo ,[.,]" ∧ m.input.Steady ∧
      (m.run p 6).phase = .finished ∧ (m.run p 6).machine.steps = 5 ∧
      (m.run p 6).machine.store.output = [7] ∧
      (∀ n e, (∃ fuel, (m.run p fuel).EndsWith n e) ↔ Evaluates 0 c m.store n e) := by
  have hparsed : ∃ p, (parse "echo ,[.,]").outcome = .ok p ∧
      (Machine.run (.new (.bytes [7, 0]) (.bytes #[] 0)) p 6).phase = .finished ∧
      (Machine.run (.new (.bytes [7, 0]) (.bytes #[] 0)) p 6).machine.steps = 5 ∧
      (Machine.run (.new (.bytes [7, 0]) (.bytes #[] 0)) p 6).machine.store.output = [7] :=
    ⟨_, rfl, rfl, rfl, rfl⟩
  obtain ⟨p, hp, hphase, hsteps, houtput⟩ := hparsed
  have hrefines := (run_refines_structured hp).2
    (.seq (.single .input) (.loop (.seq (.single .output) (.single .input)))) rfl
    (.new (.bytes [7, 0]) (.bytes #[] 0)) false #[] trivial
  exact ⟨p, hp, rfl, trivial, hphase, hsteps, houtput, hrefines.1⟩

end TapeLanguage
