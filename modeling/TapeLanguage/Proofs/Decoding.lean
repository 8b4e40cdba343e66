import TapeLanguage.Proofs.Matching

/-!
# What decoding gives

Decoding has four outcomes (`decode_cases`). It fails at a stray loop end, or else at the end of the
tokens with the loops that are still open, or else at the first token that is `Foreign`, one that is
no instruction. Otherwise it gives a program that `Decodes` the tokens: one instruction for each
token, and a jump table that leads from each bracket to its partner. On the way it creates the
instructions that tokens denote, up to the first foreign one and only once all brackets are paired
(`decode_eq`). Each outcome has its own condition, and no two conditions hold together, so each
occurs exactly under its condition (`decode_outcome_iff`).
-/

set_option autoImplicit false

namespace TapeLanguage

namespace Token

/-- The token denotes no instruction. -/
def Foreign (t : Token) : Prop :=
  ∀ op : Op, t.text ≠ op.symbol.toString

theorem foreign_iff (t : Token) : t.Foreign ↔ Op.ofText? t.text = none := by
  rw [Option.eq_none_iff_forall_ne_some]
  exact forall_congr' fun op => not_congr Op.ofText?_eq_some_iff.symm

/-- Among the tokens that denote instructions, the loop beginnings are those of one instruction. -/
theorem opens_iff {t : Token} {op : Op} (h : t.text = op.symbol.toString) :
    t.Opens ↔ op = .openLoop := by
  rw [Opens, h]
  cases op <;> decide

/-- Among the tokens that denote instructions, the loop ends are those of one instruction. -/
theorem closes_iff {t : Token} {op : Op} (h : t.text = op.symbol.toString) :
    t.Closes ↔ op = .closeLoop := by
  rw [Closes, h]
  cases op <;> decide

/-- A token that denotes no bracket is none. -/
theorem plain_of_text {t : Token} {op : Op} (h : t.text = op.symbol.toString)
    (hop : op.isBracket = false) : ¬ t.Opens ∧ ¬ t.Closes := by
  rw [opens_iff h, closes_iff h]
  constructor
  · rintro rfl
    exact absurd hop (by decide)
  · rintro rfl
    exact absurd hop (by decide)

@[simp] theorem ofText_append (a b : String) : ofText (a ++ b) = ofText a ++ ofText b := by
  rw [ofText, String.toList_append, List.map_append]
  rfl

@[simp] theorem length_ofText (text : String) : (ofText text).length = text.length := by
  rw [ofText, List.length_map, String.length_toList]

/-- The tokens of a text determine it. -/
theorem ofText_injective {a b : String} (h : ofText a = ofText b) : a = b := by
  rw [← String.toList_inj]
  refine (List.map_inj_right ?_).1 h
  intro c d hcd
  have htext : c.toString = d.toString := congrArg text hcd
  rw [← String.toList_inj, Char.toString_eq_singleton, Char.toString_eq_singleton] at htext
  simpa using htext

end Token

namespace Program

open Brackets

/-! ## The second pass -/

/-- What the second pass creates from labelled tokens, the first of which gets the index `start`. -/
structure Creates (jumps : Jumps) (start : Nat) (labelled : List (Token × Nat))
    (created : List Instruction) (stop : Option String) : Prop where
  /-- The instructions created. -/
  each : ∀ (n : Nat) (i : Instruction), created[n]? = some i →
    ∃ t d op, labelled[n]? = some (t, d) ∧ t.text = op.symbol.toString ∧
      i = .make op d ((start + n : Nat) : Int) jumps[((start + n : Nat) : Int)]? t.line t.column
  /-- If nothing stops it, there is one for each token. -/
  complete : stop = none → created.length = labelled.length
  /-- Otherwise the token after the last that became an instruction denotes none. -/
  stopped : ∀ text, stop = some text →
    ∃ t d, labelled[created.length]? = some (t, d) ∧ t.text = text ∧ t.Foreign

/-- One more instruction at the front. -/
theorem Creates.cons {jumps : Jumps} {start : Nat} {labelled : List (Token × Nat)}
    {created : List Instruction} {stop : Option String} {t : Token} {op : Op} (d : Nat)
    (h : Creates jumps (start + 1) labelled created stop) (ht : t.text = op.symbol.toString) :
    Creates jumps start ((t, d) :: labelled)
      (.make op d (start : Int) jumps[(start : Int)]? t.line t.column :: created) stop := by
  constructor
  case each =>
    intro n i hi
    cases n with
    | zero =>
      rw [List.getElem?_cons_zero, Option.some.injEq] at hi
      exact ⟨t, d, op, rfl, ht, hi.symm⟩
    | succ n =>
      rw [List.getElem?_cons_succ] at hi
      have hshift : start + (n + 1) = start + 1 + n := by omega
      rw [hshift]
      exact h.each n i hi
  case complete =>
    intro hstop
    rw [List.length_cons, List.length_cons, h.complete hstop]
  case stopped =>
    intro text hstop
    exact h.stopped text hstop

theorem create_creates (jumps : Jumps) (labelled : List (Token × Nat)) (made : Array Instruction) :
    ∃ created stop, create jumps labelled made = (made ++ created.toArray, stop) ∧
      Creates jumps made.size labelled created stop := by
  induction labelled generalizing made with
  | nil =>
    -- nothing is left to create
    refine ⟨[], none, by simp [create], ?_, fun _ => rfl, ?_⟩
    · intro n i hi
      exact absurd hi (by simp)
    · intro text h
      exact absurd h (by simp)
  | cons l rest ih =>
    obtain ⟨t, d⟩ := l
    cases hop : Op.ofText? t.text with
    | none =>
      -- the token stops the pass
      refine ⟨[], some t.text, by simp [create, hop], ?_, ?_, ?_⟩
      · intro n i hi
        exact absurd hi (by simp)
      · intro h
        exact absurd h (by simp)
      · intro text h
        exact ⟨t, d, rfl, by simpa using h, (Token.foreign_iff t).2 hop⟩
    | some op =>
      -- the token becomes an instruction, and the pass goes on
      have ht := Op.ofText?_eq_some_iff.1 hop
      obtain ⟨created, stop, hcreate, hspec⟩ :=
        ih (made.push (.make op d made.size jumps[(made.size : Int)]? t.line t.column))
      rw [Array.size_push] at hspec
      refine ⟨_, stop, ?_, hspec.cons d ht⟩
      rw [List.toArray_cons, ← Array.append_assoc, ← Array.push_eq_append, ← hcreate]
      simp only [create, hop]

/-! ## Programs of token lists -/

/-- The program has one instruction for each token, and its brackets are paired as in the tokens. -/
structure Decodes (tokens : List Token) (p : Program) : Prop where
  /-- The brackets are balanced. -/
  balanced : Balanced tokens
  /-- There are as many instructions as tokens. -/
  size_eq : p.size = tokens.length
  /-- The jump table holds the pairs of brackets. -/
  partners : ∀ k v : Int, p.jumps[k]? = some v ↔ Partners tokens k v
  /-- An instruction comes from the token at its index. -/
  instruction : ∀ (n : Nat) (i : Instruction), p.instructions[n]? = some i →
    ∃ t d, tokens[n]? = some t ∧ t.text = i.op.symbol.toString ∧ DepthAt tokens n d ∧
      i = ⟨i.op, n, d, p.jumps[(n : Int)]?, t.line, t.column⟩

section Instructions

variable {tokens : List Token} {p : Program} {n : Nat} {i : Instruction}

theorem Decodes.index_eq (h : Decodes tokens p) (hi : p.instructions[n]? = some i) :
    i.index = n := by
  obtain ⟨t, d, -, -, -, heq⟩ := h.instruction n i hi
  rw [heq]

theorem Decodes.partner_eq (h : Decodes tokens p) (hi : p.instructions[n]? = some i) :
    i.partner = p.jumps[(n : Int)]? := by
  obtain ⟨t, d, -, -, -, heq⟩ := h.instruction n i hi
  rw [heq]

theorem Decodes.depthAt (h : Decodes tokens p) (hi : p.instructions[n]? = some i) :
    ∃ d, DepthAt tokens n d ∧ i.depth = d := by
  obtain ⟨t, d, -, -, hd, heq⟩ := h.instruction n i hi
  exact ⟨d, hd, by rw [heq]⟩

/-- The loop beginnings of the program are those of the tokens. -/
theorem Decodes.opensAt_iff (h : Decodes tokens p) (hi : p.instructions[n]? = some i) :
    OpensAt tokens n ↔ i.op = .openLoop := by
  obtain ⟨t, d, ht, hop, -⟩ := h.instruction n i hi
  rw [OpensAt, standsAt_iff_of_getElem? ht, Token.opens_iff hop]

/-- The loop ends of the program are those of the tokens. -/
theorem Decodes.closesAt_iff (h : Decodes tokens p) (hi : p.instructions[n]? = some i) :
    ClosesAt tokens n ↔ i.op = .closeLoop := by
  obtain ⟨t, d, ht, hop, -⟩ := h.instruction n i hi
  rw [ClosesAt, standsAt_iff_of_getElem? ht, Token.closes_iff hop]

theorem Decodes.exists_instruction (h : Decodes tokens p) (hn : n < tokens.length) :
    ∃ i, p.instructions[n]? = some i := by
  have hlt : n < p.instructions.size := by rwa [← h.size_eq] at hn
  exact ⟨_, Array.getElem?_eq_getElem hlt⟩

theorem Decodes.lt_length (h : Decodes tokens p) (hi : p.instructions[n]? = some i) :
    n < tokens.length :=
  h.size_eq ▸ (Array.getElem?_eq_some_iff.1 hi).1

/-- The labels of an instruction and the place of its token are all there is to it. -/
theorem Decodes.instruction_eq {t : Token} (h : Decodes tokens p)
    (hi : p.instructions[n]? = some i) (ht : tokens[n]? = some t) :
    i = ⟨i.op, n, i.depth, i.partner, t.line, t.column⟩ := by
  obtain ⟨t', d, ht', -, -, heq⟩ := h.instruction n i hi
  obtain rfl : t = t' := Option.some.inj (ht.symm.trans ht')
  rw [heq]

/-- The same token becomes the same instruction in any program. -/
theorem Decodes.op_eq {others : List Token} {p' : Program} {n' : Nat} {i' : Instruction} {t : Token}
    (h : Decodes tokens p) (h' : Decodes others p') (hi : p.instructions[n]? = some i)
    (hi' : p'.instructions[n']? = some i') (ht : tokens[n]? = some t)
    (ht' : others[n']? = some t) : i'.op = i.op := by
  obtain ⟨s, -, hs, htext, -⟩ := h.instruction n i hi
  obtain ⟨s', -, hs', htext', -⟩ := h'.instruction n' i' hi'
  obtain rfl : t = s := Option.some.inj (ht.symm.trans hs)
  obtain rfl : t = s' := Option.some.inj (ht'.symm.trans hs')
  rw [← Op.ofText?_eq_some_iff] at htext htext'
  exact Option.some.inj (htext'.symm.trans htext)

/-- A loop beginning knows the end of its loop. -/
theorem Decodes.partner_of_opens {c : Nat} (h : Decodes tokens p) (hm : Matches tokens n c)
    (hi : p.instructions[n]? = some i) : i.partner = some (c : Int) := by
  rw [h.partner_eq hi]
  exact (h.partners n c).2 ⟨n, c, hm, Or.inl ⟨rfl, rfl⟩⟩

/-- A loop end knows the beginning of its loop. -/
theorem Decodes.partner_of_closes {o : Nat} (h : Decodes tokens p) (hm : Matches tokens o n)
    (hi : p.instructions[n]? = some i) : i.partner = some (o : Int) := by
  rw [h.partner_eq hi]
  exact (h.partners n o).2 ⟨o, n, hm, Or.inr ⟨rfl, rfl⟩⟩

/-- A loop beginning of the program has a loop end. -/
theorem Decodes.exists_end (h : Decodes tokens p) (hi : p.instructions[n]? = some i)
    (hop : i.op = .openLoop) : ∃ c, Matches tokens n c := by
  have hopen := (h.opensAt_iff hi).2 hop
  obtain ⟨o, c, hm, rfl | rfl⟩ := h.balanced.paired (Or.inl hopen)
  · exact ⟨c, hm⟩
  · exact absurd hm.closes (opensAt_not_closesAt hopen)

/-- A loop end of the program has a loop beginning. -/
theorem Decodes.exists_beginning (h : Decodes tokens p) (hi : p.instructions[n]? = some i)
    (hop : i.op = .closeLoop) : ∃ o, Matches tokens o n := by
  have hclose := (h.closesAt_iff hi).2 hop
  obtain ⟨o, c, hm, rfl | rfl⟩ := h.balanced.paired (Or.inr hclose)
  · exact absurd hclose (opensAt_not_closesAt hm.opens)
  · exact ⟨o, hm⟩

/-- An instruction that is no bracket stands at no bracket. -/
theorem Decodes.not_bracket (h : Decodes tokens p) (hi : p.instructions[n]? = some i)
    (hop : i.op.isBracket = false) : ¬ OpensAt tokens n ∧ ¬ ClosesAt tokens n := by
  obtain ⟨t, d, ht, htext, -⟩ := h.instruction n i hi
  rw [OpensAt, ClosesAt, standsAt_iff_of_getElem? ht, standsAt_iff_of_getElem? ht]
  exact Token.plain_of_text htext hop

end Instructions

/-- A token is the first that denotes no instruction. -/
def FirstForeign (tokens : List Token) (n : Nat) : Prop :=
  StandsAt Token.Foreign tokens n ∧ ∀ k, k < n → ¬ StandsAt Token.Foreign tokens k

/-- A token that denotes an instruction is not foreign. -/
theorem not_standsAt_foreign {tokens : List Token} {n : Nat} {t : Token} {op : Op}
    (ht : tokens[n]? = some t) (hop : t.text = op.symbol.toString) :
    ¬ StandsAt Token.Foreign tokens n :=
  fun h => (standsAt_iff_of_getElem? ht).1 h op hop

namespace Matching

/-- The token at a position and its label. -/
theorem Describes.getElem?_labelled {tokens : List Token} {m : Matching} (h : Describes tokens m)
    {n : Nat} {t : Token} {d : Nat} (hn : m.labelled.toList[n]? = some (t, d)) :
    tokens[n]? = some t ∧ DepthAt tokens n d := by
  refine ⟨?_, h.depths n t d (by rwa [Array.getElem?_toList] at hn)⟩
  rw [← h.read, List.getElem?_map, hn]
  rfl

/-- The depth of an instruction is that of its token, whether it is a bracket or not. -/
theorem depth_make {tokens : List Token} {n d : Nat} {t : Token} {op : Op}
    (ht : tokens[n]? = some t) (hop : t.text = op.symbol.toString) (hd : DepthAt tokens n d) :
    (if op.isBracket then (d : Int) else 0) = d := by
  by_cases hbracket : op.isBracket
  · rw [if_pos hbracket]
  · -- no bracket stands at the position, so the depth was zero anyway
    have hplain := Token.plain_of_text hop (Bool.eq_false_iff.2 hbracket)
    have ho : ¬ OpensAt tokens n := fun h => hplain.1 ((standsAt_iff_of_getElem? ht).1 h)
    have hc : ¬ ClosesAt tokens n := fun h => hplain.2 ((standsAt_iff_of_getElem? ht).1 h)
    rw [if_neg hbracket, hd.plain ho hc]
    rfl

end Matching

/-! ## The outcomes -/

/-- The tokens of a matching whose instructions are all created become a program. -/
theorem decodes_of_creates {tokens : List Token} {m : Matching} {created : List Instruction}
    (h : m.Describes tokens) (hb : Balanced tokens)
    (hc : Creates m.jumps 0 m.labelled.toList created none) :
    Decodes tokens ⟨created.toArray, m.jumps⟩ := by
  have hlength : created.length = tokens.length := by
    rw [hc.complete rfl, ← h.read, List.length_map]
  constructor
  case balanced => exact hb
  case size_eq => simpa [size] using hlength
  case partners => exact h.partners
  case instruction =>
    intro n i hi
    rw [List.getElem?_toArray] at hi
    obtain ⟨t, d, op, hl, hop, rfl⟩ := hc.each n i hi
    obtain ⟨ht, hd⟩ := h.getElem?_labelled hl
    refine ⟨t, d, ht, hop, hd, ?_⟩
    simp only [Instruction.make, Matching.depth_make ht hop hd, Nat.zero_add]

/-- The token that stops the second pass is the first that denotes no instruction. -/
theorem firstForeign_of_creates {tokens : List Token} {m : Matching} {created : List Instruction}
    {text : String} (h : m.Describes tokens)
    (hc : Creates m.jumps 0 m.labelled.toList created (some text)) :
    FirstForeign tokens created.length ∧
      ∃ t, tokens[created.length]? = some t ∧ t.text = text := by
  obtain ⟨t, d, hl, htext, hforeign⟩ := hc.stopped text rfl
  obtain ⟨ht, -⟩ := h.getElem?_labelled hl
  refine ⟨⟨⟨t, ht, hforeign⟩, ?_⟩, t, ht, htext⟩
  -- each token before has become an instruction
  intro k hk
  obtain ⟨t', d', op, hl', hop, -⟩ := hc.each k _ (List.getElem?_eq_getElem hk)
  exact not_standsAt_foreign (h.getElem?_labelled hl').1 hop

/-- The instruction of the token at a position: what the token denotes, with the labels and the
place of the token. -/
structure Denotes (tokens : List Token) (n : Nat) (i : Instruction) : Prop where
  /-- The token denotes the operation, and the instruction has its place. -/
  token : ∃ t, tokens[n]? = some t ∧ t.text = i.op.symbol.toString ∧ i.line = t.line ∧
    i.column = t.column
  /-- The position. -/
  index : i.index = n
  /-- The number of loops around a bracket. -/
  depth : ∃ d : Nat, DepthAt tokens n d ∧ i.depth = d
  /-- The position of the other bracket. -/
  partner : ∀ v, i.partner = some v ↔ Partners tokens n v

/-- An instruction that the second pass creates is the one of its token. -/
theorem denotes_of_creates {tokens : List Token} {m : Matching} {created : List Instruction}
    {stop : Option String} (h : m.Describes tokens)
    (hc : Creates m.jumps 0 m.labelled.toList created stop) {n : Nat} {i : Instruction}
    (hi : created[n]? = some i) : Denotes tokens n i := by
  obtain ⟨t, d, op, hl, hop, rfl⟩ := hc.each n i hi
  obtain ⟨ht, hd⟩ := h.getElem?_labelled hl
  rw [Nat.zero_add]
  exact ⟨⟨t, ht, hop, rfl, rfl⟩, rfl, ⟨d, hd, Matching.depth_make ht hop hd⟩, h.partners n⟩

/-- **What decoding gives**, with the instructions created on the way: none if the brackets cannot
be paired, those of the tokens before the first foreign one, or all instructions of the program. -/
theorem decode_eq (tokens : List Token) (source : Option String) :
    (∃ n t, StrayEnd tokens n ∧ tokens[n]? = some t ∧
        decode tokens source = ⟨#[], .error (.ofClose n source t.line t.column)⟩) ∨
      (∃ u us, Unfinished tokens (u :: us) ∧ decode tokens source =
        ⟨#[], .error (.unmatchedOpen tokens.length ((u :: us).reverse.map Int.ofNat))⟩) ∨
      (∃ created t, Balanced tokens ∧ FirstForeign tokens created.size ∧
        tokens[created.size]? = some t ∧
        (∀ (n : Nat) (i : Instruction), created[n]? = some i → Denotes tokens n i) ∧
        decode tokens source = ⟨created, .error (.notInstruction t.text)⟩) ∨
      ∃ p, Decodes tokens p ∧ decode tokens source = ⟨p.instructions, .ok p⟩ := by
  rcases Matching.steps_cases source tokens with ⟨m, hm, h⟩ | ⟨n, t, hstray, ht, hm⟩
  · refine Or.inr ?_
    rw [decode, hm]
    have hopen := h.unfinished
    cases hrev : m.openings.toList.reverse with
    | cons u us =>
      -- loops are open after the last token
      have hlist : m.openings.toList = (u :: us).reverse := by rw [← hrev, List.reverse_reverse]
      have hnonempty : m.openings.isEmpty = false := by
        rw [← Array.isEmpty_toList, hlist, List.isEmpty_reverse]
        rfl
      rw [hrev] at hopen
      refine Or.inl ⟨u, us, hopen, ?_⟩
      simp only [Matching.finish, hnonempty, hlist, h.position_eq, Bool.false_eq_true, if_false]
    | nil =>
      -- all brackets are paired, and the second pass decides
      have hempty : m.openings.isEmpty = true := by
        rw [← Array.isEmpty_toList, List.reverse_eq_nil_iff.1 hrev]
        rfl
      rw [hrev] at hopen
      obtain ⟨created, stop, hcreate, hspec⟩ := create_creates m.jumps m.labelled.toList #[]
      refine Or.inr ?_
      simp only [Matching.finish, hempty, if_true, hcreate, Array.empty_append]
      cases stop with
      | none => exact Or.inr ⟨_, decodes_of_creates h hopen.balanced hspec, rfl⟩
      | some text =>
        obtain ⟨hfirst, t, ht, rfl⟩ := firstForeign_of_creates h hspec
        refine Or.inl ⟨created.toArray, t, hopen.balanced, hfirst, ht, ?_, rfl⟩
        intro n i hi
        rw [List.getElem?_toArray] at hi
        exact denotes_of_creates h hspec hi
  · exact Or.inl ⟨n, t, hstray, ht, by rw [decode, hm]⟩

/-- **Decoding fails at a stray loop end, at the end of the tokens or at a foreign token, or it
gives a program of the tokens.** -/
theorem decode_cases (tokens : List Token) (source : Option String) :
    (∃ n t, StrayEnd tokens n ∧ tokens[n]? = some t ∧
        (decode tokens source).outcome = .error (.ofClose n source t.line t.column)) ∨
      (∃ u us, Unfinished tokens (u :: us) ∧ (decode tokens source).outcome =
        .error (.unmatchedOpen tokens.length ((u :: us).reverse.map Int.ofNat))) ∨
      (∃ n t, Balanced tokens ∧ FirstForeign tokens n ∧ tokens[n]? = some t ∧
        (decode tokens source).outcome = .error (.notInstruction t.text)) ∨
      ∃ p, Decodes tokens p ∧ (decode tokens source).outcome = .ok p := by
  rcases decode_eq tokens source with ⟨n, t, hstray, ht, hd⟩ | ⟨u, us, hopen, hd⟩ |
    ⟨created, t, hb, hfirst, ht, -, hd⟩ | ⟨p, hp, hd⟩ <;> rw [hd]
  · exact Or.inl ⟨n, t, hstray, ht, rfl⟩
  · exact Or.inr (Or.inl ⟨u, us, hopen, rfl⟩)
  · exact Or.inr (Or.inr (Or.inl ⟨created.size, t, hb, hfirst, ht, rfl⟩))
  · exact Or.inr (Or.inr (Or.inr ⟨p, hp, rfl⟩))

/-! ## The conditions exclude each other -/

theorem Decodes.not_foreign {tokens : List Token} {p : Program} (h : Decodes tokens p) (n : Nat) :
    ¬ StandsAt Token.Foreign tokens n := by
  intro hforeign
  obtain ⟨i, hi⟩ := h.exists_instruction hforeign.lt_length
  obtain ⟨t, d, ht, hop, -⟩ := h.instruction n i hi
  exact not_standsAt_foreign ht hop hforeign

theorem Decodes.not_foreign_of_mem {tokens : List Token} {p : Program} (h : Decodes tokens p)
    {t : Token} (ht : t ∈ tokens) : ¬ t.Foreign := by
  obtain ⟨n, hn⟩ := List.getElem?_of_mem ht
  exact fun hforeign => h.not_foreign n ⟨t, hn, hforeign⟩

theorem not_balanced_of_unfinished {tokens : List Token} {u : Nat} {us : List Nat}
    (h : Unfinished tokens (u :: us)) : ¬ Balanced tokens :=
  fun hb => absurd (h.unique (.flat hb)) (by simp)

theorem FirstForeign.unique {tokens : List Token} {n k : Nat} (hn : FirstForeign tokens n)
    (hk : FirstForeign tokens k) : n = k := by
  rcases Nat.lt_trichotomy n k with hlt | heq | hgt
  · exact absurd hn.1 (hk.2 n hlt)
  · exact heq
  · exact absurd hk.1 (hn.2 k hgt)

theorem decode_of_strayEnd {tokens : List Token} (source : Option String) {n : Nat} {t : Token}
    (h : StrayEnd tokens n) (ht : tokens[n]? = some t) :
    (decode tokens source).outcome = .error (.ofClose n source t.line t.column) := by
  rcases decode_cases tokens source with ⟨n', t', h', ht', hr⟩ | ⟨u, us, h', -⟩ |
    ⟨n', t', h', -, -, -⟩ | ⟨p, h', -⟩
  · obtain rfl := h.unique h'
    rw [ht, Option.some.injEq] at ht'
    rw [hr, ht']
  · exact absurd h (h'.not_strayEnd n)
  · exact absurd h ((Unfinished.flat h').not_strayEnd n)
  · exact absurd h ((Unfinished.flat h'.balanced).not_strayEnd n)

theorem decode_of_unfinished {tokens : List Token} (source : Option String) {u : Nat}
    {us : List Nat} (h : Unfinished tokens (u :: us)) : (decode tokens source).outcome =
      .error (.unmatchedOpen tokens.length ((u :: us).reverse.map Int.ofNat)) := by
  rcases decode_cases tokens source with ⟨n', t', h', -, -⟩ | ⟨u', us', h', hr⟩ |
    ⟨n', t', h', -, -, -⟩ | ⟨p, h', -⟩
  · exact absurd h' (h.not_strayEnd n')
  · rw [hr, h.unique h']
  · exact absurd h' (not_balanced_of_unfinished h)
  · exact absurd h'.balanced (not_balanced_of_unfinished h)

theorem decode_of_firstForeign {tokens : List Token} (source : Option String) {n : Nat} {t : Token}
    (hb : Balanced tokens) (h : FirstForeign tokens n) (ht : tokens[n]? = some t) :
    (decode tokens source).outcome = .error (.notInstruction t.text) := by
  rcases decode_cases tokens source with ⟨n', t', h', -, -⟩ | ⟨u', us', h', -⟩ |
    ⟨n', t', -, h', ht', hr⟩ | ⟨p, h', -⟩
  · exact absurd h' ((Unfinished.flat hb).not_strayEnd n')
  · exact absurd hb (not_balanced_of_unfinished h')
  · obtain rfl := h.unique h'
    rw [ht, Option.some.injEq] at ht'
    rw [hr, ht']
  · exact absurd h.1 (h'.not_foreign n)

/-- Balanced tokens that all denote instructions are a program. -/
theorem decode_of_balanced {tokens : List Token} (source : Option String) (hb : Balanced tokens)
    (h : ∀ n, ¬ StandsAt Token.Foreign tokens n) :
    ∃ p, Decodes tokens p ∧ (decode tokens source).outcome = .ok p := by
  rcases decode_cases tokens source with ⟨n', t', h', -, -⟩ | ⟨u', us', h', -⟩ |
    ⟨n', t', -, h', -, -⟩ | hp
  · exact absurd h' ((Unfinished.flat hb).not_strayEnd n')
  · exact absurd hb (not_balanced_of_unfinished h')
  · exact absurd h'.1 (h n')
  · exact hp

/-- A list that neither ends nor begins a loop too many is balanced. -/
theorem balanced_iff (tokens : List Token) :
    Balanced tokens ↔ (∀ n, ¬ StrayEnd tokens n) ∧ ∀ o, ¬ Unended tokens o := by
  constructor
  · intro hb
    refine ⟨(Unfinished.flat hb).not_strayEnd, ?_⟩
    intro o ho
    exact List.not_mem_nil (((Unfinished.flat hb).mem_iff o).2 ho)
  · rintro ⟨hstray, hopen⟩
    rcases decode_cases tokens none with ⟨n, t, h, -, -⟩ | ⟨u, us, h, -⟩ | ⟨n, t, h, -, -, -⟩ |
      ⟨p, h, -⟩
    · exact absurd h (hstray n)
    · exact absurd ((h.mem_iff u).1 List.mem_cons_self) (hopen u)
    · exact h
    · exact h.balanced

/-! ## Each outcome under its condition -/

/-- The numbers are exactly the positions with a property, in ascending order. -/
def Lists (numbers : List Int) (property : Nat → Prop) : Prop :=
  ∃ positions : List Nat, numbers = positions.map Int.ofNat ∧ positions.Pairwise (· < ·) ∧
    ∀ n, n ∈ positions ↔ property n

/-- The open loops, outermost first. -/
theorem lists_of_unfinished {tokens : List Token} {us : List Nat} (h : Unfinished tokens us) :
    Lists (us.reverse.map Int.ofNat) (Unended tokens) := by
  refine ⟨us.reverse, rfl, List.pairwise_reverse.2 h.descending, ?_⟩
  intro n
  rw [List.mem_reverse]
  exact h.mem_iff n

/-- A property has one ascending list. -/
theorem Lists.unique {numbers numbers' : List Int} {property : Nat → Prop}
    (h : Lists numbers property) (h' : Lists numbers' property) : numbers = numbers' := by
  obtain ⟨ns, rfl, hns, hmem⟩ := h
  obtain ⟨ns', rfl, hns', hmem'⟩ := h'
  have hrev : ns.reverse = ns'.reverse :=
    eq_of_descending (List.pairwise_reverse.2 hns) (List.pairwise_reverse.2 hns') fun n => by
      rw [List.mem_reverse, List.mem_reverse, hmem, hmem']
  rw [List.reverse_inj.1 hrev]

theorem ofClose_eq_unmatchedClose_iff {n : Nat} {source : Option String} {line column : Option Int}
    {k : Int} {site : Option Site} :
    DecodeError.ofClose n source line column = .unmatchedClose k site ↔
      k = n ∧ Site.find? source line column = .ok site := by
  rw [DecodeError.ofClose]
  cases Site.find? source line column with
  | ok found => simp [eq_comm]
  | error e => simp

theorem ofClose_eq_undrawable_iff {n : Nat} {source : Option String} {line column : Option Int}
    {e : ExcerptError} :
    DecodeError.ofClose n source line column = .undrawable e ↔
      Site.find? source line column = .error e := by
  rw [DecodeError.ofClose]
  cases Site.find? source line column <;> simp

/-- The error of a stray loop end is no other error. -/
theorem ofClose_cases (n : Nat) (source : Option String) (line column : Option Int) :
    (∃ site, DecodeError.ofClose n source line column = .unmatchedClose n site) ∨
      ∃ e, DecodeError.ofClose n source line column = .undrawable e := by
  rw [DecodeError.ofClose]
  cases Site.find? source line column with
  | ok site => exact Or.inl ⟨site, rfl⟩
  | error e => exact Or.inr ⟨e, rfl⟩

/-- An error that can only come from a stray loop end comes from one. -/
theorem strayEnd_of_decode {tokens : List Token} {source : Option String} {e : DecodeError}
    (h : (decode tokens source).outcome = .error e)
    (hopen : ∀ k us, e ≠ .unmatchedOpen k us) (hforeign : ∀ text, e ≠ .notInstruction text) :
    ∃ n t, StrayEnd tokens n ∧ tokens[n]? = some t ∧ .ofClose n source t.line t.column = e := by
  rcases decode_cases tokens source with ⟨n, t, hstray, ht, hr⟩ | ⟨u, us, -, hr⟩ |
    ⟨n, t, -, -, -, hr⟩ | ⟨p, -, hr⟩ <;> rw [hr] at h
  · exact ⟨n, t, hstray, ht, Except.error.inj h⟩
  · exact absurd (Except.error.inj h).symm (hopen _ _)
  · exact absurd (Except.error.inj h).symm (hforeign _)
  · cases h

theorem decode_eq_unmatchedClose_iff (tokens : List Token) (source : Option String) (k : Int)
    (site : Option Site) :
    (decode tokens source).outcome = .error (.unmatchedClose k site) ↔
      ∃ (n : Nat) (t : Token), k = n ∧ StrayEnd tokens n ∧ tokens[n]? = some t ∧
        Site.find? source t.line t.column = .ok site := by
  constructor
  · intro h
    obtain ⟨n, t, hstray, ht, he⟩ := strayEnd_of_decode h (by simp) (by simp)
    obtain ⟨hk, hsite⟩ := ofClose_eq_unmatchedClose_iff.1 he
    exact ⟨n, t, hk, hstray, ht, hsite⟩
  · rintro ⟨n, t, hk, hstray, ht, hsite⟩
    rw [decode_of_strayEnd source hstray ht, ofClose_eq_unmatchedClose_iff.2 ⟨hk, hsite⟩]

theorem decode_eq_undrawable_iff (tokens : List Token) (source : Option String) (e : ExcerptError) :
    (decode tokens source).outcome = .error (.undrawable e) ↔
      ∃ (n : Nat) (t : Token), StrayEnd tokens n ∧ tokens[n]? = some t ∧
        Site.find? source t.line t.column = .error e := by
  constructor
  · intro h
    obtain ⟨n, t, hstray, ht, he⟩ := strayEnd_of_decode h (by simp) (by simp)
    exact ⟨n, t, hstray, ht, ofClose_eq_undrawable_iff.1 he⟩
  · rintro ⟨n, t, hstray, ht, hsite⟩
    rw [decode_of_strayEnd source hstray ht, ofClose_eq_undrawable_iff.2 hsite]

theorem decode_eq_unmatchedOpen_iff (tokens : List Token) (source : Option String) (k : Int)
    (unclosed : List Int) :
    (decode tokens source).outcome = .error (.unmatchedOpen k unclosed) ↔
      (∀ n, ¬ StrayEnd tokens n) ∧ (∃ o, Unended tokens o) ∧ k = tokens.length ∧
        Lists unclosed (Unended tokens) := by
  rcases decode_cases tokens source with ⟨n, t, hstray, -, hr⟩ | ⟨u, us, hopen, hr⟩ |
    ⟨n, t, hb, -, -, hr⟩ | ⟨p, hp, hr⟩ <;> rw [hr]
  · constructor
    · intro h
      rcases ofClose_cases n source t.line t.column with ⟨site, he⟩ | ⟨e, he⟩ <;>
        rw [he] at h <;> cases h
    · exact fun h => absurd hstray (h.1 n)
  · constructor
    · intro h
      cases h
      have hfirst : ∃ o, Unended tokens o := ⟨u, (hopen.mem_iff u).1 List.mem_cons_self⟩
      exact ⟨hopen.not_strayEnd, hfirst, rfl, lists_of_unfinished hopen⟩
    · rintro ⟨-, -, rfl, hlist⟩
      rw [hlist.unique (lists_of_unfinished hopen)]
  · exact ⟨nofun, fun ⟨_, ⟨o, ho⟩, _⟩ => absurd ho (((balanced_iff tokens).1 hb).2 o)⟩
  · exact ⟨nofun, fun ⟨_, ⟨o, ho⟩, _⟩ => absurd ho (((balanced_iff tokens).1 hp.balanced).2 o)⟩

theorem decode_eq_notInstruction_iff (tokens : List Token) (source : Option String)
    (text : String) :
    (decode tokens source).outcome = .error (.notInstruction text) ↔
      (∀ n, ¬ StrayEnd tokens n) ∧ (∀ o, ¬ Unended tokens o) ∧
        ∃ n t, FirstForeign tokens n ∧ tokens[n]? = some t ∧ t.text = text := by
  constructor
  · intro h
    rcases decode_cases tokens source with ⟨n, t, -, -, hr⟩ | ⟨u, us, -, hr⟩ |
      ⟨n, t, hb, hfirst, ht, hr⟩ | ⟨p, -, hr⟩ <;> rw [hr] at h
    · rcases ofClose_cases n source t.line t.column with ⟨site, he⟩ | ⟨e, he⟩ <;>
        rw [he] at h <;> cases h
    · cases h
    · cases h
      exact ⟨((balanced_iff tokens).1 hb).1, ((balanced_iff tokens).1 hb).2, n, t, hfirst, ht, rfl⟩
    · cases h
  · rintro ⟨hstray, hopen, n, t, hfirst, ht, rfl⟩
    exact decode_of_firstForeign source ((balanced_iff tokens).2 ⟨hstray, hopen⟩) hfirst ht

/-- A program that decoding gives is a program of the tokens. -/
theorem decodes_of_decode {tokens : List Token} {source : Option String} {p : Program}
    (h : (decode tokens source).outcome = .ok p) : Decodes tokens p := by
  rcases decode_cases tokens source with ⟨n, t, -, -, hr⟩ | ⟨u, us, -, hr⟩ | ⟨n, t, -, -, -, hr⟩ |
    ⟨p', hp, hr⟩ <;> rw [hr] at h <;> cases h
  exact hp

theorem decode_eq_ok_iff (tokens : List Token) (source : Option String) :
    (∃ p, (decode tokens source).outcome = .ok p) ↔
      (∀ n, ¬ StrayEnd tokens n) ∧ (∀ o, ¬ Unended tokens o) ∧
        ∀ n, ¬ StandsAt Token.Foreign tokens n := by
  constructor
  · rintro ⟨p, h⟩
    have hp := decodes_of_decode h
    obtain ⟨hstray, hopen⟩ := (balanced_iff tokens).1 hp.balanced
    exact ⟨hstray, hopen, hp.not_foreign⟩
  · rintro ⟨hstray, hopen, hforeign⟩
    have hb := (balanced_iff tokens).2 ⟨hstray, hopen⟩
    obtain ⟨p, -, hp⟩ := decode_of_balanced source hb hforeign
    exact ⟨p, hp⟩

/-- The place of a token can be shown: it is not known, or its column is within reach. -/
def Drawable (source : Option String) (t : Token) : Prop :=
  source = none ∨ t.line = none ∨ ∀ c, t.column = some c → 0 ≤ c ∧ c ≤ Excerpt.maxColumn

theorem Drawable.exists_site {source : Option String} {t : Token} (h : Drawable source t) :
    ∃ site, Site.find? source t.line t.column = .ok site := by
  cases source with
  | none => exact ⟨none, rfl⟩
  | some text =>
    cases hline : t.line with
    | none => exact ⟨none, rfl⟩
    | some line =>
      have hcolumn : ∀ c, t.column = some c → 0 ≤ c ∧ c ≤ Excerpt.maxColumn := by
        rcases h with h | h | h
        · exact absurd h nofun
        · rw [hline] at h
          exact absurd h nofun
        · exact h
      have hfault : ∀ lines window, Excerpt.fault? lines window t.column = none := by
        intro lines window
        cases hc : t.column with
        | none => exact Excerpt.fault?_none lines window
        | some c =>
          obtain ⟨hlow, hhigh⟩ := hcolumn c hc
          simp [Excerpt.fault?, Excerpt.caretFault?_eq_none _ hlow hhigh]
      simp only [Site.find?, Excerpt.text, hfault]
      exact ⟨_, rfl⟩

/-- The tokens of a source text denote instructions. -/
theorem not_foreign_of_lexemes (lexemes : List Source.Lexeme) (n : Nat) :
    ¬ StandsAt Token.Foreign (lexemes.map Token.ofLexeme) n := by
  rintro ⟨t, ht, hforeign⟩
  obtain ⟨l, -, rfl⟩ := List.mem_map.1 (List.mem_of_getElem? ht)
  exact hforeign l.op rfl

/-- The instruction at each place is the one that the token there denotes. -/
def SameInstructions (tokens : List Token) (p : Program) : Prop :=
  p.size = tokens.length ∧ ∀ (n : Nat) (t : Token), tokens[n]? = some t →
    ∃ i, p.instructions[n]? = some i ∧ t.text = i.op.symbol.toString ∧ i.index = n ∧
      i.line = t.line ∧ i.column = t.column

theorem Decodes.sameInstructions {tokens : List Token} {p : Program} (h : Decodes tokens p) :
    SameInstructions tokens p := by
  refine ⟨h.size_eq, ?_⟩
  intro n t ht
  obtain ⟨i, hi⟩ := h.exists_instruction (List.getElem?_eq_some_iff.1 ht).1
  obtain ⟨t', d, ht', hop, -, heq⟩ := h.instruction n _ hi
  rw [ht, Option.some.injEq] at ht'
  subst ht'
  exact ⟨_, hi, hop, h.index_eq hi, by rw [heq], by rw [heq]⟩

/-- **The outcome of decoding.** A stray loop end is reported first, then the loops that stay open,
then the first token that denotes no instruction; without any of them there is a program with one
instruction for each token. A stray loop end is shown in its place unless that cannot be drawn, and
no token of a source text is foreign. -/
theorem decode_outcome_iff (tokens : List Token) (source : Option String) :
    (∀ n t, StrayEnd tokens n → tokens[n]? = some t → Drawable source t →
      ∃ site, (decode tokens source).outcome = .error (.unmatchedClose n site)) ∧
    (∀ k site, (decode tokens source).outcome = .error (.unmatchedClose k site) ↔
      ∃ (n : Nat) (t : Token), k = n ∧ StrayEnd tokens n ∧ (∀ j, j < n → ¬ StrayEnd tokens j) ∧
        tokens[n]? = some t ∧ Site.find? source t.line t.column = .ok site) ∧
    (∀ e, (decode tokens source).outcome = .error (.undrawable e) ↔
      ∃ (n : Nat) (t : Token), StrayEnd tokens n ∧ tokens[n]? = some t ∧
        Site.find? source t.line t.column = .error e) ∧
    (∀ k unclosed, (decode tokens source).outcome = .error (.unmatchedOpen k unclosed) ↔
      (∀ n, ¬ StrayEnd tokens n) ∧ (∃ o, Unended tokens o) ∧ k = tokens.length ∧
        Lists unclosed (Unended tokens)) ∧
    (∀ text, (decode tokens source).outcome = .error (.notInstruction text) ↔
      (∀ n, ¬ StrayEnd tokens n) ∧ (∀ o, ¬ Unended tokens o) ∧
        ∃ n t, FirstForeign tokens n ∧ tokens[n]? = some t ∧ t.text = text) ∧
    ((∃ p, (decode tokens source).outcome = .ok p) ↔
      (∀ n, ¬ StrayEnd tokens n) ∧ (∀ o, ¬ Unended tokens o) ∧
        ∀ n, ¬ StandsAt Token.Foreign tokens n) ∧
    (∀ p, (decode tokens source).outcome = .ok p → SameInstructions tokens p) ∧
    ∀ text shown, (parse text).outcome ≠ .error (.notInstruction shown) := by
  refine ⟨?_, ?_, decode_eq_undrawable_iff tokens source, decode_eq_unmatchedOpen_iff tokens source,
    decode_eq_notInstruction_iff tokens source, decode_eq_ok_iff tokens source, ?_, ?_⟩
  · intro n t hstray ht hdrawable
    obtain ⟨site, hsite⟩ := hdrawable.exists_site
    refine ⟨site, ?_⟩
    rw [decode_eq_unmatchedClose_iff]
    exact ⟨n, t, rfl, hstray, ht, hsite⟩
  · intro k site
    rw [decode_eq_unmatchedClose_iff]
    constructor
    · rintro ⟨n, t, hk, hstray, ht, hsite⟩
      refine ⟨n, t, hk, hstray, ?_, ht, hsite⟩
      -- the only stray loop end is the first one
      intro j hj hstray'
      have := hstray.unique hstray'
      omega
    · rintro ⟨n, t, hk, hstray, -, ht, hsite⟩
      exact ⟨n, t, hk, hstray, ht, hsite⟩
  · intro p hp
    exact (decodes_of_decode hp).sameInstructions
  · intro text shown h
    obtain ⟨-, -, n, t, hfirst, -, -⟩ := (decode_eq_notInstruction_iff _ _ shown).1 h
    exact not_foreign_of_lexemes _ n hfirst.1

end Program

end TapeLanguage
