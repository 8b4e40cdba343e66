import TapeLanguage.Proofs.Concatenation
import TapeLanguage.Proofs.Pairing

/-!
# Decoding part by part

A balanced part of a token list is decoded in its place as it is decoded alone: each of its
instructions is there again, some places further on and inside some more loops
(`Decodes.instruction_inside`). So the program of a concatenation is the program of the first part
followed by the moved program of the second (`Decodes.instructions_append`), and the program of a
loop is the moved program of its body between two brackets (`Decodes.instructions_enclose`). An
error behind a program is the error of the rest, moved (`decode_append_error`).

The way back is unique. A program that is not empty begins with an instruction that is no bracket or
with a loop (`exists_cut`), and its first loop ends where its pair of brackets ends, so there is one
way to cut it (`Cut.unique`).
-/

set_option autoImplicit false

namespace TapeLanguage

/-! ## Further on -/

/-- An instruction some places further on and inside some more loops. -/
def Instruction.moved (places levels : Nat) (i : Instruction) : Instruction :=
  { i with
    index := i.index + places
    depth := if i.op.isBracket then i.depth + levels else i.depth
    partner := i.partner.map (· + (places : Int)) }

@[simp] theorem Instruction.moved_zero (i : Instruction) : i.moved 0 0 = i := by
  simp [moved]

/-- An error some places further on. -/
def DecodeError.moved (places : Nat) : DecodeError → DecodeError
  | unmatchedClose position site => unmatchedClose (position + places) site
  | unmatchedOpen position unclosed =>
    unmatchedOpen (position + places) (unclosed.map (· + (places : Int)))
  | notInstruction text => notInstruction text
  | undrawable e => undrawable e

namespace Program

open Brackets

/-! ## A part in its place -/

section Inside

variable {w a v : List Token} {p p' : Program} {n : Nat}

theorem standsAt_inside (kind : Token → Prop) (w v : List Token) (hn : n < a.length) :
    StandsAt kind (w ++ (a ++ v)) (w.length + n) ↔ StandsAt kind a n := by
  rw [standsAt_append_right, standsAt_append_left kind a v hn]

theorem level_inside (w v : List Token) (hn : n ≤ a.length) :
    level (w ++ (a ++ v)) (w.length + n) = height w + level a n := by
  rw [level_append_right, level_append_left a v hn]

theorem getElem?_inside {t : Token} (w v : List Token) (ht : a[n]? = some t) :
    (w ++ (a ++ v))[w.length + n]? = some t :=
  (embeds_back w (a ++ v)).token (by simpa using (embeds_front a v).token ht)

/-- A bracket of the part has its partner in the part. -/
theorem Decodes.jumps_inside (h : Decodes a p) (h' : Decodes (w ++ (a ++ v)) p')
    (hn : n < a.length) : p'.jumps[((w.length + n : Nat) : Int)]? =
      p.jumps[(n : Int)]?.map (· + (w.length : Int)) := by
  cases hp : p.jumps[(n : Int)]? with
  | some u =>
    obtain ⟨o, c, hm, hou⟩ := (h.partners n u).1 hp
    rw [Option.map_some, h'.partners]
    exact ⟨_, _, (hm.append_right v).append_left w, by omega⟩
  | none =>
    -- no bracket stands there, in the part or in the whole
    have hplain : (n : Int) ∉ p.jumps := by
      rw [Std.TreeMap.mem_iff_isSome_getElem?, hp]
      exact nofun
    apply Std.TreeMap.getElem?_eq_none
    intro hmem
    obtain ⟨k, hk, hbracket⟩ := (h'.mem_jumps_iff _).1 hmem
    obtain rfl := Int.natCast_inj.1 hk
    apply hplain
    rw [OpensAt, ClosesAt, standsAt_inside _ w v hn, standsAt_inside _ w v hn] at hbracket
    exact (h.mem_jumps_iff n).2 ⟨n, rfl, hbracket⟩

/-- The loops around the part are around each of its brackets. -/
theorem Decodes.depth_inside {i i' : Instruction} {levels : Nat} (h : Decodes a p)
    (h' : Decodes (w ++ (a ++ v)) p') (hw : height w = levels) (hi : p.instructions[n]? = some i)
    (hi' : p'.instructions[w.length + n]? = some i') (hop : i'.op = i.op) :
    i'.depth = if i.op.isBracket then i.depth + levels else i.depth := by
  have hn := h.lt_length hi
  obtain ⟨d, hd, hdepth⟩ := h.depthAt hi
  obtain ⟨d', hd', hdepth'⟩ := h'.depthAt hi'
  cases hkind : i.op with
  | openLoop =>
    have hlevel := hd.opens ((h.opensAt_iff hi).2 hkind)
    have hlevel' := hd'.opens ((h'.opensAt_iff hi').2 (hop.trans hkind))
    rw [level_inside w v (Nat.le_of_lt hn), hw] at hlevel'
    rw [Op.isBracket, if_pos rfl, hdepth, hdepth']
    omega
  | closeLoop =>
    have hlevel := hd.closes ((h.closesAt_iff hi).2 hkind)
    have hlevel' := hd'.closes ((h'.closesAt_iff hi').2 (hop.trans hkind))
    rw [Nat.add_assoc, level_inside w v hn, hw, hlevel.symm] at hlevel'
    rw [Op.isBracket, if_pos rfl, hdepth, hdepth']
    omega
  | moveLeft | moveRight | increment | decrement | output | input =>
    -- such an instruction has no depth in either program
    have hplain : i.op.isBracket = false := by
      rw [hkind]
      rfl
    rw [(h.plain hi hplain).2, (h'.plain hi' (hop ▸ hplain)).2]
    rfl

/-- **An instruction of a part is there again in the whole**, as many places further on as there are
tokens before the part, and inside as many more loops as are open there. -/
theorem Decodes.instruction_inside {i : Instruction} {levels : Nat} (h : Decodes a p)
    (h' : Decodes (w ++ (a ++ v)) p') (hw : height w = levels)
    (hi : p.instructions[n]? = some i) :
    p'.instructions[w.length + n]? = some (i.moved w.length levels) := by
  have hn := h.lt_length hi
  have ht := List.getElem?_eq_getElem hn
  have ht' := getElem?_inside w v ht
  obtain ⟨i', hi'⟩ := h'.exists_instruction (List.getElem?_eq_some_iff.1 ht').1
  have hop := h.op_eq h' hi hi' ht ht'
  have hdepth := h.depth_inside h' hw hi hi' hop
  have hpartner := h.jumps_inside h' hn
  rw [← h.partner_eq hi, ← h'.partner_eq hi'] at hpartner
  -- both instructions have the place of the one token
  have hplace : i.line = a[n].line ∧ i.column = a[n].column := by
    rw [h.instruction_eq hi ht]
    exact ⟨rfl, rfl⟩
  rw [hi', h'.instruction_eq hi' ht', hop, hdepth, hpartner, Instruction.moved, h.index_eq hi,
    hplace.1, hplace.2, Int.natCast_add, Int.add_comm]

/-- The same for all places of the part and those behind it, if nothing else is behind it. -/
theorem Decodes.getElem?_behind {levels : Nat} (h : Decodes a p) (h' : Decodes (w ++ a) p')
    (hw : height w = levels) (n : Nat) :
    p'.instructions[w.length + n]? =
      (p.instructions[n]?).map (Instruction.moved w.length levels) := by
  cases hi : p.instructions[n]? with
  | some i =>
    rw [← List.append_nil a] at h'
    exact h.instruction_inside h' hw hi
  | none =>
    have hsize : p.size ≤ n := Array.getElem?_eq_none_iff.1 hi
    apply Array.getElem?_eq_none
    change p'.size ≤ _
    rw [h'.size_eq, List.length_append, ← h.size_eq]
    omega

end Inside

/-! ## Concatenations -/

section Append

variable {a b : List Token} {p q pq : Program}

/-- **The instructions of a concatenation** are those of its parts, the second part moved. -/
theorem Decodes.instructions_append (ha : Decodes a p) (hb : Decodes b q)
    (hpq : Decodes (a ++ b) pq) :
    pq.instructions = p.instructions ++ q.instructions.map (Instruction.moved a.length 0) := by
  apply Array.ext_getElem?
  intro n
  rcases Nat.lt_or_ge n p.instructions.size with hlt | hge
  · have hi := Array.getElem?_eq_getElem hlt
    have hlevel : height [] = ((0 : Nat) : Int) := rfl
    have hfront := ha.instruction_inside (w := []) (v := b) hpq hlevel hi
    rw [Array.getElem?_append_left hlt, hi]
    simpa using hfront
  · obtain ⟨k, rfl⟩ := Nat.exists_eq_add_of_le hge
    have hsize : p.instructions.size = a.length := ha.size_eq
    rw [Array.getElem?_append_right hge, Nat.add_sub_cancel_left, Array.getElem?_map, hsize]
    exact hb.getElem?_behind hpq ha.balanced.height_eq_zero k

/-- The jump table of a concatenation is made of those of its parts, the second part moved. -/
theorem Decodes.jumps_append (ha : Decodes a p) (hb : Decodes b q) (hpq : Decodes (a ++ b) pq)
    (k v : Int) : pq.jumps[k]? = some v ↔
      p.jumps[k]? = some v ∨ q.jumps[k - a.length]? = some (v - a.length) := by
  rw [hpq.partners, ha.partners, hb.partners]
  constructor
  · rintro ⟨o, c, h, hkv⟩
    rcases (matches_append_iff ha.balanced hb.balanced o c).1 h with hm | ⟨o', c', hm, rfl, rfl⟩
    · exact Or.inl ⟨o, c, hm, hkv⟩
    · exact Or.inr ⟨o', c', hm, by omega⟩
  · rintro (⟨o, c, hm, hkv⟩ | ⟨o, c, hm, hkv⟩)
    · exact ⟨o, c, hm.append_right b, hkv⟩
    · exact ⟨_, _, hm.append_left a, by omega⟩

end Append

/-! ## Loops -/

section Loop

variable {a : List Token} {p loop : Program} {s e : Token}

/-- Balanced tokens without a foreign one are a program. -/
theorem exists_program {tokens : List Token} (hb : Balanced tokens)
    (h : ∀ t ∈ tokens, ¬ t.Foreign) :
    ∃ p, Decodes tokens p ∧ (decode tokens).outcome = .ok p := by
  apply decode_of_balanced none hb
  rintro n ⟨t, ht, hforeign⟩
  exact h t (List.mem_of_getElem? ht) hforeign

/-- A program between two brackets is a program. -/
theorem Decodes.enclose (ha : Decodes a p) (hs : s.Opens) (he : e.Closes) :
    ∃ loop, Decodes (s :: (a ++ [e])) loop ∧ (decode (s :: (a ++ [e]))).outcome = .ok loop := by
  apply exists_program (.enclose hs he ha.balanced)
  intro t ht
  rw [List.mem_cons, List.mem_append, List.mem_singleton] at ht
  rcases ht with rfl | ht | rfl
  · exact fun hforeign => hforeign .openLoop hs
  · exact ha.not_foreign_of_mem ht
  · exact fun hforeign => hforeign .closeLoop he

/-- **The instructions of a loop** are those of its body, one place further on and one loop deeper,
between the two brackets of the loop. -/
theorem Decodes.instructions_enclose (ha : Decodes a p) (hs : s.Opens) (he : e.Closes)
    (hloop : Decodes (s :: (a ++ [e])) loop) :
    loop.instructions.toList =
      ⟨.openLoop, 0, 0, some ((a.length : Int) + 1), s.line, s.column⟩ ::
        (p.instructions.toList.map (Instruction.moved 1 1) ++
          [⟨.closeLoop, (a.length : Int) + 1, 0, some 0, e.line, e.column⟩]) := by
  have hpair : Matches (s :: (a ++ [e])) 0 (a.length + 1) := by
    have := matches_of_enclosed (a := []) (b := []) hs he ha.balanced
    simpa using this
  have hlast : (s :: (a ++ [e]))[a.length + 1]? = some e := by simp
  have hlength : (s :: (a ++ [e])).length = a.length + 2 := by simp
  have hbody : p.instructions.size = a.length := ha.size_eq
  apply List.ext_getElem?
  intro n
  rw [Array.getElem?_toList]
  -- the first bracket, the body, the last bracket, and nothing
  rcases Nat.eq_zero_or_pos n with rfl | hpos
  · obtain ⟨i, hi⟩ := hloop.exists_instruction hpair.opens.lt_length
    obtain ⟨d, hd, hdepth⟩ := hloop.depthAt hi
    have hzero := hd.opens hpair.opens
    rw [level_zero] at hzero
    rw [hi, hloop.instruction_eq hi rfl, (hloop.opensAt_iff hi).1 hpair.opens, hdepth, hzero,
      hloop.partner_of_opens hpair hi]
    rfl
  · obtain ⟨k, rfl⟩ := Nat.exists_eq_add_of_lt hpos
    rw [Nat.zero_add, List.getElem?_cons_succ]
    rcases Nat.lt_trichotomy k a.length with hlt | rfl | hgt
    · obtain ⟨i, hi⟩ := ha.exists_instruction hlt
      have hweight : height [s] = ((1 : Nat) : Int) := by simp [Token.weight_of_opens hs]
      have hinside := ha.instruction_inside (w := [s]) (v := [e]) hloop hweight hi
      rw [List.length_singleton, Nat.add_comm] at hinside
      rw [hinside, List.getElem?_append_left (by simpa [hbody] using hlt), List.getElem?_map,
        Array.getElem?_toList, hi]
      rfl
    · obtain ⟨i, hi⟩ := hloop.exists_instruction hpair.closes.lt_length
      obtain ⟨d, hd, hdepth⟩ := hloop.depthAt hi
      have hzero := hd.closes hpair.closes
      rw [hpair.level_succ_right, level_zero] at hzero
      rw [hi, hloop.instruction_eq hi hlast, (hloop.closesAt_iff hi).1 hpair.closes, hdepth, hzero,
        hloop.partner_of_closes hpair hi]
      simp [hbody]
    · have hsize : loop.instructions.size = a.length + 2 := hloop.size_eq.trans hlength
      rw [Array.getElem?_eq_none (by omega), List.getElem?_eq_none (by simp; omega)]

end Loop

/-! ## Errors behind a program -/

section Errors

variable {a b : List Token} {p : Program}

theorem FirstForeign.append_left {n : Nat} (ha : Decodes a p) (h : FirstForeign b n) :
    FirstForeign (a ++ b) (a.length + n) := by
  refine ⟨(standsAt_append_right _ a b n).2 h.1, ?_⟩
  intro k hk hforeign
  rcases Nat.lt_or_ge k a.length with hlt | hge
  · exact ha.not_foreign k ((standsAt_append_left _ a b hlt).1 hforeign)
  · obtain ⟨j, rfl⟩ := Nat.exists_eq_add_of_le hge
    exact h.2 j (Nat.lt_of_add_lt_add_left hk) ((standsAt_append_right _ a b j).1 hforeign)

/-- **Behind a program an error is the same, moved.** -/
theorem decode_append_error {e : DecodeError} (ha : Decodes a p)
    (h : (decode b).outcome = .error e) :
    (decode (a ++ b)).outcome = .error (e.moved a.length) := by
  rcases decode_cases b none with ⟨n, t, hstray, ht, hr⟩ | ⟨u, us, hopen, hr⟩ |
    ⟨n, t, hb, hfirst, ht, hr⟩ | ⟨q, -, hr⟩ <;> rw [hr] at h
  · obtain rfl := Except.error.inj h
    have ht' := (embeds_back a b).token ht
    rw [decode_of_strayEnd none (hstray.append_left ha.balanced) ht', Int.natCast_add,
      Int.add_comm]
    rfl
  · obtain rfl := Except.error.inj h
    rw [decode_of_unfinished none (hopen.append_left ha.balanced)]
    simp [DecodeError.moved, Int.add_comm]
  · obtain rfl := Except.error.inj h
    have ht' := (embeds_back a b).token ht
    exact decode_of_firstForeign none (ha.balanced.append hb) (hfirst.append_left ha) ht'
  · exact absurd h nofun

end Errors

/-! ## The first instruction or the first loop -/

/-- A text is a program. -/
def Accepted (text : String) : Prop :=
  ∃ p, (decode (Token.ofText text)).outcome = .ok p

/-- A character is a symbol unless its token is foreign. -/
theorem not_foreign_ofChar (c : Char) :
    ¬ (Token.ofChar c).Foreign ↔ ∃ op : Op, op.symbol = c := by
  have hread : Op.ofText? (Token.ofChar c).text = Op.ofChar? c := by
    simp [Token.ofChar, Op.ofText?]
  rw [Token.foreign_iff, hread, ← ne_eq, Option.ne_none_iff_exists']
  exact exists_congr fun op => Op.ofChar?_eq_some_iff

/-- The programs are the balanced texts of symbols. -/
theorem accepted_iff (text : String) : Accepted text ↔
    Balanced (Token.ofText text) ∧ ∀ c ∈ text.toList, ∃ op : Op, op.symbol = c := by
  constructor
  · rintro ⟨p, hp⟩
    have h := decodes_of_decode hp
    refine ⟨h.balanced, ?_⟩
    intro c hc
    exact (not_foreign_ofChar c).1 (h.not_foreign_of_mem (List.mem_map_of_mem hc))
  · rintro ⟨hb, h⟩
    have hforeign : ∀ t ∈ Token.ofText text, ¬ t.Foreign := by
      intro t ht
      obtain ⟨c, hc, rfl⟩ := List.mem_map.1 ht
      exact (not_foreign_ofChar c).2 (h c hc)
    obtain ⟨p, -, hp⟩ := exists_program hb hforeign
    exact ⟨p, hp⟩

theorem accepted_ofList {cs : List Char} (hb : Balanced (cs.map Token.ofChar))
    (h : ∀ c ∈ cs, ∃ op : Op, op.symbol = c) : Accepted (String.ofList cs) := by
  rw [accepted_iff, Token.ofText, String.toList_ofList]
  exact ⟨hb, h⟩

/-- What a text begins with, and its rest. -/
inductive Cut where
  /-- One instruction. -/
  | instruction (op : Op) (rest : String)
  /-- A loop with its body. -/
  | loop (body rest : String)

namespace Cut

/-- The text that is cut. -/
def text : Cut → String
  | instruction op rest => op.symbol.toString ++ rest
  | loop body rest => "[" ++ body ++ "]" ++ rest

/-- The instruction is no bracket, and the parts are programs. -/
def Accepted : Cut → Prop
  | instruction op rest => op.isBracket = false ∧ Program.Accepted rest
  | loop body rest => Program.Accepted body ∧ Program.Accepted rest

theorem toList_instruction (op : Op) (rest : String) :
    (instruction op rest).text.toList = op.symbol :: rest.toList := by
  simp [text]

theorem toList_loop (body rest : String) :
    (loop body rest).text.toList = '[' :: (body.toList ++ ']' :: rest.toList) := by
  simp [text]

/-- The symbol of an instruction that is no bracket is not the beginning of a loop. -/
theorem symbol_ne {op : Op} (h : op.isBracket = false) : op.symbol ≠ '[' := by
  intro hsymbol
  obtain rfl : op = .openLoop := Op.symbol_injective hsymbol
  exact absurd h nofun

/-- The first loop of a text ends where its pair of brackets ends. -/
theorem length_body_eq {body rest body' rest' : String} (hb : Program.Accepted body)
    (hb' : Program.Accepted body') (h : (loop body rest).text = (loop body' rest').text) :
    body.toList.length = body'.toList.length := by
  have htokens : ∀ body rest : String, Program.Accepted body →
      Matches (Token.ofText (loop body rest).text) 0 (body.toList.length + 1) := by
    intro body rest hb
    have hpair := matches_of_enclosed (a := []) (b := Token.ofText rest) (s := .ofChar '[')
      (e := .ofChar ']') rfl rfl ((accepted_iff body).1 hb).1
    rw [List.nil_append, List.length_nil, Nat.zero_add, Token.length_ofText,
      ← String.length_toList] at hpair
    rw [Token.ofText, toList_loop, List.map_cons, List.map_append, List.map_cons]
    exact hpair
  have hpair := htokens body rest hb
  rw [h] at hpair
  exact Nat.succ.inj (hpair.right_unique (htokens body' rest' hb'))

/-- **A text is cut in one way.** -/
theorem unique {s s' : Cut} (hs : s.Accepted) (hs' : s'.Accepted) (h : s.text = s'.text) :
    s = s' := by
  have hlist : s.text.toList = s'.text.toList := congrArg String.toList h
  cases s with
  | instruction op rest =>
    cases s' with
    | instruction op' rest' =>
      rw [toList_instruction, toList_instruction, List.cons.injEq, String.toList_inj] at hlist
      rw [Op.symbol_injective hlist.1, hlist.2]
    | loop body' rest' =>
      rw [toList_instruction, toList_loop, List.cons.injEq] at hlist
      exact absurd hlist.1 (symbol_ne hs.1)
  | loop body rest =>
    cases s' with
    | instruction op' rest' =>
      rw [toList_instruction, toList_loop, List.cons.injEq] at hlist
      exact absurd hlist.1.symm (symbol_ne hs'.1)
    | loop body' rest' =>
      have hlength := length_body_eq hs.1 hs'.1 h
      rw [toList_loop, toList_loop, List.cons.injEq] at hlist
      obtain ⟨hbody, hrest⟩ := List.append_inj hlist.2 hlength
      rw [List.cons.injEq] at hrest
      rw [String.toList_inj.1 hbody, String.toList_inj.1 hrest.2]

end Cut

/-- A program that is not empty begins with an instruction or with a loop. -/
theorem exists_cut {text : String} (h : Accepted text) (hne : text ≠ "") :
    ∃ s : Cut, s.text = text ∧ s.Accepted := by
  obtain ⟨hb, hsymbols⟩ := (accepted_iff text).1 h
  rcases hb.cut with hnil | ⟨t, rest, htokens, ho, hc, hrest⟩ |
    ⟨s, body, e, rest, htokens, hs, he, hbody, hrest⟩
  · exact absurd (Token.ofText_injective hnil) hne
  · obtain ⟨c, cs, hlist, rfl, rfl⟩ := List.map_eq_cons_iff.1 htokens
    rw [hlist, List.forall_mem_cons] at hsymbols
    obtain ⟨⟨op, rfl⟩, hsymbols⟩ := hsymbols
    refine ⟨.instruction op (String.ofList cs), ?_, ?_, accepted_ofList hrest hsymbols⟩
    · rw [← String.toList_inj, Cut.toList_instruction, hlist, String.toList_ofList]
    · rw [Token.opens_iff rfl] at ho
      rw [Token.closes_iff rfl] at hc
      cases op <;> first | rfl | contradiction
  · -- the text has the two brackets where the tokens have them
    obtain ⟨c, tail, hlist, rfl, htail⟩ := List.map_eq_cons_iff.1 htokens
    obtain ⟨bs, behind, rfl, rfl, hbehind⟩ := List.map_eq_append_iff.1 htail
    obtain ⟨d, cs, rfl, rfl, rfl⟩ := List.map_eq_cons_iff.1 hbehind
    rw [hlist, List.forall_mem_cons, List.forall_mem_append, List.forall_mem_cons] at hsymbols
    obtain ⟨⟨first, rfl⟩, hbs, ⟨last, rfl⟩, hcs⟩ := hsymbols
    obtain rfl := (Token.opens_iff rfl).1 hs
    obtain rfl := (Token.closes_iff rfl).1 he
    refine ⟨.loop (String.ofList bs) (String.ofList cs), ?_, accepted_ofList hbody hbs,
      accepted_ofList hrest hcs⟩
    rw [← String.toList_inj, Cut.toList_loop, hlist, String.toList_ofList, String.toList_ofList]
    rfl

/-! ## Decoding is compositional -/

/-- **Decoding is compositional.** Let a text be a program. With a second program behind it, it is
the program of the instructions of both, the second ones moved, with the jump tables of both, the
second one moved. With anything else behind it, it has the error of that, moved. Between brackets it
is a loop around its instructions, moved and one deeper. And unless it is empty, it is cut into its
first instruction or its first loop and the rest in exactly one way. -/
theorem decode_composes {a : String} {p : Program}
    (ha : (decode (Token.ofText a)).outcome = .ok p) :
    (∀ b q, (decode (Token.ofText b)).outcome = .ok q →
      ∃ pq, (decode (Token.ofText (a ++ b))).outcome = .ok pq ∧
        pq.instructions = p.instructions ++ q.instructions.map (Instruction.moved a.length 0) ∧
        ∀ k v : Int, pq.jumps[k]? = some v ↔
          p.jumps[k]? = some v ∨ q.jumps[k - a.length]? = some (v - a.length)) ∧
    (∀ b e, (decode (Token.ofText b)).outcome = .error e →
      (decode (Token.ofText (a ++ b))).outcome = .error (e.moved a.length)) ∧
    (∃ loop, (decode (Token.ofText ("[" ++ a ++ "]"))).outcome = .ok loop ∧
      loop.instructions.toList =
        ⟨.openLoop, 0, 0, some ((a.length : Int) + 1), none, none⟩ ::
          (p.instructions.toList.map (Instruction.moved 1 1) ++
            [⟨.closeLoop, (a.length : Int) + 1, 0, some 0, none, none⟩])) ∧
    (a ≠ "" → ∃ s : Cut, (s.text = a ∧ s.Accepted) ∧
      ∀ s' : Cut, s'.text = a → s'.Accepted → s' = s) := by
  have hp := decodes_of_decode ha
  refine ⟨?_, ?_, ?_, ?_⟩
  · intro b q hb
    have hq := decodes_of_decode hb
    obtain ⟨pq, hpq, hdecode⟩ := hp.append hq
    have hinstructions := hp.instructions_append hq hpq
    have hjumps := hp.jumps_append hq hpq
    rw [Token.length_ofText] at hinstructions hjumps
    rw [Token.ofText_append]
    exact ⟨pq, hdecode, hinstructions, hjumps⟩
  · intro b e hb
    rw [Token.ofText_append, decode_append_error hp hb, Token.length_ofText]
  · have htokens : Token.ofText ("[" ++ a ++ "]") =
        Token.ofChar '[' :: (Token.ofText a ++ [Token.ofChar ']']) := by
      rw [Token.ofText_append, Token.ofText_append]
      rfl
    have hs : (Token.ofChar '[').Opens := rfl
    have he : (Token.ofChar ']').Closes := rfl
    obtain ⟨loop, hloop, hdecode⟩ := hp.enclose hs he
    have hinstructions := hp.instructions_enclose hs he hloop
    rw [Token.length_ofText] at hinstructions
    rw [htokens]
    exact ⟨loop, hdecode, hinstructions⟩
  · intro hne
    obtain ⟨s, htext, hs⟩ := exists_cut ⟨p, ha⟩ hne
    refine ⟨s, ⟨htext, hs⟩, ?_⟩
    intro s' htext' hs'
    exact Cut.unique hs' hs (htext'.trans htext.symm)

/-- A loop, with an instruction behind it, with a bracket too many behind it, and in a loop. -/
theorem decode_composes_loop : ∃ p q pq loop, (decode (Token.ofText "[-]")).outcome = .ok p ∧
    (decode (Token.ofText "+")).outcome = .ok q ∧
    (decode (Token.ofText "[-]+")).outcome = .ok pq ∧
    pq.instructions = p.instructions ++ q.instructions.map (Instruction.moved 3 0) ∧
    (decode (Token.ofText "[-]+]")).outcome = .error (.unmatchedClose 4 none) ∧
    (decode (Token.ofText "[[-]]")).outcome = .ok loop ∧ loop.size = p.size + 2 ∧
    ∀ s : Cut, s.text = "[-]" → s.Accepted → s = .loop "-" "" := by
  have hparts : ∃ p q, (decode (Token.ofText "[-]")).outcome = .ok p ∧
      (decode (Token.ofText "+")).outcome = .ok q := ⟨_, _, rfl, rfl⟩
  obtain ⟨p, q, hp, hq⟩ := hparts
  obtain ⟨happend, herror, ⟨loop, hloop, hinstructions⟩, hcut⟩ := decode_composes hp
  obtain ⟨pq, hpq, hboth, -⟩ := happend "+" q hq
  have hstray := herror "+]" (.unmatchedClose 1 none) rfl
  obtain ⟨s, -, hunique⟩ := hcut (by decide)
  refine ⟨p, q, pq, loop, hp, hq, hpq, hboth, hstray, hloop, ?_, ?_⟩
  · have hlength := congrArg List.length hinstructions
    simpa [size] using hlength
  · -- the cut is unique, so it is the one that is seen
    intro s' htext hs'
    have hseen : (Cut.loop "-" "").Accepted := ⟨⟨_, rfl⟩, ⟨_, rfl⟩⟩
    rw [hunique s' htext hs', hunique (.loop "-" "") (by decide) hseen]

end Program

end TapeLanguage
