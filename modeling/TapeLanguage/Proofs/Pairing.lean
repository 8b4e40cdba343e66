import TapeLanguage.Proofs.Decoding

/-!
# The pairing of brackets

A `Pairing` of a token list takes each loop beginning to a later loop end, covers all brackets and
does not cross itself. There is at most one: a stretch of tokens that a pairing does not leave is
balanced (`Pairing.balanced_stretch`), so every pair encloses balanced tokens (`Pairing.matches`).
The jump table of a decoded program is the pairing of its tokens, and the labels of the instructions
agree with it (`decode_pairs_brackets`): the depth of a bracket is the number of pairs around its
own.
-/

set_option autoImplicit false

namespace TapeLanguage.Program

open Brackets

/-- Each loop beginning is paired with a later loop end, each bracket once, and no two pairs cross.
-/
structure Pairing (tokens : List Token) (pairs : Nat → Nat → Prop) : Prop where
  /-- A pair begins before it ends. -/
  lt {o c : Nat} : pairs o c → o < c
  /-- A pair begins with a loop beginning. -/
  opens {o c : Nat} : pairs o c → OpensAt tokens o
  /-- A pair ends with a loop end. -/
  closes {o c : Nat} : pairs o c → ClosesAt tokens c
  /-- A loop beginning has one partner. -/
  right_unique {o c c' : Nat} : pairs o c → pairs o c' → c = c'
  /-- A loop end has one partner. -/
  left_unique {o o' c : Nat} : pairs o c → pairs o' c → o = o'
  /-- Every loop beginning is paired. -/
  covers_opens {o : Nat} : OpensAt tokens o → ∃ c, pairs o c
  /-- Every loop end is paired. -/
  covers_closes {c : Nat} : ClosesAt tokens c → ∃ o, pairs o c
  /-- A pair that begins inside another ends inside it. -/
  nested {o c o' c' : Nat} : pairs o c → pairs o' c' → o < o' → o' < c → c' < c

/-! ## A pairing encloses balanced tokens -/

/-- Each pair has both ends in the stretch from `a` to `b` or none. -/
def Within (pairs : Nat → Nat → Prop) (a b : Nat) : Prop :=
  ∀ o c, pairs o c → (a ≤ o ∧ o < b ↔ a ≤ c ∧ c < b)

variable {tokens : List Token} {pairs : Nat → Nat → Prop}

/-- The body of a pair holds whole pairs. -/
theorem Pairing.within_body (h : Pairing tokens pairs) {o c : Nat} (hoc : pairs o c) :
    Within pairs (o + 1) c := by
  intro o' c' hoc'
  have hlt := h.lt hoc'
  constructor
  · rintro ⟨hlow, hhigh⟩
    exact ⟨by omega, h.nested hoc hoc' hlow hhigh⟩
  · rintro ⟨hlow, hhigh⟩
    refine ⟨?_, by omega⟩
    rcases Nat.lt_trichotomy o' o with hbefore | rfl | hafter
    · -- a pair that begins before `o` and ends in the body would cross
      have := h.nested hoc' hoc hbefore hlow
      omega
    · have := h.right_unique hoc hoc'
      omega
    · exact hafter

/-- What follows the first pair of a stretch holds whole pairs. -/
theorem Pairing.within_rest (h : Pairing tokens pairs) {o c b : Nat} (hoc : pairs o c)
    (hw : Within pairs o b) : Within pairs (c + 1) b := by
  intro o' c' hoc'
  have hlt := h.lt hoc'
  have hwhole := hw o' c' hoc'
  have hpair := h.lt hoc
  constructor
  · rintro ⟨hlow, hhigh⟩
    have := (hwhole.1 ⟨by omega, hhigh⟩).2
    omega
  · rintro ⟨hlow, hhigh⟩
    obtain ⟨hfrom, hto⟩ := hwhole.2 ⟨by omega, hhigh⟩
    refine ⟨?_, hto⟩
    rcases Nat.lt_trichotomy o' c with hbefore | rfl | hafter
    · -- a pair that begins in the body ends there
      rcases Nat.lt_or_eq_of_le hfrom with hinside | rfl
      · have := h.nested hoc hoc' hinside hbefore
        omega
      · have := h.right_unique hoc hoc'
        omega
    · exact absurd (h.closes hoc) (opensAt_not_closesAt (h.opens hoc'))
    · exact hafter

/-- **A stretch that a pairing does not leave is balanced.** -/
theorem Pairing.balanced_stretch (h : Pairing tokens pairs) :
    ∀ (len a b : Nat), b - a = len → Within pairs a b → Balanced ((tokens.take b).drop a) := by
  intro len
  induction len using Nat.strongRecOn with
  | ind len ih =>
    intro a b hlen hw
    cases hta : ((tokens.take b).drop a)[0]? with
    | none =>
      have hnil : (tokens.take b).drop a = [] :=
        List.eq_nil_of_length_eq_zero (Nat.le_zero.1 (List.getElem?_eq_none_iff.1 hta))
      exact hnil ▸ .nil
    | some t =>
      have hab : a < b := by
        have hlt := (List.getElem?_eq_some_iff.1 hta).1
        rw [List.length_drop, List.length_take] at hlt
        omega
      have ht : tokens[a]? = some t := by
        rwa [List.getElem?_drop, Nat.add_zero, List.getElem?_take_of_lt hab] at hta
      rw [drop_take_cons ht hab]
      by_cases ho : t.Opens
      · -- a loop: its body, then the rest of the stretch
        obtain ⟨c, hac⟩ := h.covers_opens ⟨t, ht, ho⟩
        have hlt := h.lt hac
        have hcb := ((hw a c hac).1 ⟨Nat.le_refl a, hab⟩).2
        obtain ⟨e, he, hclose⟩ := h.closes hac
        have hbody := ih (c - (a + 1)) (by omega) (a + 1) c rfl (h.within_body hac)
        have hrest := ih (b - (c + 1)) (by omega) (c + 1) b rfl (h.within_rest hac hw)
        rw [drop_take_split tokens hlt (Nat.le_of_lt hcb), drop_take_cons he hcb]
        have hloop := (Balanced.enclose ho hclose hbody).append hrest
        simpa using hloop
      · -- no bracket: a loop end here would belong to a pair from before the stretch
        have hc : ¬ t.Closes := by
          intro hc
          obtain ⟨o, hoa⟩ := h.covers_closes ⟨t, ht, hc⟩
          have := ((hw o a hoa).2 ⟨Nat.le_refl a, hab⟩).1
          have := h.lt hoa
          omega
        have hwithin : Within pairs (a + 1) b := by
          intro o c hoc
          have hne : ∀ {kind : Token → Prop}, ¬ kind t → ∀ {n}, StandsAt kind tokens n → n ≠ a := by
            rintro kind hk n hn rfl
            exact hk ((standsAt_iff_of_getElem? ht).1 hn)
          have := hne ho (h.opens hoc)
          have := hne hc (h.closes hoc)
          have := hw o c hoc
          omega
        have hrest := ih (b - (a + 1)) (by omega) (a + 1) b rfl hwithin
        exact (Balanced.plain ho hc).append hrest

/-- A pair of a pairing encloses balanced tokens. -/
theorem Pairing.matches (h : Pairing tokens pairs) {o c : Nat} (hoc : pairs o c) :
    Matches tokens o c :=
  ⟨h.lt hoc, h.opens hoc, h.closes hoc, h.balanced_stretch _ _ _ rfl (h.within_body hoc)⟩

/-- **A token list has at most one pairing.** -/
theorem Pairing.iff_matches (h : Pairing tokens pairs) (o c : Nat) :
    pairs o c ↔ Matches tokens o c := by
  constructor
  · exact h.matches
  · -- the loop beginning is paired, and it has one partner
    intro hm
    obtain ⟨c', hoc'⟩ := h.covers_opens hm.opens
    rwa [hm.right_unique (h.matches hoc')]

/-! ## The pairing of a decoded program -/

/-- The jump table leads from a loop beginning to a position. -/
def LoopPair (tokens : List Token) (p : Program) (o c : Nat) : Prop :=
  OpensAt tokens o ∧ p.jumps[(o : Int)]? = some (c : Int)

/-- The beginnings of the pairs that strictly enclose the pair of `o` and `c`. -/
def enclosing (p : Program) (o c : Nat) : List Nat :=
  (List.range o).filter fun n => p.jumps[(n : Int)]?.any fun v => decide ((c : Int) < v)

/-- The jump table and the labels of a program are the pairing of the brackets of some tokens. -/
structure Paired (tokens : List Token) (p : Program) : Prop where
  /-- The keys are the positions of the brackets. -/
  keys : ∀ k : Int, k ∈ p.jumps ↔ ∃ n : Nat, k = n ∧ (OpensAt tokens n ∨ ClosesAt tokens n)
  /-- The partner of a partner is the bracket itself. -/
  involutive : ∀ k v : Int, p.jumps[k]? = some v → p.jumps[v]? = some k
  /-- Loop beginnings are paired with loop ends, and pairs do not cross. -/
  pairing : Pairing tokens (LoopPair tokens p)
  /-- The tokens of a loop body are balanced. -/
  bodies : ∀ o c, LoopPair tokens p o c → Balanced ((tokens.take c).drop (o + 1))
  /-- The index of an instruction is its place. -/
  index : ∀ (n : Nat) (i : Instruction), p.instructions[n]? = some i → i.index = n
  /-- The partner of an instruction is the one in the table. -/
  partner : ∀ (n : Nat) (i : Instruction), p.instructions[n]? = some i →
    i.partner = p.jumps[(n : Int)]?
  /-- An instruction that is no bracket has no partner and no depth. -/
  plain : ∀ (n : Nat) (i : Instruction), p.instructions[n]? = some i → i.op.isBracket = false →
    i.partner = none ∧ i.depth = 0
  /-- The depth of both brackets of a pair is the number of pairs around it. -/
  depth : ∀ (o c : Nat) (i j : Instruction), LoopPair tokens p o c →
    p.instructions[o]? = some i → p.instructions[c]? = some j →
      i.depth = (p.enclosing o c).length ∧ j.depth = (p.enclosing o c).length

variable {p : Program}

theorem Decodes.loopPair_iff (h : Decodes tokens p) (o c : Nat) :
    LoopPair tokens p o c ↔ Matches tokens o c := by
  rw [LoopPair, h.partners]
  constructor
  · rintro ⟨ho, o', c', hm, ⟨hk, hv⟩ | ⟨hk, -⟩⟩
    · rw [Int.natCast_inj] at hk hv
      rwa [hk, hv]
    · rw [Int.natCast_inj] at hk
      exact absurd (hk ▸ hm.closes) (opensAt_not_closesAt ho)
  · intro hm
    exact ⟨hm.opens, o, c, hm, Or.inl ⟨rfl, rfl⟩⟩

/-- The pairs of a decoded program are a pairing. -/
theorem Decodes.pairing (h : Decodes tokens p) : Pairing tokens (LoopPair tokens p) := by
  have hiff := h.loopPair_iff
  constructor
  case lt => exact fun hp => ((hiff _ _).1 hp).lt
  case opens => exact fun hp => hp.1
  case closes => exact fun hp => ((hiff _ _).1 hp).closes
  case right_unique => exact fun hp hp' => ((hiff _ _).1 hp).right_unique ((hiff _ _).1 hp')
  case left_unique => exact fun hp hp' => ((hiff _ _).1 hp).left_unique ((hiff _ _).1 hp')
  case covers_opens =>
    intro n hn
    obtain ⟨o, c, hm, rfl | rfl⟩ := h.balanced.paired (Or.inl hn)
    · exact ⟨c, (hiff _ _).2 hm⟩
    · exact absurd hm.closes (opensAt_not_closesAt hn)
  case covers_closes =>
    intro n hn
    obtain ⟨o, c, hm, rfl | rfl⟩ := h.balanced.paired (Or.inr hn)
    · exact absurd hn (opensAt_not_closesAt hm.opens)
    · exact ⟨o, (hiff _ _).2 hm⟩
  case nested => exact fun hp hp' => ((hiff _ _).1 hp).nested ((hiff _ _).1 hp')

theorem Decodes.mem_jumps_iff (h : Decodes tokens p) (k : Int) :
    k ∈ p.jumps ↔ ∃ n : Nat, k = n ∧ (OpensAt tokens n ∨ ClosesAt tokens n) := by
  rw [Std.TreeMap.mem_iff_isSome_getElem?, Option.isSome_iff_exists]
  simp only [h.partners]
  constructor
  · rintro ⟨v, o, c, hm, ⟨rfl, -⟩ | ⟨rfl, -⟩⟩
    · exact ⟨o, rfl, Or.inl hm.opens⟩
    · exact ⟨c, rfl, Or.inr hm.closes⟩
  · rintro ⟨n, rfl, hn⟩
    obtain ⟨o, c, hm, rfl | rfl⟩ := h.balanced.paired hn
    · exact ⟨c, n, c, hm, Or.inl ⟨rfl, rfl⟩⟩
    · exact ⟨o, o, n, hm, Or.inr ⟨rfl, rfl⟩⟩

/-- A position before a pair begins a pair around it exactly when its loop is open there. -/
theorem Decodes.mem_enclosing_iff (h : Decodes tokens p) {o c : Nat} (hm : Matches tokens o c)
    (n : Nat) : n ∈ p.enclosing o c ↔ n < o ∧ ∃ c', Matches tokens n c' ∧ o ≤ c' := by
  simp only [enclosing, List.mem_filter, List.mem_range, Option.any_eq_true, decide_eq_true_eq,
    h.partners]
  apply and_congr_right
  intro hlt
  constructor
  · rintro ⟨v, ⟨o', c', hm', ⟨hn, rfl⟩ | ⟨hn, rfl⟩⟩, hv⟩
    · rw [Int.natCast_inj] at hn
      have := hm.lt
      exact ⟨c', hn ▸ hm', by omega⟩
    · have := hm'.lt
      have := hm.lt
      omega
  · rintro ⟨c', hm', hoc'⟩
    refine ⟨c', ⟨n, c', hm', Or.inl ⟨rfl, rfl⟩⟩, ?_⟩
    -- the outer loop does not end at `o`, hence the pair of `o` lies inside it
    rcases Nat.lt_or_eq_of_le hoc' with hgt | rfl
    · have := hm'.nested hm hlt hgt
      omega
    · exact absurd hm'.closes (opensAt_not_closesAt hm.opens)

/-- The level of a loop beginning is the number of pairs around its own. -/
theorem Decodes.level_eq (h : Decodes tokens p) {o c : Nat} (hm : Matches tokens o c) :
    level tokens o = (p.enclosing o c).length := by
  obtain ⟨us, hus⟩ := Matching.exists_unfinished_take h.balanced o
  have hascending : (p.enclosing o c).Pairwise (· < ·) :=
    List.Pairwise.filter _ List.pairwise_lt_range
  have hrev : us = (p.enclosing o c).reverse := by
    apply eq_of_descending hus.descending (List.pairwise_reverse.2 hascending)
    intro n
    rw [List.mem_reverse, hus.mem_take_iff h.balanced, h.mem_enclosing_iff hm]
  rw [level, hus.height_eq, hrev, List.length_reverse]

theorem Decodes.depth_eq (h : Decodes tokens p) {o c : Nat} (hm : Matches tokens o c)
    {i j : Instruction} (hi : p.instructions[o]? = some i) (hj : p.instructions[c]? = some j) :
    i.depth = (p.enclosing o c).length ∧ j.depth = (p.enclosing o c).length := by
  obtain ⟨d, hd, hdi⟩ := h.depthAt hi
  obtain ⟨e, he, hej⟩ := h.depthAt hj
  rw [hdi, hej, hd.opens hm.opens, he.closes hm.closes, hm.level_succ_right, h.level_eq hm]
  exact ⟨rfl, rfl⟩

/-- An instruction that is no bracket has no partner and no depth. -/
theorem Decodes.plain (h : Decodes tokens p) {n : Nat} {i : Instruction}
    (hi : p.instructions[n]? = some i) (hop : i.op.isBracket = false) :
    i.partner = none ∧ i.depth = 0 := by
  obtain ⟨ho, hc⟩ := h.not_bracket hi hop
  obtain ⟨d, hd, hdepth⟩ := h.depthAt hi
  have hnone : p.jumps[(n : Int)]? = none := by
    rw [Option.eq_none_iff_forall_ne_some]
    intro v hv
    obtain ⟨o, c, hm, ⟨hn, -⟩ | ⟨hn, -⟩⟩ := (h.partners n v).1 hv
    · rw [Int.natCast_inj] at hn
      exact ho (hn ▸ hm.opens)
    · rw [Int.natCast_inj] at hn
      exact hc (hn ▸ hm.closes)
  rw [h.partner_eq hi, hnone, hdepth, hd.plain ho hc]
  exact ⟨rfl, rfl⟩

/-- **The jump table of a decoded program is the one pairing of its brackets**, and the instructions
are labelled with it. -/
theorem decode_pairs_brackets {source : Option String}
    (h : (decode tokens source).outcome = .ok p) :
    Paired tokens p ∧
      ∀ pairs : Nat → Nat → Prop, Pairing tokens pairs → pairs = LoopPair tokens p := by
  have hp := decodes_of_decode h
  constructor
  · constructor
    case keys => exact hp.mem_jumps_iff
    case involutive =>
      intro k v hv
      exact (hp.partners v k).2 ((hp.partners k v).1 hv).symm
    case pairing => exact hp.pairing
    case bodies => exact fun o c hoc => ((hp.loopPair_iff o c).1 hoc).balanced
    case index => exact fun n i hi => hp.index_eq hi
    case partner => exact fun n i hi => hp.partner_eq hi
    case plain => exact fun n i hi hop => hp.plain hi hop
    case depth => exact fun o c i j hoc hi hj => hp.depth_eq ((hp.loopPair_iff o c).1 hoc) hi hj
  · intro pairs hpairs
    funext o c
    rw [eq_iff_iff, hpairs.iff_matches, hp.loopPair_iff]

/-- A loop in a loop and a sibling. -/
theorem decode_pairs_brackets_siblings : ∃ p, (decode (Token.ofText "[[]][]")).outcome = .ok p ∧
    p.jumpList = [(0, 3), (1, 2), (2, 1), (3, 0), (4, 5), (5, 4)] ∧
    Paired (Token.ofText "[[]][]") p ∧ ∀ pairs : Nat → Nat → Prop,
      Pairing (Token.ofText "[[]][]") pairs → pairs = LoopPair (Token.ofText "[[]][]") p := by
  have hdecoded : ∃ p, (decode (Token.ofText "[[]][]")).outcome = .ok p ∧
      p.jumpList = [(0, 3), (1, 2), (2, 1), (3, 0), (4, 5), (5, 4)] := ⟨_, rfl, by decide⟩
  obtain ⟨p, hp, hjumps⟩ := hdecoded
  exact ⟨p, hp, hjumps, decode_pairs_brackets hp⟩

end TapeLanguage.Program
