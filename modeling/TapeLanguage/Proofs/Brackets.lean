import TapeLanguage.Program.Decode

/-!
# Balanced brackets

The loop structure of a token list, told without a stack. A list is `Balanced` when it is built from
tokens that are no brackets by concatenation and by enclosing in a bracket pair; a loop beginning
`Matches` a later loop end when the tokens strictly between them are balanced.

The `level` of a position is the number of loop beginnings before it less the number of loop ends.
It is zero at the end of a balanced list and never negative inside (`Balanced.level_nonneg`), and
inside a matching pair it stays above the level of the pair (`Matches.level_lt`). Hence a bracket
has at most one partner (`Matches.right_unique`, `Matches.left_unique`) and pairs do not cross
(`Matches.nested`).

A balanced list that is not empty begins with a token that is no bracket or with a loop
(`Balanced.cut`), and the pairs of two balanced lists are all the pairs of their concatenation
(`matches_append_iff`).
-/

set_option autoImplicit false

namespace TapeLanguage

namespace Token

/-- The token begins a loop. -/
def Opens (t : Token) : Prop :=
  t.text = "["

/-- The token ends a loop. -/
def Closes (t : Token) : Prop :=
  t.text = "]"

/-- What a token adds to the number of open loops. -/
def weight (t : Token) : Int :=
  if t.text = "[" then 1 else if t.text = "]" then -1 else 0

theorem Opens.not_closes {t : Token} (h : t.Opens) : ¬ t.Closes := by
  intro h'
  rw [Opens] at h
  rw [Closes, h] at h'
  exact absurd h' (by decide)

theorem weight_of_opens {t : Token} (h : t.Opens) : t.weight = 1 :=
  if_pos h

theorem weight_of_closes {t : Token} (h : t.Closes) : t.weight = -1 := by
  have hopen : ¬ t.text = "[" := fun h' => Opens.not_closes h' h
  exact (if_neg hopen).trans (if_pos h)

theorem weight_of_plain {t : Token} (ho : ¬ t.Opens) (hc : ¬ t.Closes) : t.weight = 0 :=
  (if_neg ho).trans (if_neg hc)

end Token

namespace Brackets

/-! ## Balanced lists -/

/-- The brackets of a token list pair off. -/
inductive Balanced : List Token → Prop
  | nil : Balanced []
  | plain {t : Token} : ¬ t.Opens → ¬ t.Closes → Balanced [t]
  | append {a b : List Token} : Balanced a → Balanced b → Balanced (a ++ b)
  | enclose {s e : Token} {body : List Token} :
      s.Opens → e.Closes → Balanced body → Balanced (s :: (body ++ [e]))

/-- Balanced tokens that are not none begin with one that is no bracket, or with a loop. -/
theorem Balanced.cut {tokens : List Token} (h : Balanced tokens) : tokens = [] ∨
    (∃ t rest, tokens = t :: rest ∧ ¬ t.Opens ∧ ¬ t.Closes ∧ Balanced rest) ∨
      ∃ s body e rest, tokens = s :: (body ++ e :: rest) ∧ s.Opens ∧ e.Closes ∧ Balanced body ∧
        Balanced rest := by
  induction h with
  | nil => exact Or.inl rfl
  | plain ho hc => exact Or.inr (Or.inl ⟨_, [], rfl, ho, hc, .nil⟩)
  | @append a b _ hb iha ihb =>
    -- the first part has the cut, unless there is nothing in it
    rcases iha with rfl | ⟨t, rest, rfl, ho, hc, hrest⟩ |
      ⟨s, body, e, rest, rfl, hs, he, hbody, hrest⟩
    · exact ihb
    · exact Or.inr (Or.inl ⟨t, rest ++ b, rfl, ho, hc, hrest.append hb⟩)
    · refine Or.inr (Or.inr ⟨s, body, e, rest ++ b, ?_, hs, he, hbody, hrest.append hb⟩)
      rw [List.cons_append, List.append_assoc, List.cons_append]
  | enclose hs he hbody => exact Or.inr (Or.inr ⟨_, _, _, [], rfl, hs, he, hbody, .nil⟩)

/-- The number of loop beginnings less the number of loop ends. -/
def height : List Token → Int
  | [] => 0
  | t :: ts => t.weight + height ts

@[simp] theorem height_nil : height [] = 0 := rfl

@[simp] theorem height_cons (t : Token) (ts : List Token) :
    height (t :: ts) = t.weight + height ts := rfl

@[simp] theorem height_append (a b : List Token) : height (a ++ b) = height a + height b := by
  induction a with
  | nil => simp
  | cons t a ih => rw [List.cons_append, height_cons, height_cons, ih, Int.add_assoc]

theorem Balanced.height_eq_zero {w : List Token} (h : Balanced w) : height w = 0 := by
  induction h with
  | nil => rfl
  | plain ho hc => simp [Token.weight_of_plain ho hc]
  | append _ _ iha ihb => rw [height_append, iha, ihb, Int.add_zero]
  | enclose hs he _ ih =>
    simp [Token.weight_of_opens hs, Token.weight_of_closes he, ih]

/-! ## Levels -/

/-- The number of loop beginnings before a position less the number of loop ends. -/
def level (tokens : List Token) (n : Nat) : Int :=
  height (tokens.take n)

/-- A token of a kind stands at a position. -/
def StandsAt (kind : Token → Prop) (tokens : List Token) (n : Nat) : Prop :=
  ∃ t, tokens[n]? = some t ∧ kind t

/-- A loop beginning stands at a position. -/
abbrev OpensAt : List Token → Nat → Prop :=
  StandsAt Token.Opens

/-- A loop end stands at a position. -/
abbrev ClosesAt : List Token → Nat → Prop :=
  StandsAt Token.Closes

theorem StandsAt.lt_length {kind : Token → Prop} {tokens : List Token} {n : Nat}
    (h : StandsAt kind tokens n) : n < tokens.length := by
  obtain ⟨t, ht, -⟩ := h
  exact (List.getElem?_eq_some_iff.1 ht).1

theorem standsAt_append_left (kind : Token → Prop) (a b : List Token) {n : Nat}
    (h : n < a.length) : StandsAt kind (a ++ b) n ↔ StandsAt kind a n := by
  rw [StandsAt, StandsAt, List.getElem?_append_left h]

theorem standsAt_append_right (kind : Token → Prop) (a b : List Token) (n : Nat) :
    StandsAt kind (a ++ b) (a.length + n) ↔ StandsAt kind b n := by
  rw [StandsAt, StandsAt, List.getElem?_append_right (Nat.le_add_right _ _),
    Nat.add_sub_cancel_left]

theorem standsAt_take (kind : Token → Prop) (tokens : List Token) {n k : Nat} (h : n < k) :
    StandsAt kind (tokens.take k) n ↔ StandsAt kind tokens n := by
  rw [StandsAt, StandsAt, List.getElem?_take_of_lt h]

theorem standsAt_iff_of_getElem? {kind : Token → Prop} {tokens : List Token} {n : Nat} {t : Token}
    (h : tokens[n]? = some t) : StandsAt kind tokens n ↔ kind t := by
  simp [StandsAt, h]

theorem opensAt_not_closesAt {tokens : List Token} {n : Nat} (h : OpensAt tokens n) :
    ¬ ClosesAt tokens n := by
  obtain ⟨t, ht, ho⟩ := h
  exact fun hc => ho.not_closes ((standsAt_iff_of_getElem? ht).1 hc)

@[simp] theorem level_zero (tokens : List Token) : level tokens 0 = 0 := by
  simp [level]

theorem level_succ {tokens : List Token} {n : Nat} {t : Token} (h : tokens[n]? = some t) :
    level tokens (n + 1) = level tokens n + t.weight := by
  rw [level, level, List.take_add_one, h]
  simp

theorem level_length (tokens : List Token) : level tokens tokens.length = height tokens := by
  rw [level, List.take_length]

theorem level_append_left (a b : List Token) {n : Nat} (h : n ≤ a.length) :
    level (a ++ b) n = level a n := by
  rw [level, level, List.take_append_of_le_length h]

theorem level_append_right (a b : List Token) (n : Nat) :
    level (a ++ b) (a.length + n) = height a + level b n := by
  rw [level, level, List.take_length_add_append, height_append]

theorem level_succ_of_opensAt {tokens : List Token} {n : Nat} (h : OpensAt tokens n) :
    level tokens (n + 1) = level tokens n + 1 := by
  obtain ⟨t, ht, ho⟩ := h
  rw [level_succ ht, Token.weight_of_opens ho]

theorem level_succ_of_closesAt {tokens : List Token} {n : Nat} (h : ClosesAt tokens n) :
    level tokens (n + 1) = level tokens n - 1 := by
  obtain ⟨t, ht, hc⟩ := h
  rw [level_succ ht, Token.weight_of_closes hc]
  rfl

/-- Inside a balanced list no prefix has more loop ends than loop beginnings. -/
theorem Balanced.level_nonneg {w : List Token} (h : Balanced w) (n : Nat) : 0 ≤ level w n := by
  induction h generalizing n with
  | nil => simp [level]
  | plain ho hc =>
    cases n with
    | zero => simp
    | succ n => simp [level, Token.weight_of_plain ho hc]
  | @append a b ha _ iha ihb =>
    rcases Nat.le_total n a.length with hn | hn
    · rw [level_append_left a b hn]
      exact iha n
    · -- the first part leaves the level as it was
      obtain ⟨k, rfl⟩ := Nat.exists_eq_add_of_le hn
      rw [level_append_right, ha.height_eq_zero, Int.zero_add]
      exact ihb k
  | @enclose s e body hs he hbody ih =>
    cases n with
    | zero => simp
    | succ n =>
      have hlevel : level (s :: (body ++ [e])) (n + 1) = 1 + level (body ++ [e]) n := by
        simp [level, Token.weight_of_opens hs]
      rw [hlevel]
      -- one loop is open throughout the body
      rcases Nat.le_total n body.length with hn | hn
      · rw [level_append_left body [e] hn]
        have := ih n
        omega
      · obtain ⟨k, rfl⟩ := Nat.exists_eq_add_of_le hn
        rw [level_append_right, hbody.height_eq_zero]
        -- past the body at most the loop end is left
        cases k with
        | zero => simp
        | succ k => simp [level, Token.weight_of_closes he]

/-! ## Stretches -/

/-- A stretch of a list, cut at a position inside. -/
theorem drop_take_split {α : Type} (l : List α) {a m b : Nat} (ham : a ≤ m) (hmb : m ≤ b) :
    (l.take b).drop a = (l.take m).drop a ++ (l.take b).drop m := by
  obtain ⟨i, rfl⟩ := Nat.exists_eq_add_of_le ham
  obtain ⟨j, rfl⟩ := Nat.exists_eq_add_of_le hmb
  rw [List.drop_take, List.drop_take, List.drop_take]
  have hlong : a + i + j - a = i + j := by omega
  have hfirst : a + i - a = i := by omega
  have hsecond : a + i + j - (a + i) = j := by omega
  rw [hlong, hfirst, hsecond, List.take_add, List.drop_drop]

/-- A stretch begins with the token at its first position. -/
theorem drop_take_cons {α : Type} {l : List α} {a b : Nat} {x : α} (hx : l[a]? = some x)
    (hab : a < b) : (l.take b).drop a = x :: (l.take b).drop (a + 1) := by
  have hone : (l.take (a + 1)).drop a = [x] := by
    obtain ⟨hlt, -⟩ := List.getElem?_eq_some_iff.1 hx
    rw [List.take_add_one, hx, List.drop_append_of_le_length (by simp; omega)]
    simp
  rw [drop_take_split l (Nat.le_succ a) hab, hone]
  rfl

/-! ## Matching pairs -/

/-- The loop that begins at `o` ends at `c`: the tokens strictly between are balanced. -/
structure Matches (tokens : List Token) (o c : Nat) : Prop where
  /-- The beginning comes first. -/
  lt : o < c
  /-- A loop begins at `o`. -/
  opens : OpensAt tokens o
  /-- A loop ends at `c`. -/
  closes : ClosesAt tokens c
  /-- The body is balanced. -/
  balanced : Balanced ((tokens.take c).drop (o + 1))

/-- The prefix up to a position, cut at an earlier position. -/
theorem level_add (tokens : List Token) (n k : Nat) :
    level tokens (n + k) = level tokens n + level (tokens.drop n) k := by
  rw [level, level, level, List.take_add, height_append]

/-- The levels after a loop beginning are one up from those of the tokens that follow. -/
theorem level_after_opens {tokens : List Token} {o k : Nat} (h : OpensAt tokens o) :
    level tokens (o + 1 + k) = level tokens o + 1 + level (tokens.drop (o + 1)) k := by
  rw [level_add, level_succ_of_opensAt h]

/-- **Inside a pair the level is above that of the pair.** -/
theorem Matches.level_lt {tokens : List Token} {o c k : Nat} (h : Matches tokens o c)
    (hok : o < k) (hkc : k ≤ c) : level tokens o < level tokens k := by
  obtain ⟨j, rfl⟩ := Nat.exists_eq_add_of_le (Nat.succ_le_of_lt hok)
  have hbody : level (tokens.drop (o + 1)) j = level ((tokens.take c).drop (o + 1)) j := by
    rw [level, level, List.drop_take, List.take_take, Nat.min_eq_left (by omega)]
  have hnonneg := h.balanced.level_nonneg j
  rw [Nat.succ_eq_add_one, level_after_opens h.opens, hbody]
  omega

/-- After a pair the level is that of the pair again. -/
theorem Matches.level_succ_right {tokens : List Token} {o c : Nat} (h : Matches tokens o c) :
    level tokens (c + 1) = level tokens o := by
  obtain ⟨j, hj⟩ := Nat.exists_eq_add_of_le (Nat.succ_le_of_lt h.lt)
  have hbody : level (tokens.drop (o + 1)) j = 0 := by
    have hzero := h.balanced.height_eq_zero
    rw [List.drop_take] at hzero
    rw [level, ← hzero]
    congr 2
    omega
  rw [level_succ_of_closesAt h.closes, hj, Nat.succ_eq_add_one, level_after_opens h.opens, hbody]
  omega

/-- A loop beginning has at most one partner. -/
theorem Matches.right_unique {tokens : List Token} {o c c' : Nat} (h : Matches tokens o c)
    (h' : Matches tokens o c') : c = c' := by
  -- behind the earlier end the level is down again, which it is not inside the longer pair
  rcases Nat.lt_trichotomy c c' with hlt | heq | hgt
  · have := h'.level_lt (k := c + 1) (by have := h.lt; omega) hlt
    rw [h.level_succ_right] at this
    exact absurd this (Int.lt_irrefl _)
  · exact heq
  · have := h.level_lt (k := c' + 1) (by have := h'.lt; omega) hgt
    rw [h'.level_succ_right] at this
    exact absurd this (Int.lt_irrefl _)

/-- A loop end has at most one partner. -/
theorem Matches.left_unique {tokens : List Token} {o o' c : Nat} (h : Matches tokens o c)
    (h' : Matches tokens o' c) : o = o' := by
  -- both beginnings are at the level behind the end
  have heq : level tokens o = level tokens o' :=
    h.level_succ_right.symm.trans h'.level_succ_right
  rcases Nat.lt_trichotomy o o' with hlt | rfl | hgt
  · have := h.level_lt hlt (Nat.le_of_lt h'.lt)
    omega
  · rfl
  · have := h'.level_lt hgt (Nat.le_of_lt h.lt)
    omega

/-- **Pairs do not cross.** -/
theorem Matches.nested {tokens : List Token} {o c o' c' : Nat} (h : Matches tokens o c)
    (h' : Matches tokens o' c') (ho : o < o') (hc : o' < c) : c' < c := by
  have habove : level tokens o < level tokens o' := h.level_lt ho (Nat.le_of_lt hc)
  rcases Nat.lt_trichotomy c' c with hlt | rfl | hgt
  · exact hlt
  · have := h.left_unique h'
    omega
  · -- the end of the outer pair would lie inside the inner one, below its level
    have := h'.level_lt (k := c + 1) (by omega) hgt
    rw [h.level_succ_right] at this
    omega

/-! ## Pairs of a part -/

/-- A pair of a part is a pair of the whole. -/
theorem Matches.append_right {a : List Token} {o c : Nat} (h : Matches a o c) (b : List Token) :
    Matches (a ++ b) o c := by
  have hc := h.closes.lt_length
  refine ⟨h.lt, (standsAt_append_left _ a b (Nat.lt_trans h.lt hc)).2 h.opens,
    (standsAt_append_left _ a b hc).2 h.closes, ?_⟩
  rw [List.take_append_of_le_length (Nat.le_of_lt hc)]
  exact h.balanced

/-- A pair of the whole that ends in a first part is a pair of that part. -/
theorem Matches.of_append {a b : List Token} {o c : Nat} (h : Matches (a ++ b) o c)
    (hc : c < a.length) : Matches a o c := by
  refine ⟨h.lt, (standsAt_append_left _ a b (Nat.lt_trans h.lt hc)).1 h.opens,
    (standsAt_append_left _ a b hc).1 h.closes, ?_⟩
  have hbody := h.balanced
  rwa [List.take_append_of_le_length (Nat.le_of_lt hc)] at hbody

/-- A pair of a later part is a pair of the whole, moved by the tokens before. -/
theorem Matches.append_left {b : List Token} {o c : Nat} (h : Matches b o c) (a : List Token) :
    Matches (a ++ b) (a.length + o) (a.length + c) := by
  refine ⟨Nat.add_lt_add_left h.lt _, (standsAt_append_right _ a b o).2 h.opens,
    (standsAt_append_right _ a b c).2 h.closes, ?_⟩
  rw [List.take_length_add_append, Nat.add_assoc, List.drop_length_add_append]
  exact h.balanced

/-- A balanced body between two brackets makes them a pair. -/
theorem matches_of_enclosed {a body b : List Token} {s e : Token} (hs : s.Opens) (he : e.Closes)
    (hbody : Balanced body) :
    Matches (a ++ s :: (body ++ e :: b)) a.length (a.length + (body.length + 1)) := by
  have hpair : Matches (s :: (body ++ e :: b)) 0 (body.length + 1) := by
    refine ⟨Nat.succ_pos _, ⟨s, rfl, hs⟩, ⟨e, by simp, he⟩, ?_⟩
    simpa using hbody
  exact hpair.append_left a

/-- The two brackets of a pair, the tokens between and those around. -/
theorem Matches.enclosed {tokens : List Token} {o c : Nat} (h : Matches tokens o c) :
    ∃ s e, s.Opens ∧ e.Closes ∧
      tokens.take (c + 1) = tokens.take o ++ s :: ((tokens.take c).drop (o + 1) ++ [e]) := by
  obtain ⟨s, hs, hopen⟩ := h.opens
  obtain ⟨e, he, hclose⟩ := h.closes
  refine ⟨s, e, hopen, hclose, ?_⟩
  have hlast : (tokens.take (c + 1)).drop c = [e] := by
    rw [drop_take_cons he (Nat.lt_succ_self c), List.drop_take, Nat.sub_self, List.take_zero]
  calc tokens.take (c + 1)
      = (tokens.take (c + 1)).drop 0 := rfl
    _ = (tokens.take o).drop 0 ++ (tokens.take (c + 1)).drop o :=
      drop_take_split tokens (Nat.zero_le o) (Nat.le_succ_of_le (Nat.le_of_lt h.lt))
    _ = tokens.take o ++ s :: (tokens.take (c + 1)).drop (o + 1) := by
      rw [drop_take_cons hs (Nat.lt_succ_of_lt h.lt)]
      rfl
    _ = tokens.take o ++ s :: ((tokens.take c).drop (o + 1) ++ [e]) := by
      rw [drop_take_split tokens h.lt (Nat.le_succ c), hlast]

/-- A pair with everything between is balanced. -/
theorem Matches.balanced_pair {tokens : List Token} {o c : Nat} (h : Matches tokens o c) :
    ∃ w, Balanced w ∧ tokens.take (c + 1) = tokens.take o ++ w := by
  obtain ⟨s, e, hs, he, hsplit⟩ := h.enclosed
  exact ⟨_, .enclose hs he h.balanced, hsplit⟩

/-- **Every bracket of a balanced list belongs to a pair.** -/
theorem Balanced.paired {w : List Token} (h : Balanced w) {n : Nat}
    (hn : OpensAt w n ∨ ClosesAt w n) : ∃ o c, Matches w o c ∧ (n = o ∨ n = c) := by
  induction h generalizing n with
  | nil =>
    rcases hn with hn | hn <;> exact absurd hn.lt_length (Nat.not_lt_zero n)
  | @plain t ho hc =>
    have hzero : n = 0 := by
      rcases hn with hn | hn <;> exact Nat.lt_one_iff.1 hn.lt_length
    subst hzero
    rcases hn with ⟨t', ht, hn⟩ | ⟨t', ht, hn⟩
    · cases ht
      exact absurd hn ho
    · cases ht
      exact absurd hn hc
  | @append a b _ _ iha ihb =>
    rcases Nat.lt_or_ge n a.length with hlt | hge
    · rw [OpensAt, ClosesAt, standsAt_append_left _ a b hlt, standsAt_append_left _ a b hlt] at hn
      obtain ⟨o, c, hm, hoc⟩ := iha hn
      exact ⟨o, c, hm.append_right b, hoc⟩
    · obtain ⟨k, rfl⟩ := Nat.exists_eq_add_of_le hge
      rw [OpensAt, ClosesAt, standsAt_append_right, standsAt_append_right] at hn
      obtain ⟨o, c, hm, hoc⟩ := ihb hn
      exact ⟨_, _, hm.append_left a, by omega⟩
  | @enclose s e body hs he hbody ih =>
    have hpair : Matches ([] ++ s :: (body ++ [e])) 0 (0 + (body.length + 1)) :=
      matches_of_enclosed hs he hbody
    have hlen : n < body.length + 2 := by
      have hlength : (s :: (body ++ [e])).length = body.length + 2 := by
        rw [List.length_cons, List.length_append, List.length_singleton]
      rw [← hlength]
      exact hn.elim StandsAt.lt_length StandsAt.lt_length
    rcases Nat.eq_zero_or_pos n with rfl | hpos
    · -- the bracket is the beginning of the pair
      exact ⟨_, _, hpair, Or.inl rfl⟩
    · obtain ⟨k, rfl⟩ := Nat.exists_eq_add_of_lt hpos
      rcases Nat.lt_or_ge k body.length with hlt | hge
      · -- a bracket of the body keeps its partner
        have hmove : ∀ kind, StandsAt kind (s :: (body ++ [e])) (0 + k + 1) →
            StandsAt kind body k := by
          intro kind hk
          have hk' : StandsAt kind (body ++ [e]) k := by simpa [StandsAt] using hk
          exact (standsAt_append_left _ body [e] hlt).1 hk'
        obtain ⟨o, c, hm, hoc⟩ := ih (hn.imp (hmove _) (hmove _))
        refine ⟨_, _, (hm.append_right [e]).append_left [s], ?_⟩
        rw [List.length_singleton]
        omega
      · -- the bracket is its end
        exact ⟨_, _, hpair, by omega⟩

/-- The pairs of two balanced parts are all pairs of the whole. -/
theorem matches_append_iff {a b : List Token} (ha : Balanced a) (hb : Balanced b) (o c : Nat) :
    Matches (a ++ b) o c ↔
      Matches a o c ∨ ∃ o' c', Matches b o' c' ∧ o = a.length + o' ∧ c = a.length + c' := by
  constructor
  · intro h
    rcases Nat.lt_or_ge o a.length with hlt | hge
    · -- the beginning has its partner in the first part, and no other
      have hopen : OpensAt a o := (standsAt_append_left _ a b hlt).1 h.opens
      obtain ⟨o', c', hm, rfl | rfl⟩ := ha.paired (Or.inl hopen)
      · rw [h.right_unique (hm.append_right b)]
        exact Or.inl hm
      · exact absurd hm.closes (opensAt_not_closesAt hopen)
    · obtain ⟨k, rfl⟩ := Nat.exists_eq_add_of_le hge
      have hopen : OpensAt b k := (standsAt_append_right _ a b k).1 h.opens
      obtain ⟨o', c', hm, rfl | rfl⟩ := hb.paired (Or.inl hopen)
      · exact Or.inr ⟨k, c', hm, rfl, h.right_unique (hm.append_left a)⟩
      · exact absurd hm.closes (opensAt_not_closesAt hopen)
  · rintro (h | ⟨o', c', h, rfl, rfl⟩)
    · exact h.append_right b
    · exact h.append_left a

end Brackets

end TapeLanguage
