import TapeLanguage.Proofs.Brackets

/-!
# Open loops

The loops of a token list that are still open at its end. `Unfinished w us` builds the list `w` from
balanced parts with a loop beginning before each but the first, and `us` are the positions of these
beginnings, innermost first. They are exactly the loop beginnings without a partner
(`Unfinished.mem_iff`), so the list determines them (`Unfinished.unique`). Reading one more token
pushes a position, pops one or leaves them alone (`Unfinished.opens`, `Unfinished.closes`,
`Unfinished.plain`), and reading a balanced part leaves them alone (`Unfinished.append`).

A loop end is a `StrayEnd` when the tokens before it are balanced. A list with a stray loop end is
not unfinished (`Unfinished.not_strayEnd`), and it has no other (`StrayEnd.unique`).
-/

set_option autoImplicit false

namespace TapeLanguage.Brackets

/-- The list is made of balanced parts with a loop beginning before each but the first; the
positions of these beginnings, innermost first. -/
inductive Unfinished : List Token → List Nat → Prop
  | flat {w : List Token} : Balanced w → Unfinished w []
  | under {w v : List Token} {us : List Nat} {t : Token} :
      Unfinished w us → t.Opens → Balanced v → Unfinished (w ++ t :: v) (w.length :: us)

/-- A loop begins that has no end. -/
def Unended (tokens : List Token) (o : Nat) : Prop :=
  OpensAt tokens o ∧ ∀ c, ¬ Matches tokens o c

/-- A loop ends where all brackets before it are balanced. -/
def StrayEnd (tokens : List Token) (n : Nat) : Prop :=
  ClosesAt tokens n ∧ Balanced (tokens.take n)

/-! ## Reading on -/

/-- Balanced tokens leave the open loops as they are. -/
theorem Unfinished.append {w v : List Token} {us : List Nat} (h : Unfinished w us)
    (hv : Balanced v) : Unfinished (w ++ v) us := by
  cases h with
  | flat hw => exact .flat (hw.append hv)
  | under hw ht hlast =>
    rw [List.append_assoc, List.cons_append]
    exact .under hw ht (hlast.append hv)

/-- The loops that stay open behind a balanced part are those that stay open without it. -/
theorem Unfinished.append_left {a b : List Token} {us : List Nat} (ha : Balanced a)
    (h : Unfinished b us) :
    Unfinished (a ++ b) (us.map (a.length + ·)) := by
  induction h with
  | flat hw => exact .flat (ha.append hw)
  | under hw ht hv ih =>
    rw [← List.append_assoc, List.map_cons, ← List.length_append]
    exact .under ih ht hv

theorem Unfinished.plain {w : List Token} {us : List Nat} {t : Token} (h : Unfinished w us)
    (ho : ¬ t.Opens) (hc : ¬ t.Closes) : Unfinished (w ++ [t]) us :=
  h.append (.plain ho hc)

theorem Unfinished.opens {w : List Token} {us : List Nat} {t : Token} (h : Unfinished w us)
    (ht : t.Opens) : Unfinished (w ++ [t]) (w.length :: us) :=
  .under h ht .nil

/-- A loop end closes the innermost open loop. -/
theorem Unfinished.closes {w : List Token} {u : Nat} {us : List Nat} {t : Token}
    (h : Unfinished w (u :: us)) (ht : t.Closes) :
    Unfinished (w ++ [t]) us ∧ Matches (w ++ [t]) u w.length := by
  cases h with
  | @under w v _ s hw hs hv =>
    constructor
    · -- the last part and its beginning become balanced
      rw [List.append_assoc, List.cons_append]
      exact hw.append (.enclose hs ht hv)
    · have hpair := matches_of_enclosed (a := w) (b := []) hs ht hv
      simpa using hpair

/-- The innermost open loop, with the open loops around it. -/
theorem Unfinished.innermost {w : List Token} {u : Nat} {us : List Nat}
    (h : Unfinished w (u :: us)) : OpensAt w u ∧ Unfinished (w.take u) us := by
  cases h with
  | @under w v _ s hw hs hv =>
    refine ⟨⟨s, by simp, hs⟩, ?_⟩
    rw [List.take_left' rfl]
    exact hw

theorem Unfinished.balanced {w : List Token} (h : Unfinished w []) : Balanced w := by
  cases h with
  | flat hw => exact hw

/-! ## Levels -/

/-- The level at the end is the number of open loops. -/
theorem Unfinished.height_eq {w : List Token} {us : List Nat} (h : Unfinished w us) :
    height w = us.length := by
  induction h with
  | flat hw => exact hw.height_eq_zero
  | under _ ht hv ih =>
    simp [ih, Token.weight_of_opens ht, hv.height_eq_zero]

/-- Behind an open loop the level stays above that of its beginning. -/
theorem level_under {w v : List Token} {t : Token} {k : Nat} (ht : t.Opens) (hv : Balanced v)
    (hk : w.length < k) : height w < level (w ++ t :: v) k := by
  obtain ⟨j, rfl⟩ := Nat.exists_eq_add_of_lt hk
  have hnonneg := hv.level_nonneg j
  have hlevel : level (t :: v) (j + 1) = 1 + level v j := by
    simp [level, Token.weight_of_opens ht]
  rw [Nat.add_assoc, level_append_right, hlevel]
  omega

theorem Unfinished.level_nonneg {w : List Token} {us : List Nat} (h : Unfinished w us) (n : Nat) :
    0 ≤ level w n := by
  induction h with
  | flat hw => exact hw.level_nonneg n
  | @under w v us t hw ht hv ih =>
    rcases Nat.lt_or_ge w.length n with hlt | hge
    · -- behind the beginning the level is even positive
      have hlevel := level_under ht hv hlt
      have hheight := hw.height_eq
      omega
    · rw [level_append_left _ _ hge]
      exact ih

/-! ## The open loops are the loops without an end -/

theorem Unfinished.lt_length {w : List Token} {us : List Nat} (h : Unfinished w us) {u : Nat}
    (hu : u ∈ us) : u < w.length := by
  induction h with
  | flat _ => cases hu
  | @under w v us t _ _ _ ih =>
    rw [List.length_append, List.length_cons]
    rcases List.mem_cons.1 hu with rfl | hu
    · omega
    · have := ih hu
      omega

/-- Inner loops begin later. -/
theorem Unfinished.descending {w : List Token} {us : List Nat} (h : Unfinished w us) :
    us.Pairwise (· > ·) := by
  induction h with
  | flat _ => exact .nil
  | under hw _ _ ih => exact List.pairwise_cons.2 ⟨fun _ hu => hw.lt_length hu, ih⟩

/-- A pair that begins before an open loop ends before it. -/
theorem Matches.lt_of_under {w v : List Token} {t : Token} {o c : Nat} (ht : t.Opens)
    (hv : Balanced v) (h : Matches (w ++ t :: v) o c) (ho : o ≤ w.length) : c < w.length := by
  apply Nat.lt_of_not_ge
  intro hge
  -- after the pair the level is back to that of `o`, yet the open loop keeps it higher
  have hback := h.level_succ_right
  have hhigh := level_under (k := c + 1) ht hv (Nat.lt_succ_of_le hge)
  have hlow : level (w ++ t :: v) o ≤ height w := by
    have hend : level (w ++ t :: v) w.length = height w := by
      rw [level_append_left _ _ (Nat.le_refl _), level_length]
    rcases Nat.lt_or_eq_of_le ho with hlt | rfl
    · exact Int.le_of_lt (hend ▸ h.level_lt hlt hge)
    · exact Int.le_of_eq hend
  omega

/-- **The open loops are exactly the loops without an end.** -/
theorem Unfinished.mem_iff {w : List Token} {us : List Nat} (h : Unfinished w us) (u : Nat) :
    u ∈ us ↔ Unended w u := by
  induction h generalizing u with
  | flat hw =>
    constructor
    · exact fun hu => absurd hu List.not_mem_nil
    · -- in a balanced list every loop has its end
      rintro ⟨ho, hnone⟩
      obtain ⟨o, c, hm, rfl | rfl⟩ := hw.paired (Or.inl ho)
      · exact absurd hm (hnone c)
      · exact absurd hm.closes (opensAt_not_closesAt ho)
  | @under w v us t hw ht hv ih =>
    have hopen : OpensAt (w ++ t :: v) w.length := ⟨t, by simp, ht⟩
    constructor
    · intro hu
      rcases List.mem_cons.1 hu with rfl | hu
      · -- a pair of the new loop would have to end before it
        refine ⟨hopen, ?_⟩
        intro c hm
        have := hm.lt_of_under ht hv (Nat.le_refl _)
        have := hm.lt
        omega
      · -- the ends behind an outer loop are those of the last part
        obtain ⟨ho, hnone⟩ := (ih u).1 hu
        have hlt := ho.lt_length
        refine ⟨(standsAt_append_left _ w _ hlt).2 ho, ?_⟩
        intro c hm
        exact hnone c (hm.of_append (hm.lt_of_under ht hv (Nat.le_of_lt hlt)))
    · rintro ⟨ho, hnone⟩
      rcases Nat.lt_trichotomy u w.length with hlt | rfl | hgt
      · refine List.mem_cons_of_mem _ ((ih u).2 ⟨(standsAt_append_left _ w _ hlt).1 ho, ?_⟩)
        exact fun c hm => hnone c (hm.append_right _)
      · exact List.mem_cons_self
      · -- a loop of the last balanced part has an end there
        obtain ⟨k, rfl⟩ := Nat.exists_eq_add_of_lt hgt
        have hk : OpensAt v k := by
          rw [Nat.add_assoc, OpensAt, standsAt_append_right] at ho
          simpa [StandsAt] using ho
        obtain ⟨o, c, hm, rfl | rfl⟩ := hv.paired (Or.inl hk)
        · refine absurd ((hm.append_left [t]).append_left w) ?_
          have hmove : w.length + k + 1 = w.length + ([t].length + k) := by
            rw [List.length_singleton]
            omega
          rw [hmove] at hnone
          exact hnone _
        · exact absurd hm.closes (opensAt_not_closesAt hk)

theorem matches_take_iff (tokens : List Token) (o c k : Nat) :
    Matches (tokens.take k) o c ↔ Matches tokens o c ∧ c < k := by
  have hsplit : tokens.take k ++ tokens.drop k = tokens := List.take_append_drop k tokens
  constructor
  · intro h
    have hwhole := h.append_right (tokens.drop k)
    rw [hsplit] at hwhole
    have := h.closes.lt_length
    rw [List.length_take] at this
    exact ⟨hwhole, by omega⟩
  · rintro ⟨h, hlt⟩
    have hlength := h.closes.lt_length
    rw [← hsplit] at h
    exact h.of_append (by rw [List.length_take]; omega)

/-- In a balanced list the loops open at a position are those that begin before it and end at or
after it. -/
theorem Unfinished.mem_take_iff {tokens : List Token} {us : List Nat} {k : Nat}
    (h : Unfinished (tokens.take k) us) (hb : Balanced tokens) (u : Nat) :
    u ∈ us ↔ u < k ∧ ∃ c, Matches tokens u c ∧ k ≤ c := by
  rw [h.mem_iff]
  constructor
  · rintro ⟨ho, hnone⟩
    have hlt : u < k := by
      have := ho.lt_length
      rw [List.length_take] at this
      omega
    rw [OpensAt, standsAt_take _ _ hlt] at ho
    obtain ⟨o, c, hm, rfl | rfl⟩ := hb.paired (Or.inl ho)
    · -- an end before the position would be an end in the prefix
      refine ⟨hlt, c, hm, Nat.le_of_not_lt ?_⟩
      intro hc
      exact hnone c ((matches_take_iff tokens u c k).2 ⟨hm, hc⟩)
    · exact absurd hm.closes (opensAt_not_closesAt ho)
  · rintro ⟨hlt, c, hm, hkc⟩
    refine ⟨(standsAt_take _ _ hlt).2 hm.opens, ?_⟩
    intro c' hm'
    obtain ⟨hwhole, hc'⟩ := (matches_take_iff tokens u c' k).1 hm'
    have := hm.right_unique hwhole
    omega

/-- Two descending lists with the same members are equal. -/
theorem eq_of_descending {us vs : List Nat} (hu : us.Pairwise (· > ·)) (hv : vs.Pairwise (· > ·))
    (h : ∀ n, n ∈ us ↔ n ∈ vs) : us = vs := by
  have hperm : us.Perm vs :=
    (List.perm_ext_iff_of_nodup (hu.imp Nat.ne_of_gt) (hv.imp Nat.ne_of_gt)).2 h
  exact hperm.eq_of_pairwise (fun a b _ _ hab hba => absurd hab (Nat.lt_asymm hba)) hu hv

/-- The list determines its open loops. -/
theorem Unfinished.unique {w : List Token} {us vs : List Nat} (h : Unfinished w us)
    (h' : Unfinished w vs) : us = vs :=
  eq_of_descending h.descending h'.descending fun n => (h.mem_iff n).trans (h'.mem_iff n).symm

/-! ## Stray loop ends -/

theorem StrayEnd.level_neg {tokens : List Token} {n : Nat} (h : StrayEnd tokens n) :
    level tokens (n + 1) < 0 := by
  obtain ⟨hc, hb⟩ := h
  have hzero : level tokens n = 0 := hb.height_eq_zero
  rw [level_succ_of_closesAt hc, hzero]
  decide

theorem Unfinished.not_strayEnd {w : List Token} {us : List Nat} (h : Unfinished w us) (n : Nat) :
    ¬ StrayEnd w n := by
  intro hstray
  have := hstray.level_neg
  have := h.level_nonneg (n + 1)
  omega

/-- **A list has at most one stray loop end.** -/
theorem StrayEnd.unique {tokens : List Token} {n m : Nat} (hn : StrayEnd tokens n)
    (hm : StrayEnd tokens m) : n = m := by
  -- the tokens before a stray loop end are balanced, hence hold no other
  have hle : ∀ {i j : Nat}, StrayEnd tokens i → StrayEnd tokens j → j ≤ i := by
    intro i j hi hj
    apply Nat.le_of_not_lt
    intro hlt
    have hneg := hi.level_neg
    have hnonneg := hj.2.level_nonneg (i + 1)
    have hmin : min (i + 1) j = i + 1 := Nat.min_eq_left hlt
    rw [level, List.take_take, hmin] at hnonneg
    rw [level] at hneg
    omega
  exact Nat.le_antisymm (hle hm hn) (hle hn hm)

theorem StrayEnd.append_right {a : List Token} {n : Nat} (h : StrayEnd a n) (b : List Token) :
    StrayEnd (a ++ b) n := by
  obtain ⟨hc, hb⟩ := h
  have hlt := hc.lt_length
  refine ⟨(standsAt_append_left _ a b hlt).2 hc, ?_⟩
  rw [List.take_append_of_le_length (Nat.le_of_lt hlt)]
  exact hb

theorem StrayEnd.append_left {a b : List Token} {n : Nat} (ha : Balanced a) (h : StrayEnd b n) :
    StrayEnd (a ++ b) (a.length + n) := by
  obtain ⟨hc, hb⟩ := h
  refine ⟨(standsAt_append_right _ a b n).2 hc, ?_⟩
  rw [List.take_length_add_append]
  exact ha.append hb

/-! ## The open loops at a position -/

section Positions

variable {tokens : List Token} {us : List Nat} {n : Nat}

theorem take_succ_eq {t : Token} (ht : tokens[n]? = some t) :
    tokens.take (n + 1) = tokens.take n ++ [t] := by
  rw [List.take_add_one, ht]
  rfl

theorem length_take_of_getElem? {t : Token} (ht : tokens[n]? = some t) :
    (tokens.take n).length = n := by
  have hlt := (List.getElem?_eq_some_iff.1 ht).1
  exact List.length_take_of_le (Nat.le_of_lt hlt)

/-- Behind a token that is no bracket the same loops are open. -/
theorem Unfinished.take_plain {t : Token} (h : Unfinished (tokens.take n) us)
    (ht : tokens[n]? = some t) (ho : ¬ t.Opens) (hc : ¬ t.Closes) :
    Unfinished (tokens.take (n + 1)) us := by
  rw [take_succ_eq ht]
  exact h.plain ho hc

/-- Behind a loop beginning one more loop is open. -/
theorem Unfinished.take_opens (h : Unfinished (tokens.take n) us) (hn : OpensAt tokens n) :
    Unfinished (tokens.take (n + 1)) (n :: us) := by
  obtain ⟨t, ht, ho⟩ := hn
  have hopen := h.opens ho
  rwa [length_take_of_getElem? ht, ← take_succ_eq ht] at hopen

/-- Behind a pair the same loops are open as before it. -/
theorem Unfinished.take_pair {c : Nat} (h : Unfinished (tokens.take n) us)
    (hm : Matches tokens n c) : Unfinished (tokens.take (c + 1)) us := by
  obtain ⟨w, hw, hsplit⟩ := hm.balanced_pair
  rw [hsplit]
  exact h.append hw

/-- At a loop end its own loop is the innermost open one. -/
theorem Unfinished.take_closes {o : Nat} (h : Unfinished (tokens.take n) us)
    (hm : Matches tokens o n) : ∃ outer, us = o :: outer ∧
      Unfinished (tokens.take (o + 1)) us ∧ Unfinished (tokens.take (n + 1)) outer := by
  obtain ⟨t, ht, hc⟩ := hm.closes
  -- the loop has no end before `n`, so it is open there
  have hopen : o ∈ us := by
    refine (h.mem_iff o).2 ⟨(standsAt_take _ _ hm.lt).2 hm.opens, ?_⟩
    intro c hm'
    obtain ⟨hwhole, hlt⟩ := (matches_take_iff tokens o c n).1 hm'
    have := hm.right_unique hwhole
    omega
  cases us with
  | nil => exact absurd hopen List.not_mem_nil
  | cons u outer =>
    obtain ⟨hrest, hpair⟩ := h.closes hc
    rw [length_take_of_getElem? ht, ← take_succ_eq ht] at hpair
    rw [← take_succ_eq ht] at hrest
    obtain rfl := hm.left_unique ((matches_take_iff tokens u n (n + 1)).1 hpair).1
    obtain ⟨-, houter⟩ := h.innermost
    rw [List.take_take, Nat.min_eq_left (Nat.le_of_lt hm.lt)] at houter
    exact ⟨outer, rfl, houter.take_opens hm.opens, hrest⟩

end Positions

end TapeLanguage.Brackets
