import Std.Data.TreeMap.Lemmas
import TapeLanguage.Proofs.OpenLoops

/-!
# The first pass of decoding

What a `Matching` holds after some tokens have been read (`Matching.Describes`): the tokens, the
positions of the open loops, the partners of all brackets that have one, and the depths. One step
keeps this (`Describes.step`) or fails at a stray loop end (`Describes.step_error`); from the empty
matching the pass therefore describes all tokens or fails at a stray loop end (`steps_cases`).
-/

set_option autoImplicit false

namespace TapeLanguage.Program

open Brackets

/-- The indices of a bracket and its partner, in either order. -/
def Partners (tokens : List Token) (k v : Int) : Prop :=
  ∃ o c : Nat, Matches tokens o c ∧ (k = o ∧ v = c ∨ k = c ∧ v = o)

/-- The depth of the token at a position: the level at a loop beginning, the level after a loop end,
and zero for any other token. -/
structure DepthAt (tokens : List Token) (n d : Nat) : Prop where
  /-- The depth of a loop beginning. -/
  opens : OpensAt tokens n → (d : Int) = level tokens n
  /-- The depth of a loop end. -/
  closes : ClosesAt tokens n → (d : Int) = level tokens (n + 1)
  /-- The depth of a token that is no bracket. -/
  plain : ¬ OpensAt tokens n → ¬ ClosesAt tokens n → d = 0

theorem DepthAt.append_right {a : List Token} {n d : Nat} (h : DepthAt a n d) (b : List Token)
    (hn : n < a.length) : DepthAt (a ++ b) n d := by
  constructor
  case opens =>
    intro ho
    rw [level_append_left a b (Nat.le_of_lt hn)]
    exact h.opens ((standsAt_append_left _ a b hn).1 ho)
  case closes =>
    intro hc
    rw [level_append_left a b hn]
    exact h.closes ((standsAt_append_left _ a b hn).1 hc)
  case plain =>
    intro ho hc
    apply h.plain
    · exact fun ho' => ho ((standsAt_append_left _ a b hn).2 ho')
    · exact fun hc' => hc ((standsAt_append_left _ a b hn).2 hc')

/-! ## Partners after one more token -/

/-- A token that ends no loop completes no pair. -/
theorem matches_snoc_of_not_closes {w : List Token} {t : Token} (ht : ¬ t.Closes) (o c : Nat) :
    Matches (w ++ [t]) o c ↔ Matches w o c := by
  refine ⟨fun h => h.of_append ?_, fun h => h.append_right [t]⟩
  have hc := h.closes
  rcases Nat.lt_or_ge c w.length with hlt | hge
  · exact hlt
  · -- a new pair would end at the token itself
    obtain rfl : c = w.length := by
      have := hc.lt_length
      rw [List.length_append, List.length_singleton] at this
      omega
    exact absurd ((standsAt_iff_of_getElem? (by simp)).1 hc) ht

/-- A loop end completes the pair of the innermost open loop and no other. -/
theorem matches_snoc_of_closes {w : List Token} {t : Token} {u : Nat}
    (hu : Matches (w ++ [t]) u w.length) (o c : Nat) :
    Matches (w ++ [t]) o c ↔ Matches w o c ∨ o = u ∧ c = w.length := by
  constructor
  · intro h
    rcases Nat.lt_or_ge c w.length with hlt | hge
    · exact Or.inl (h.of_append hlt)
    · -- the token ends one pair only
      obtain rfl : c = w.length := by
        have := h.closes.lt_length
        rw [List.length_append, List.length_singleton] at this
        omega
      exact Or.inr ⟨h.left_unique hu, rfl⟩
  · rintro (h | ⟨rfl, rfl⟩)
    · exact h.append_right [t]
    · exact hu

theorem partners_snoc_of_not_closes {w : List Token} {t : Token} (ht : ¬ t.Closes) (k v : Int) :
    Partners (w ++ [t]) k v ↔ Partners w k v := by
  simp only [Partners, matches_snoc_of_not_closes ht]

theorem partners_snoc_of_closes {w : List Token} {t : Token} {u : Nat}
    (hu : Matches (w ++ [t]) u w.length) (k v : Int) :
    Partners (w ++ [t]) k v ↔
      Partners w k v ∨ k = u ∧ v = w.length ∨ k = w.length ∧ v = u := by
  simp only [Partners, matches_snoc_of_closes hu]
  constructor
  · rintro ⟨o, c, h | ⟨rfl, rfl⟩, hkv⟩
    · exact Or.inl ⟨o, c, h, hkv⟩
    · exact Or.inr hkv
  · rintro (⟨o, c, h, hkv⟩ | hkv)
    · exact ⟨o, c, Or.inl h, hkv⟩
    · exact ⟨u, w.length, Or.inr ⟨rfl, rfl⟩, hkv⟩

/-- The loop beginning of a new pair had no partner before. -/
theorem not_partners_of_new_left {w : List Token} {t : Token} {u : Nat}
    (hu : Matches (w ++ [t]) u w.length) {v : Int} : ¬ Partners w u v := by
  rintro ⟨o, c, hm, ⟨ho, -⟩ | ⟨hc, -⟩⟩
  · -- its partner would lie before the new loop end
    rw [Int.natCast_inj] at ho
    subst ho
    have hsame := (hm.append_right [t]).right_unique hu
    have := hm.closes.lt_length
    omega
  · -- it would be a loop end
    rw [Int.natCast_inj] at hc
    subst hc
    exact opensAt_not_closesAt hu.opens (hm.append_right [t]).closes

/-- The partner of a bracket lies among the tokens. -/
theorem Partners.lt_length {tokens : List Token} {n : Nat} {v : Int}
    (h : Partners tokens n v) : n < tokens.length := by
  obtain ⟨o, c, hm, ⟨hn, -⟩ | ⟨hn, -⟩⟩ := h
  · have := hm.opens.lt_length
    omega
  · have := hm.closes.lt_length
    omega

theorem Partners.symm {tokens : List Token} {k v : Int} (h : Partners tokens k v) :
    Partners tokens v k := by
  obtain ⟨o, c, hm, hkv⟩ := h
  exact ⟨o, c, hm, by omega⟩

/-- The jump table after a pair has been entered. -/
theorem getElem?_insert_pair (jumps : Jumps) (o c k : Int) :
    ((jumps.insert o c).insert c o)[k]? =
      if c = k then some o else if o = k then some c else jumps[k]? := by
  rw [Std.TreeMap.getElem?_insert, Std.TreeMap.getElem?_insert]
  simp only [Std.LawfulEqCmp.compare_eq_iff_eq]

namespace Matching

/-! ## One step -/

theorem step_of_opens (source : Option String) (m : Matching) {t : Token} (h : t.Opens) :
    m.step source t = .ok (m.enter t) :=
  if_pos h

theorem step_of_plain (source : Option String) (m : Matching) {t : Token} (ho : ¬ t.Opens)
    (hc : ¬ t.Closes) : m.step source t = .ok (m.pass t) :=
  (if_neg ho).trans (if_neg hc)

theorem step_of_closes (source : Option String) (m : Matching) {t : Token} (h : t.Closes) :
    m.step source t =
      match m.openings.back? with
      | some start => .ok (m.leave t start)
      | none => .error (.ofClose m.position source t.line t.column) :=
  (if_neg fun ho => Token.Opens.not_closes ho h).trans (if_pos h)

/-! ## What a matching holds -/

/-- What a matching holds after some tokens. -/
structure Describes (tokens : List Token) (m : Matching) : Prop where
  /-- The tokens read. -/
  read : m.labelled.toList.map Prod.fst = tokens
  /-- The open loops. -/
  unfinished : Unfinished tokens m.openings.toList.reverse
  /-- The partners found. -/
  partners : ∀ k v : Int, m.jumps[k]? = some v ↔ Partners tokens k v
  /-- The depths. -/
  depths : ∀ (n : Nat) (t : Token) (d : Nat), m.labelled[n]? = some (t, d) → DepthAt tokens n d

theorem Describes.position_eq {tokens : List Token} {m : Matching} (h : Describes tokens m) :
    m.position = tokens.length := by
  rw [← h.read, List.length_map, Array.length_toList]
  rfl

/-- The empty matching describes no tokens. -/
theorem describes_nil : Describes [] {} := by
  constructor
  case read => rfl
  case unfinished => exact .flat .nil
  case partners =>
    intro k v
    constructor
    · intro h
      rw [Std.TreeMap.getElem?_emptyc] at h
      exact absurd h (by simp)
    · rintro ⟨o, c, hm, -⟩
      exact absurd hm.opens.lt_length (Nat.not_lt_zero o)
  case depths =>
    intro n t d h
    exact absurd h (by simp)

/-- The depths after one more token with its depth. -/
theorem Describes.depths_push {tokens : List Token} {m : Matching} (h : Describes tokens m)
    {t : Token} {e : Nat} (he : DepthAt (tokens ++ [t]) tokens.length e) (n : Nat) (t' : Token)
    (d : Nat) (hn : (m.labelled.push (t, e))[n]? = some (t', d)) : DepthAt (tokens ++ [t]) n d := by
  have hsize : m.labelled.size = tokens.length := h.position_eq
  rw [Array.getElem?_push] at hn
  split at hn
  · next heq =>
    rw [Option.some.injEq, Prod.mk.injEq] at hn
    rw [heq, hsize, ← hn.2]
    exact he
  · have hlt : n < m.labelled.size := (Array.getElem?_eq_some_iff.1 hn).1
    exact (h.depths n t' d hn).append_right [t] (hsize ▸ hlt)

/-- A loop beginning opens a loop. -/
theorem Describes.enter {tokens : List Token} {m : Matching} {t : Token} (h : Describes tokens m)
    (ht : t.Opens) : Describes (tokens ++ [t]) (m.enter t) := by
  have hopen : OpensAt (tokens ++ [t]) tokens.length := ⟨t, by simp, ht⟩
  have hlevel : level (tokens ++ [t]) tokens.length = m.openings.size := by
    rw [level_append_left _ _ (Nat.le_refl _), level_length, h.unfinished.height_eq]
    simp
  constructor
  case read => simp [Matching.enter, h.read]
  case unfinished =>
    have hopenings := h.unfinished.opens ht
    rw [← h.position_eq] at hopenings
    simpa [Matching.enter] using hopenings
  case partners =>
    intro k v
    rw [partners_snoc_of_not_closes ht.not_closes]
    exact h.partners k v
  case depths =>
    apply h.depths_push
    constructor
    · exact fun _ => hlevel.symm
    · exact fun hc => absurd hc (opensAt_not_closesAt hopen)
    · exact fun ho => absurd hopen ho

/-- A token that is no bracket changes nothing. -/
theorem Describes.pass {tokens : List Token} {m : Matching} {t : Token} (h : Describes tokens m)
    (ho : ¬ t.Opens) (hc : ¬ t.Closes) : Describes (tokens ++ [t]) (m.pass t) := by
  have hlast : (tokens ++ [t])[tokens.length]? = some t := by simp
  constructor
  case read => simp [Matching.pass, h.read]
  case unfinished => exact h.unfinished.plain ho hc
  case partners =>
    intro k v
    rw [partners_snoc_of_not_closes hc]
    exact h.partners k v
  case depths =>
    apply h.depths_push
    constructor
    · exact fun ho' => absurd ((standsAt_iff_of_getElem? hlast).1 ho') ho
    · exact fun hc' => absurd ((standsAt_iff_of_getElem? hlast).1 hc') hc
    · exact fun _ _ => rfl

/-- A loop end closes the innermost open loop and pairs the two. -/
theorem Describes.leave {tokens : List Token} {m : Matching} {t : Token} {u : Nat}
    {outer : Array Nat} (h : Describes tokens m) (ht : t.Closes)
    (hu : m.openings = outer.push u) : Describes (tokens ++ [t]) (m.leave t u) := by
  have hopen := h.unfinished
  rw [hu, Array.toList_push, List.reverse_append] at hopen
  obtain ⟨hrest, hpair⟩ := hopen.closes ht
  have hclose : ClosesAt (tokens ++ [t]) tokens.length := hpair.closes
  have hlevel : level (tokens ++ [t]) (tokens.length + 1) = outer.size := by
    have hlen : tokens.length + 1 = (tokens ++ [t]).length := by simp
    rw [hlen, level_length, hrest.height_eq]
    simp
  constructor
  case read => simp [Matching.leave, h.read]
  case unfinished => simpa [Matching.leave, hu] using hrest
  case partners =>
    intro k v
    rw [partners_snoc_of_closes hpair, ← h.partners, ← h.position_eq]
    rw [Matching.leave, getElem?_insert_pair]
    -- neither bracket of the new pair had an entry before
    have hfirst : m.jumps[(u : Int)]? = none := by
      rw [Option.eq_none_iff_forall_ne_some]
      intro v' hv'
      exact not_partners_of_new_left hpair ((h.partners u v').1 hv')
    have hlast : m.jumps[(m.position : Int)]? = none := by
      rw [Option.eq_none_iff_forall_ne_some]
      intro v' hv'
      have := ((h.partners m.position v').1 hv').lt_length
      exact Nat.lt_irrefl _ (h.position_eq ▸ this)
    by_cases hc : (m.position : Int) = k
    · rw [if_pos hc, ← hc, hlast]
      simp only [Option.some.injEq, reduceCtorEq, false_or, true_and]
      omega
    · by_cases ho : (u : Int) = k
      · rw [if_neg hc, if_pos ho, ← ho, hfirst]
        simp only [Option.some.injEq, reduceCtorEq, false_or, true_and]
        omega
      · rw [if_neg hc, if_neg ho]
        refine ⟨Or.inl, fun hkv => hkv.resolve_right ?_⟩
        omega
  case depths =>
    apply h.depths_push
    constructor
    · exact fun ho => absurd hclose (opensAt_not_closesAt ho)
    · intro _
      rw [hlevel, hu]
      simp
    · exact fun _ hc => absurd hclose hc

/-! ## The whole pass -/

/-- **A step keeps what a matching holds.** -/
theorem Describes.step {tokens : List Token} {m next : Matching} {t : Token}
    {source : Option String} (h : Describes tokens m) (hs : m.step source t = .ok next) :
    Describes (tokens ++ [t]) next := by
  by_cases ho : t.Opens
  · -- a loop begins
    rw [step_of_opens source m ho, Except.ok.injEq] at hs
    exact hs ▸ h.enter ho
  · by_cases hc : t.Closes
    · -- a loop ends, so one is open
      rw [step_of_closes source m hc] at hs
      cases hback : m.openings.back? with
      | none =>
        rw [hback] at hs
        exact absurd hs (by simp)
      | some u =>
        rw [hback] at hs
        simp only [Except.ok.injEq] at hs
        obtain ⟨outer, houter⟩ := Array.back?_eq_some_iff.1 hback
        exact hs ▸ h.leave hc houter
    · rw [step_of_plain source m ho hc, Except.ok.injEq] at hs
      exact hs ▸ h.pass ho hc

/-- **A step fails only at a stray loop end**, and tells its position. -/
theorem Describes.step_error {tokens : List Token} {m : Matching} {t : Token}
    {source : Option String} {e : DecodeError} (h : Describes tokens m)
    (hs : m.step source t = .error e) :
    StrayEnd (tokens ++ [t]) tokens.length ∧
      e = .ofClose tokens.length source t.line t.column := by
  by_cases ho : t.Opens
  · rw [step_of_opens source m ho] at hs
    exact absurd hs (by simp)
  · by_cases hc : t.Closes
    · rw [step_of_closes source m hc] at hs
      cases hback : m.openings.back? with
      | some u =>
        rw [hback] at hs
        exact absurd hs (by simp)
      | none =>
        -- no loop is open, so all tokens before are balanced
        rw [hback] at hs
        simp only [Except.error.injEq] at hs
        have hnone := h.unfinished
        rw [Array.back?_eq_none_iff.1 hback] at hnone
        refine ⟨⟨⟨t, by simp, hc⟩, ?_⟩, ?_⟩
        · rw [List.take_left' rfl]
          exact hnone.balanced
        · rw [← hs, h.position_eq]
    · rw [step_of_plain source m ho hc] at hs
      exact absurd hs (by simp)

/-- Reading further tokens keeps what a matching holds, or fails at a stray loop end. -/
theorem Describes.steps {tokens : List Token} {m : Matching} (h : Describes tokens m)
    (source : Option String) (rest : List Token) :
    (∃ last, steps source m rest = .ok last ∧ Describes (tokens ++ rest) last) ∨
      ∃ n t, StrayEnd (tokens ++ rest) n ∧ (tokens ++ rest)[n]? = some t ∧
        steps source m rest = .error (.ofClose n source t.line t.column) := by
  induction rest generalizing tokens m with
  | nil => exact Or.inl ⟨m, rfl, by rwa [List.append_nil]⟩
  | cons t rest ih =>
    have hsplit : tokens ++ t :: rest = tokens ++ [t] ++ rest := by simp
    rw [hsplit, Matching.steps]
    cases hs : m.step source t with
    | ok next => exact ih (h.step hs)
    | error e =>
      obtain ⟨hstray, he⟩ := h.step_error hs
      exact Or.inr ⟨tokens.length, t, hstray.append_right rest, by simp, by rw [he]⟩

/-- **The first pass describes all tokens, or it fails at a stray loop end.** -/
theorem steps_cases (source : Option String) (tokens : List Token) :
    (∃ m, steps source {} tokens = .ok m ∧ Describes tokens m) ∨
      ∃ n t, StrayEnd tokens n ∧ tokens[n]? = some t ∧
        steps source {} tokens = .error (.ofClose n source t.line t.column) :=
  describes_nil.steps source tokens

/-- Before each position of a balanced list some loops are open. -/
theorem exists_unfinished_take {tokens : List Token} (hb : Balanced tokens) (k : Nat) :
    ∃ us, Unfinished (tokens.take k) us := by
  rcases steps_cases none (tokens.take k) with ⟨m, -, h⟩ | ⟨n, t, hstray, -, -⟩
  · exact ⟨_, h.unfinished⟩
  · -- a stray loop end of the prefix is one of the whole list
    have hwhole := hstray.append_right (tokens.drop k)
    rw [List.take_append_drop] at hwhole
    exact absurd hwhole ((Unfinished.flat hb).not_strayEnd n)

end Matching

end TapeLanguage.Program
