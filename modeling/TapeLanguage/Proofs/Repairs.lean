import TapeLanguage.Proofs.Composition

/-!
# Repairs

The brackets that an error names are the ones to repair. The loops that a list leaves open are
closed by as many loop ends behind it, the innermost loop by the first (`Unfinished.closed`), and
without their beginnings the list is balanced (`Unfinished.balanced_without`). The tokens before a
stray loop end are balanced, so that one loop beginning in front of them is what it lacks
(`StrayEnd.enclosed`); without it no token before its place is a stray loop end
(`StrayEnd.not_strayEnd_without`).

So the texts that are repaired at the positions named are programs (`decode_names_repairs`).
-/

set_option autoImplicit false

namespace TapeLanguage

namespace Brackets

/-! ## Deleting positions -/

section Without

variable {α β : Type}

/-- The members of a list that stand at none of the positions. -/
def without (positions : List Nat) (l : List α) : List α :=
  (l.zipIdx.filter fun x => x.2 ∉ positions).map Prod.fst

theorem mem_of_mem_without {positions : List Nat} {l : List α} {x : α}
    (h : x ∈ without positions l) : x ∈ l := by
  obtain ⟨⟨y, n⟩, hmem, rfl⟩ := List.mem_map.1 h
  exact List.fst_mem_of_mem_zipIdx (List.mem_filter.1 hmem).1

theorem map_without (f : α → β) (positions : List Nat) (l : List α) :
    (without positions l).map f = without positions (l.map f) := by
  rw [without, without, List.zipIdx_map, List.filter_map, List.map_map, List.map_map]
  rfl

/-- The order of the positions does not matter. -/
theorem without_congr {positions positions' : List Nat} (h : ∀ n, n ∈ positions ↔ n ∈ positions')
    (l : List α) : without positions l = without positions' l := by
  simp only [without, h]

/-- Without positions that are all behind it a list is as it was. -/
theorem without_of_le {positions : List Nat} {l : List α} (h : ∀ n ∈ positions, l.length ≤ n) :
    without positions l = l := by
  have hall : ∀ x ∈ l.zipIdx, decide (x.2 ∉ positions) = true := by
    rintro ⟨x, n⟩ hx
    have hlt := List.snd_lt_of_mem_zipIdx hx
    exact decide_eq_true fun hn => absurd (h n hn) (Nat.not_le_of_lt (by simpa using hlt))
  rw [without, List.filter_eq_self.2 hall, List.zipIdx_map_fst]

/-- The last of the positions is deleted where it stands. -/
theorem without_append_cons {positions : List Nat} {a b : List α} {x : α}
    (h : ∀ n ∈ positions, n < a.length) :
    without (a.length :: positions) (a ++ x :: b) = without positions a ++ b := by
  have hbefore : a.zipIdx.filter (fun y => y.2 ∉ a.length :: positions) =
      a.zipIdx.filter (fun y => y.2 ∉ positions) := by
    apply List.filter_congr
    rintro ⟨y, n⟩ hy
    have hlt : n < a.length := by simpa using List.snd_lt_of_mem_zipIdx hy
    simp [Nat.ne_of_lt hlt]
  have hbehind : (b.zipIdx (a.length + 1)).filter (fun y => y.2 ∉ a.length :: positions) =
      b.zipIdx (a.length + 1) := by
    apply List.filter_eq_self.2
    rintro ⟨y, n⟩ hy
    have hge : a.length + 1 ≤ n := List.le_snd_of_mem_zipIdx hy
    refine decide_eq_true ?_
    rw [List.mem_cons]
    rintro (rfl | hn)
    · omega
    · have := h n hn
      omega
  rw [without, List.zipIdx_append, List.filter_append, List.map_append, hbefore, Nat.zero_add,
    List.zipIdx_cons, List.filter_cons_of_neg (by simp), hbehind, List.zipIdx_map_fst, without]

end Without

/-! ## Open loops -/

/-- **The loops that are open can be closed**, by one loop end for each. The first of them ends the
innermost loop. -/
theorem Unfinished.closed {w : List Token} {us : List Nat} {e : Token} (h : Unfinished w us)
    (he : e.Closes) : Balanced (w ++ List.replicate us.length e) ∧
      ∀ j u, us[j]? = some u → Matches (w ++ List.replicate us.length e) u (w.length + j) := by
  induction us generalizing w with
  | nil =>
    rw [List.length_nil, List.replicate_zero, List.append_nil]
    exact ⟨h.balanced, nofun⟩
  | cons u us ih =>
    -- the first loop end closes the innermost loop, the others those that are then open
    obtain ⟨hrest, hpair⟩ := h.closes he
    obtain ⟨hb, houter⟩ := ih hrest
    have hsplit : w ++ List.replicate (u :: us).length e =
        w ++ [e] ++ List.replicate us.length e := by
      rw [List.append_assoc]
      rfl
    rw [hsplit]
    refine ⟨hb, ?_⟩
    intro j v hv
    cases j with
    | zero =>
      obtain rfl : u = v := Option.some.inj hv
      exact hpair.append_right _
    | succ j =>
      have hmatches := houter j v hv
      rw [List.length_append, List.length_singleton, Nat.add_assoc, Nat.add_comm 1 j] at hmatches
      exact hmatches

/-- **Without the beginnings of the open loops a list is balanced.** -/
theorem Unfinished.balanced_without {w : List Token} {us : List Nat} (h : Unfinished w us) :
    Balanced (without us w) := by
  induction h with
  | flat hw =>
    rw [without_of_le (by simp)]
    exact hw
  | @under w v us t hw ht hv ih =>
    rw [without_append_cons fun _ hu => hw.lt_length hu]
    exact ih.append hv

/-! ## Stray loop ends -/

theorem StrayEnd.of_append {a b : List Token} {n : Nat} (h : StrayEnd (a ++ b) n)
    (hn : n < a.length) : StrayEnd a n := by
  obtain ⟨hc, hb⟩ := h
  refine ⟨(standsAt_append_left _ a b hn).1 hc, ?_⟩
  rwa [List.take_append_of_le_length (Nat.le_of_lt hn)] at hb

/-- **One loop beginning is what a stray loop end lacks.** With it in front the tokens up to the
loop end are one loop. -/
theorem StrayEnd.enclosed {tokens : List Token} {n : Nat} {s : Token} (h : StrayEnd tokens n)
    (hs : s.Opens) : Balanced (s :: tokens.take (n + 1)) ∧
      Matches (s :: tokens.take (n + 1)) 0 (n + 1) := by
  obtain ⟨⟨e, hget, he⟩, hb⟩ := h
  have hpair := matches_of_enclosed (a := []) (b := []) hs he hb
  rw [List.length_nil, Nat.zero_add, length_take_of_getElem? hget] at hpair
  rw [take_succ_eq hget]
  exact ⟨.enclose hs he hb, hpair⟩

/-- **Without a stray loop end no token before its place is one.** -/
theorem StrayEnd.not_strayEnd_without {tokens : List Token} {n j : Nat} (h : StrayEnd tokens n)
    (hj : j < n) : ¬ StrayEnd (without [n] tokens) j := by
  obtain ⟨⟨e, hget, -⟩, hb⟩ := h
  have hlength := length_take_of_getElem? hget
  have hsplit : without [n] tokens = tokens.take n ++ tokens.drop (n + 1) := by
    obtain ⟨hlt, hn⟩ := List.getElem?_eq_some_iff.1 hget
    have hwhole : tokens = tokens.take n ++ e :: tokens.drop (n + 1) := by
      rw [← hn, ← List.drop_eq_getElem_cons hlt, List.take_append_drop]
    calc without [n] tokens
        = without [(tokens.take n).length] (tokens.take n ++ e :: tokens.drop (n + 1)) := by
          rw [hlength, ← hwhole]
      _ = without [] (tokens.take n) ++ tokens.drop (n + 1) :=
          without_append_cons fun _ hm => absurd hm List.not_mem_nil
      _ = tokens.take n ++ tokens.drop (n + 1) := by
          rw [without_of_le fun _ hm => absurd hm List.not_mem_nil]
  rw [hsplit]
  intro hstray
  exact (Unfinished.flat hb).not_strayEnd j (hstray.of_append (by rwa [hlength]))

end Brackets

namespace Program

open Brackets

/-- The jump table leads from each bracket of a pair to the other. -/
theorem Decodes.jumps_of_matches {tokens : List Token} {p : Program} {o c : Nat}
    (h : Decodes tokens p) (hm : Matches tokens o c) :
    p.jumps[(o : Int)]? = some (c : Int) ∧ p.jumps[(c : Int)]? = some (o : Int) := by
  have hpartners : Partners tokens o c := ⟨o, c, hm, Or.inl ⟨rfl, rfl⟩⟩
  exact ⟨(h.partners o c).2 hpartners, (h.partners c o).2 hpartners.symm⟩

/-- The loops that an error names are those that are open, outermost first. -/
theorem unfinished_of_decode {tokens : List Token} {source : Option String} {k : Int}
    {unclosed : List Int}
    (h : (decode tokens source).outcome = .error (.unmatchedOpen k unclosed)) :
    ∃ us : List Nat, unclosed = us.map Int.ofNat ∧ us.Pairwise (· < ·) ∧
      Unfinished tokens us.reverse := by
  rcases decode_cases tokens source with ⟨n, t, -, -, hr⟩ | ⟨u, us, hopen, hr⟩ |
    ⟨n, t, -, -, -, hr⟩ | ⟨p, -, hr⟩ <;> rw [hr] at h
  · rcases ofClose_cases n source t.line t.column with ⟨site, he⟩ | ⟨e, he⟩ <;>
      rw [he] at h <;> cases h
  · obtain ⟨-, rfl⟩ := DecodeError.unmatchedOpen.inj (Except.error.inj h)
    refine ⟨(u :: us).reverse, rfl, List.pairwise_reverse.2 hopen.descending, ?_⟩
    rwa [List.reverse_reverse]
  · cases h
  · cases h

/-! ## Repaired texts -/

/-- The text without the characters at the positions. -/
def delete (positions : List Nat) (text : String) : String :=
  String.ofList (without positions text.toList)

theorem ofText_ofList (cs : List Char) :
    Token.ofText (String.ofList cs) = cs.map Token.ofChar := by
  rw [Token.ofText, String.toList_ofList]

theorem ofText_delete (positions : List Nat) (text : String) :
    Token.ofText (delete positions text) = without positions (Token.ofText text) := by
  rw [delete, ofText_ofList, map_without, Token.ofText]

section Text

variable {text : String}

/-- A text is accepted once its open loops are closed behind it, and each of them then ends at the
loop end that is as far from the new end of the text as there are loops around it. -/
theorem accepted_closed {us : List Nat} (hsymbols : ∀ c ∈ text.toList, ∃ op : Op, op.symbol = c)
    (h : Unfinished (Token.ofText text) us.reverse) :
    ∃ p, (decode (Token.ofText
        (text ++ String.ofList (List.replicate us.length ']')))).outcome = .ok p ∧
      ∀ j u : Nat, us[j]? = some u →
        p.jumps[(u : Int)]? = some ((text.length : Int) + us.length - (j + 1)) ∧
        p.jumps[(text.length : Int) + us.length - (j + 1)]? = some (u : Int) := by
  have htokens : Token.ofText (text ++ String.ofList (List.replicate us.length ']')) =
      Token.ofText text ++ List.replicate us.reverse.length (Token.ofChar ']') := by
    rw [Token.ofText_append, ofText_ofList, List.map_replicate, List.length_reverse]
  obtain ⟨hb, hpairs⟩ := h.closed (e := Token.ofChar ']') rfl
  rw [← htokens] at hb hpairs
  have haccepted : Accepted (text ++ String.ofList (List.replicate us.length ']')) := by
    refine (accepted_iff _).2 ⟨hb, ?_⟩
    intro c hc
    rw [String.toList_append, String.toList_ofList, List.mem_append] at hc
    rcases hc with hc | hc
    · exact hsymbols c hc
    · exact ⟨.closeLoop, (List.eq_of_mem_replicate hc).symm⟩
  obtain ⟨p, hp⟩ := haccepted
  refine ⟨p, hp, ?_⟩
  intro j u hu
  -- counted from the innermost loop this is the loop number `us.length - 1 - j`
  have hlt := (List.getElem?_eq_some_iff.1 hu).1
  have hinner : us.reverse[us.length - 1 - j]? = some u := by
    rw [List.getElem?_reverse (by omega), ← hu]
    congr 1
    omega
  have hpair := (decodes_of_decode hp).jumps_of_matches (hpairs _ u hinner)
  have hplace : (((Token.ofText text).length + (us.length - 1 - j) : Nat) : Int) =
      (text.length : Int) + us.length - (j + 1) := by
    rw [Token.length_ofText]
    omega
  rwa [hplace] at hpair

/-- A text is accepted once the beginnings of its open loops are deleted. -/
theorem accepted_delete {us : List Nat} (hsymbols : ∀ c ∈ text.toList, ∃ op : Op, op.symbol = c)
    (h : Unfinished (Token.ofText text) us.reverse) : Accepted (delete us text) := by
  rw [accepted_iff, ofText_delete]
  constructor
  · have hb := h.balanced_without
    rwa [without_congr fun n => List.mem_reverse] at hb
  · intro c hc
    rw [delete, String.toList_ofList] at hc
    exact hsymbols c (mem_of_mem_without hc)

/-- The text up to a stray loop end is accepted with a loop beginning in front, as one loop. -/
theorem accepted_enclosed {n : Nat} (hsymbols : ∀ c ∈ text.toList, ∃ op : Op, op.symbol = c)
    (h : StrayEnd (Token.ofText text) n) :
    ∃ p, (decode (Token.ofText
        ("[" ++ String.ofList (text.toList.take (n + 1))))).outcome = .ok p ∧
      p.jumps[(0 : Int)]? = some ((n : Int) + 1) ∧ p.jumps[(n : Int) + 1]? = some 0 := by
  have htokens : Token.ofText ("[" ++ String.ofList (text.toList.take (n + 1))) =
      Token.ofChar '[' :: (Token.ofText text).take (n + 1) := by
    rw [Token.ofText_append, ofText_ofList (text.toList.take (n + 1)), List.map_take]
    rfl
  obtain ⟨hb, hpair⟩ := h.enclosed (s := Token.ofChar '[') rfl
  rw [← htokens] at hb hpair
  have haccepted : Accepted ("[" ++ String.ofList (text.toList.take (n + 1))) := by
    refine (accepted_iff _).2 ⟨hb, ?_⟩
    intro c hc
    rw [String.toList_append, List.mem_append] at hc
    rcases hc with hc | hc
    · exact ⟨.openLoop, (List.mem_singleton.1 hc).symm⟩
    · rw [String.toList_ofList] at hc
      exact hsymbols c (List.mem_of_mem_take hc)
  obtain ⟨p, hp⟩ := haccepted
  exact ⟨p, hp, (decodes_of_decode hp).jumps_of_matches hpair⟩

/-- The text before a stray loop end is accepted. -/
theorem accepted_before {n : Nat} (hsymbols : ∀ c ∈ text.toList, ∃ op : Op, op.symbol = c)
    (h : StrayEnd (Token.ofText text) n) :
    Accepted (String.ofList (text.toList.take n)) := by
  apply accepted_ofList
  · rw [List.map_take]
    exact h.2
  · exact fun c hc => hsymbols c (List.mem_of_mem_take hc)

end Text

/-- **The brackets that an error names are the ones to repair.** Let a text of symbols be no
program. If loops stay open, then the text is one with as many loop ends behind it, and the loops
named end there, the innermost first; and it is one without the beginnings of these loops. If a loop
end is stray, then the text before it is a program, and so is the text up to it with a loop
beginning in front, where these two brackets are a pair; and without it the text has no stray loop
end before its place. -/
theorem decode_names_repairs {text : String}
    (hsymbols : ∀ c ∈ text.toList, ∃ op : Op, op.symbol = c) :
    (∀ k unclosed, (decode (Token.ofText text)).outcome = .error (.unmatchedOpen k unclosed) →
      ∃ us : List Nat, unclosed = us.map Int.ofNat ∧ us.Pairwise (· < ·) ∧
        (∃ p, (decode (Token.ofText
            (text ++ String.ofList (List.replicate us.length ']')))).outcome = .ok p ∧
          ∀ j u : Nat, us[j]? = some u →
            p.jumps[(u : Int)]? = some ((text.length : Int) + us.length - (j + 1)) ∧
            p.jumps[(text.length : Int) + us.length - (j + 1)]? = some (u : Int)) ∧
        Accepted (delete us text)) ∧
    (∀ k site, (decode (Token.ofText text)).outcome = .error (.unmatchedClose k site) →
      ∃ n : Nat, k = n ∧ Accepted (String.ofList (text.toList.take n)) ∧
        (∃ p, (decode (Token.ofText
            ("[" ++ String.ofList (text.toList.take (n + 1))))).outcome = .ok p ∧
          p.jumps[(0 : Int)]? = some ((n : Int) + 1) ∧ p.jumps[(n : Int) + 1]? = some 0) ∧
        ∀ j site', j < k → (decode (Token.ofText (delete [n] text))).outcome ≠
          .error (.unmatchedClose j site')) := by
  constructor
  · intro k unclosed h
    obtain ⟨us, rfl, hascending, hopen⟩ := unfinished_of_decode h
    exact ⟨us, rfl, hascending, accepted_closed hsymbols hopen, accepted_delete hsymbols hopen⟩
  · intro k site h
    obtain ⟨n, t, rfl, hstray, -, -⟩ := (decode_eq_unmatchedClose_iff _ none k site).1 h
    refine ⟨n, rfl, accepted_before hsymbols hstray, accepted_enclosed hsymbols hstray, ?_⟩
    intro j site' hj hr
    obtain ⟨m, t', rfl, hbefore, -, -⟩ := (decode_eq_unmatchedClose_iff _ none j site').1 hr
    rw [ofText_delete] at hbefore
    exact hstray.not_strayEnd_without (Int.ofNat_lt.1 hj) hbefore

/-- Two open loops around a loop, and a loop end behind an instruction. -/
theorem decode_names_repairs_both :
    (decode (Token.ofText "[[+]>[")).outcome = .error (.unmatchedOpen 6 [0, 5]) ∧
      (∃ p, (decode (Token.ofText "[[+]>[]]")).outcome = .ok p ∧ p.jumps[(0 : Int)]? = some 7 ∧
        p.jumps[(5 : Int)]? = some 6) ∧ Accepted "[+]>" ∧
      (decode (Token.ofText "+]-]")).outcome = .error (.unmatchedClose 1 none) ∧
      (∃ p, (decode (Token.ofText "[+]")).outcome = .ok p ∧ p.jumps[(2 : Int)]? = some 0) ∧
      ∀ j site, j < 1 →
        (decode (Token.ofText "+-]")).outcome ≠ .error (.unmatchedClose j site) := by
  have hsymbols : ∀ text : String, text.toList.all Source.isSymbol = true →
      ∀ c ∈ text.toList, ∃ op : Op, op.symbol = c :=
    fun text hall c hc => Source.isSymbol_iff.1 (List.all_eq_true.1 hall c hc)
  obtain ⟨hopen, -⟩ := decode_names_repairs (hsymbols "[[+]>[" rfl)
  obtain ⟨-, hclose⟩ := decode_names_repairs (hsymbols "+]-]" rfl)
  obtain ⟨us, hus, -, ⟨p, hp, hpairs⟩, hdeleted⟩ := hopen 6 [0, 5] rfl
  have hpositions : us.map Int.ofNat = [0, 5].map Int.ofNat := hus.symm
  obtain rfl := (List.map_inj_right fun _ _ h => Int.ofNat.inj h).1 hpositions
  obtain ⟨n, hn, hbefore, ⟨q, hq, -, hback⟩, hrest⟩ := hclose 1 none rfl
  obtain rfl : n = 1 := by omega
  exact ⟨rfl, ⟨p, hp, (hpairs 0 0 rfl).1, (hpairs 1 5 rfl).1⟩, hdeleted, rfl, ⟨q, hq, hback⟩,
    hrest⟩

end Program

end TapeLanguage
