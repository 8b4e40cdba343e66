import Std.Data.String.ToInt
import TapeLanguage.Proofs.Excerpts
import TapeLanguage.Proofs.RunAlike

/-!
# Listings

A row of a listing shows an instruction: the index, padded with blanks to five columns, then the
symbol and the name, and for a bracket its depth and its partner. The row can be read back whatever
these numbers are. The blanks in front are as many as there are before the first sign or digit, the
index ends where the next blank stands (`alignedRight_append_inj`), and the depth ends at the comma;
so rows are the same exactly if what they show is (`Instruction.listing_inj`).

A row holds no line feed and is not empty, so a listing tells its rows (`Text.joined_inj`): it is
the same for two programs exactly if their instructions are shown alike, one by one
(`Program.listing_inj`). Of a decoded program a listing shows everything but the places in the
source text (`listing_unambiguous`).
-/

set_option autoImplicit false

namespace TapeLanguage

/-! ## Texts put together -/

namespace Text

/-- Characters up to the first separator, and those behind it, are known from the whole. -/
theorem append_cons_inj {separator : Char} {a b u v : List Char} (ha : separator ∉ a)
    (hb : separator ∉ b) : a ++ separator :: u = b ++ separator :: v ↔ a = b ∧ u = v := by
  constructor
  · intro h
    have htake := congrArg (List.takeWhile (· != separator)) h
    have hdrop := congrArg (List.dropWhile (· != separator)) h
    have hpass : ∀ {cs : List Char}, separator ∉ cs → ∀ c ∈ cs, (c != separator) = true := by
      intro cs hcs c hc
      exact bne_iff_ne.2 fun heq => hcs (heq ▸ hc)
    rw [List.takeWhile_append_of_pos (hpass ha), List.takeWhile_append_of_pos (hpass hb)] at htake
    rw [List.dropWhile_append_of_pos (hpass ha), List.dropWhile_append_of_pos (hpass hb)] at hdrop
    simpa using And.intro htake hdrop
  · rintro ⟨rfl, rfl⟩
    rfl

/-- Padding in front of a word is passed with the blanks. -/
theorem dropWhile_alignedRight {text : String} (hne : text ≠ "") (hblank : ' ' ∉ text.toList)
    (width : Nat) (rest : List Char) :
    ((alignedRight width text).toList ++ rest).dropWhile (· == ' ') = text.toList ++ rest := by
  rw [alignedRight, String.toList_ofList, List.leftpad, List.append_assoc,
    List.dropWhile_append_of_pos (by simp)]
  cases hlist : text.toList with
  | nil => exact absurd (String.toList_inj.1 hlist) hne
  | cons c cs =>
    rw [hlist, List.mem_cons, not_or] at hblank
    rw [List.cons_append, List.dropWhile_cons_of_neg (by simpa using Ne.symm hblank.1)]

/-- **A padded word that is followed by a blank can be read back**, with what follows. -/
theorem alignedRight_append_inj {a b : String} (ha : a ≠ "" ∧ ' ' ∉ a.toList)
    (hb : b ≠ "" ∧ ' ' ∉ b.toList) (width : Nat) (u v : List Char) :
    (alignedRight width a).toList ++ ' ' :: u = (alignedRight width b).toList ++ ' ' :: v ↔
      a = b ∧ u = v := by
  constructor
  · intro h
    have hwords := congrArg (List.dropWhile (· == ' ')) h
    rw [dropWhile_alignedRight ha.1 ha.2, dropWhile_alignedRight hb.1 hb.2,
      append_cons_inj ha.2 hb.2, String.toList_inj] at hwords
    exact hwords
  · rintro ⟨rfl, rfl⟩
    rfl

/-- A number is a word. -/
theorem toString_word (number : Int) :
    toString number ≠ "" ∧ ' ' ∉ (toString number).toList := by
  refine ⟨?_, not_mem_toString rfl (by decide) number⟩
  cases number with
  | ofNat n => exact Nat.repr_ne_empty
  | negSucc n =>
    show "-" ++ (n + 1).repr ≠ ""
    simp

/-- **Texts that are lines and are not empty are known from what they are joined to**, and so is it
that there are none. -/
theorem joined_inj {a b : List String} (ha : ∀ t ∈ a, OneLine t ∧ t ≠ "")
    (hb : ∀ t ∈ b, OneLine t ∧ t ≠ "") : joined a = joined b ↔ a = b := by
  refine ⟨?_, congrArg joined⟩
  intro h
  have hlines := congrArg lines h
  have hempty : lines (joined []) = [""] := rfl
  have hjoined : ∀ {c : List String}, (∀ t ∈ c, OneLine t ∧ t ≠ "") → c ≠ [] →
      lines (joined c) = c := fun hc hne => lines_joined hne fun t ht => (hc t ht).1
  by_cases hanil : a = []
  · by_cases hbnil : b = []
    · rw [hanil, hbnil]
    · -- the only line of the empty text is empty
      rw [hanil, hempty, hjoined hb hbnil] at hlines
      exact absurd rfl (hb "" (hlines ▸ List.mem_singleton_self _)).2
  · by_cases hbnil : b = []
    · rw [hbnil, hempty, hjoined ha hanil] at hlines
      exact absurd rfl (ha "" (hlines ▸ List.mem_singleton_self _)).2
    · rwa [hjoined ha hanil, hjoined hb hbnil] at hlines

end Text

/-! ## Rows -/

namespace Instruction

/-- Two instructions are shown alike: they have the same operation and the same index, and if they
are brackets, then they have the same depth and the same partner or none. -/
structure ShownAlike (i j : Instruction) : Prop where
  op : i.op = j.op
  index : i.index = j.index
  bracket : i.op.isBracket = true → i.depth = j.depth ∧ i.partner = j.partner

theorem optionalText_inj {m n : Option Int} : optionalText m = optionalText n ↔ m = n := by
  have hword : ∀ k : Int, "None" ≠ toString k := by
    intro k h
    exact Text.not_mem_toString (c := 'N') rfl (by decide) k (h ▸ by decide)
  cases m with
  | none =>
    cases n with
    | none => simp
    | some n => simpa [optionalText] using hword n
  | some m =>
    cases n with
    | none => simpa [optionalText] using (hword m).symm
    | some n => simp [optionalText, Int.toString_eq_repr, Int.repr_inj]

/-- The depth and the partner of a bracket can be read back. -/
theorem bracketText_inj {i j : Instruction} (hop : i.op = j.op) :
    i.bracketText = j.bracketText ↔
      (i.op.isBracket = true → i.depth = j.depth ∧ i.partner = j.partner) := by
  rw [bracketText, bracketText, ← hop]
  cases hbracket : i.op.isBracket with
  | false => simp
  | true =>
    have hcomma : ∀ k : Int, ',' ∉ (toString k).toList :=
      Text.not_mem_toString rfl (by decide)
    rw [if_pos rfl, if_pos rfl, ← String.toList_inj]
    have hlist : ∀ k : Instruction,
        ("(loop=" ++ toString k.depth ++ ", partner=" ++ optionalText k.partner ++ ")").toList =
          "(loop=".toList ++ ((toString k.depth).toList ++ ',' ::
            (" partner=".toList ++ ((optionalText k.partner).toList ++ [')']))) := by
      intro k
      simp
    rw [hlist, hlist, List.append_cancel_left_eq, Text.append_cons_inj (hcomma _) (hcomma _),
      List.append_cancel_left_eq, List.append_cancel_right_eq, String.toList_inj, String.toList_inj,
      optionalText_inj, Int.toString_eq_repr, Int.toString_eq_repr, Int.repr_inj]
    simp

/-- The characters of a row: the index, the symbol, the name and what belongs to a bracket. -/
theorem toList_listing (i : Instruction) :
    i.listing.toList = (Text.alignedRight 5 (toString i.index)).toList ++
      ' ' :: ' ' :: i.op.symbol :: ' ' :: ' ' :: (i.op.name.toList ++ i.bracketText.toList) := by
  simp [listing]

/-- **A row tells what it shows.** -/
theorem listing_inj {i j : Instruction} : i.listing = j.listing ↔ i.ShownAlike j := by
  rw [← String.toList_inj, toList_listing, toList_listing,
    Text.alignedRight_append_inj (Text.toString_word _) (Text.toString_word _)]
  constructor
  · rintro ⟨hindex, hrest⟩
    obtain ⟨hsymbol, hbehind⟩ : i.op.symbol = j.op.symbol ∧
        i.op.name.toList ++ i.bracketText.toList = j.op.name.toList ++ j.bracketText.toList := by
      simpa using hrest
    have hop : i.op = j.op := Op.symbol_injective hsymbol
    -- the same name stands in front of what belongs to a bracket
    rw [hop, List.append_cancel_left_eq, String.toList_inj] at hbehind
    exact ⟨hop, Int.repr_injective hindex, (bracketText_inj hop).1 hbehind⟩
  · rintro ⟨hop, hindex, hbracket⟩
    rw [hop, hindex, (bracketText_inj hop).2 hbracket]
    exact ⟨rfl, rfl⟩

example : (Instruction.mk .openLoop (-1) 0 none none none).listing =
    "   -1  [  OPEN(loop=0, partner=None)" := by decide

theorem oneLine_bracketText (i : Instruction) : Text.OneLine i.bracketText := by
  have hpartner : Text.OneLine (optionalText i.partner) := by
    cases i.partner with
    | none => simp [Text.OneLine, optionalText]
    | some n => exact Text.oneLine_toString n
  have hdepth := Text.oneLine_toString i.depth
  rw [bracketText]
  split
  · simp only [Text.oneLine_append, hdepth, hpartner]
    simp [Text.OneLine]
  · simp [Text.OneLine]

/-- A row holds no line feed. -/
theorem oneLine_listing (i : Instruction) : Text.OneLine i.listing := by
  have hindex := Text.oneLine_alignedRight (Text.oneLine_toString i.index) 5
  have hname : Text.OneLine i.op.symbol.toString ∧ Text.OneLine i.op.name := by
    cases i.op <;> simp [Text.OneLine, Op.symbol, Op.name]
  simp only [listing, Text.oneLine_append, hindex, hname, i.oneLine_bracketText]
  simp [Text.OneLine]

theorem listing_ne_empty (i : Instruction) : i.listing ≠ "" := by
  intro hempty
  have hlist := i.toList_listing
  simp [hempty] at hlist

end Instruction

/-! ## Programs -/

namespace Program

/-- Two programs are shown alike: they have the same number of instructions, and the instructions at
each place are shown alike. -/
structure ShownAlike (p q : Program) : Prop where
  size : p.size = q.size
  instruction : ∀ (n : Nat) (i j : Instruction), p.instructions[n]? = some i →
    q.instructions[n]? = some j → i.ShownAlike j

/-- What is the same for instructions that are shown alike is the same for programs that are. -/
theorem ShownAlike.map_eq {p q : Program} (h : p.ShownAlike q) {α : Type} {f : Instruction → α}
    (hf : ∀ {i j : Instruction}, i.ShownAlike j → f i = f j) :
    p.instructions.toList.map f = q.instructions.toList.map f := by
  apply List.ext_getElem
  · simpa [Program.size] using h.size
  · intro n hp hq
    rw [List.getElem_map, List.getElem_map]
    exact hf (h.instruction n _ _ (by simp) (by simp))

/-- The rows are the same exactly if the instructions are shown alike. -/
theorem map_listing_inj {p q : Program} :
    p.instructions.toList.map Instruction.listing = q.instructions.toList.map Instruction.listing ↔
      p.ShownAlike q := by
  refine ⟨?_, fun h => h.map_eq Instruction.listing_inj.2⟩
  intro h
  constructor
  case size => simpa [size] using congrArg List.length h
  case instruction =>
    intro n i j hi hj
    have hrow := congrArg (fun rows => rows[n]?) h
    simpa [hi, hj, Instruction.listing_inj] using hrow

/-- **A listing tells its rows.** -/
theorem listing_inj {p q : Program} : p.listing = q.listing ↔ p.ShownAlike q := by
  have hrows : ∀ p : Program, ∀ t ∈ p.instructions.toList.map Instruction.listing,
      Text.OneLine t ∧ t ≠ "" := by
    intro p t ht
    obtain ⟨i, -, rfl⟩ := List.mem_map.1 ht
    exact ⟨i.oneLine_listing, i.listing_ne_empty⟩
  rw [listing, listing, Text.joined_inj (hrows p) (hrows q), map_listing_inj]

/-- Programs that are shown alike have the same symbols. -/
theorem ShownAlike.source_eq {p q : Program} (h : p.ShownAlike q) : p.source = q.source := by
  rw [source, source, h.map_eq fun hij => congrArg Op.symbol hij.op]

/-- **Decoded programs that are shown alike are the same up to places.** -/
theorem ShownAlike.unplaced_eq {tokens tokens' : List Token} {source source' : Option String}
    {p q : Program} (h : p.ShownAlike q) (hp : (decode tokens source).outcome = .ok p)
    (hq : (decode tokens' source').outcome = .ok q) : q.unplaced = p.unplaced := by
  have hagain := decode_source hp
  rw [h.source_eq, decode_source hq] at hagain
  exact Except.ok.inj hagain

end Program

/-- **A listing is unambiguous.** The listings of two programs are the same exactly if the programs
have the same number of instructions, and at each place the same operation, the same index and, for
a bracket, the same depth and the same partner or none. So decoded programs with the same listing
have the same symbols and the same jump table, and their runs are the same at each step, on every
machine. -/
theorem listing_unambiguous :
    (∀ p q : Program, p.listing = q.listing ↔ p.ShownAlike q) ∧
      ∀ (tokens tokens' : List Token) (source source' : Option String) (p q : Program),
        (Program.decode tokens source).outcome = .ok p →
        (Program.decode tokens' source').outcome = .ok q → p.listing = q.listing →
          p.source = q.source ∧ p.jumps = q.jumps ∧
            ∀ (m : Machine) (n : Nat) (traced : Bool),
              (m.run q n traced).ending = (m.run p n traced).ending := by
  refine ⟨fun p q => Program.listing_inj, ?_⟩
  intro tokens tokens' source source' p q hp hq hlisting
  have halike := Program.listing_inj.1 hlisting
  have hsame := halike.unplaced_eq hp hq
  refine ⟨halike.source_eq, ?_, run_of_unplaced hsame⟩
  rw [← p.jumps_unplaced, ← hsame, q.jumps_unplaced]

/-- A loop with a remark and without one. -/
theorem listing_unambiguous_remark :
    ∃ p q, (Program.parse "[ -\n] ok").outcome = .ok p ∧
      (Program.decode (Token.ofText "[-]")).outcome = .ok q ∧ p.instructions ≠ q.instructions ∧
      p.listing = q.listing ∧ p.source = q.source ∧ p.jumps = q.jumps ∧
      ∀ (m : Machine) (n : Nat) (traced : Bool),
        (m.run q n traced).ending = (m.run p n traced).ending := by
  have hdecoded : ∃ p q, (Program.parse "[ -\n] ok").outcome = .ok p ∧
      (Program.decode (Token.ofText "[-]")).outcome = .ok q ∧ p.instructions ≠ q.instructions ∧
      p.listing = q.listing :=
    ⟨_, _, rfl, rfl, by decide, rfl⟩
  obtain ⟨p, q, hp, hq, hplaces, hlisting⟩ := hdecoded
  obtain ⟨hsource, hjumps, hruns⟩ := listing_unambiguous.2 _ _ _ _ p q hp hq hlisting
  exact ⟨p, q, hp, hq, hplaces, hlisting, hsource, hjumps, hruns⟩

end TapeLanguage
