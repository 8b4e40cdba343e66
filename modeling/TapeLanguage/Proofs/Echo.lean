import TapeLanguage.Proofs.Completed
import TapeLanguage.Proofs.InTurn
import TapeLanguage.Proofs.Refinement
import TapeLanguage.Proofs.StreamKinds

/-!
# The echo

The program `,[.,]` writes what it reads, up to a zero byte (`Code.evaluates_echo`). So on every
kind of input a run of it writes the bytes before the first zero byte and leaves those behind it
(`Machine.run_echo`).

On streams of bytes this is all: the bytes are written as they were read. A text is read as the
bytes that encode it, and none of them is zero unless the text has a null character
(`Text.zero_notMem_utf8`). But to a text each byte is written as the character of that code point
(`Output.spelled`), and so a text is reproduced exactly if it has no character beyond ASCII
(`Output.spelled_utf8_eq_iff`, `execute_echo`).
-/

set_option autoImplicit false

namespace TapeLanguage

/-! ## The code -/

/-- Read a byte, and as long as it is not zero write it and read the next one. -/
def Code.echo : Code :=
  .seq (.single .input) (.loop (.seq (.single .output) (.single .input)))

/-- The store after an echo: the bytes are written, those behind the zero byte are left, and the
zero byte is in the cell. -/
def Store.echoed (s : Store) (b rest : List UInt8) : Store :=
  { s.put 0 with input := rest, output := s.output ++ b }

/-- A byte that is stored is replaced by the next one. -/
theorem Store.put_put (s : Store) (x y : UInt8) : (s.put x).put y = s.put y := by
  simp only [put, Store.mk.injEq, and_true]
  funext i
  split <;> rfl

theorem Store.cell_put (s : Store) (x : UInt8) : (s.put x).cell = x :=
  if_pos rfl

/-- A byte that is read is written by the loop, unless it is zero, and then the next one is read. -/
theorem Code.evaluates_echo_loop (start : Nat) {b rest : List UInt8} {s : Store}
    (hinput : s.input = b ++ 0 :: rest) (hzero : 0 ∉ b) :
    ∃ s', Action.input.step s = .ok s' ∧
      Evaluates start (.loop (.seq (.single .output) (.single .input))) s' (3 * b.length + 1)
        (.done (s.echoed b rest)) := by
  induction b generalizing s with
  | nil =>
    refine ⟨{ s.put 0 with input := rest }, ?_, ?_⟩
    · simp only [Action.step, Action.read, hinput, List.nil_append]
    · have hechoed : s.echoed [] rest = { s.put 0 with input := rest } := by
        simp only [Store.echoed, List.append_nil]
        rfl
      rw [hechoed]
      exact .loopExit (s.cell_put 0)
  | cons x b ih =>
    rw [List.mem_cons, not_or] at hzero
    obtain ⟨hx, hzero⟩ := hzero
    let read : Store := { s.put x with input := b ++ 0 :: rest }
    have hcell : read.cell = x := s.cell_put x
    refine ⟨read, ?_, ?_⟩
    · simp only [Action.step, Action.read, hinput, List.cons_append]
      rfl
    · let written : Store := { read with output := s.output ++ [x] }
      have hwrite : Action.output.step read = .ok written := by
        rw [Action.step, hcell]
        rfl
      obtain ⟨s', hread, hloop⟩ := ih (s := written) rfl hzero
      have hechoed : written.echoed b rest = s.echoed (x :: b) rest := by
        have hcells : ((s.put x).put 0).cells = (s.put 0).cells := by
          rw [s.put_put x 0]
        change (written.put 0).cells = (s.put 0).cells at hcells
        show Store.mk (written.put 0).cells s.pointer rest (s.output ++ [x] ++ b) = _
        rw [hcells, List.append_assoc]
        rfl
      rw [hechoed] at hloop
      have hpass := Evaluates.loopPass (by rw [hcell]; exact Ne.symm hx)
        (.seq (.single hwrite) (.single hread)) hloop
      have hsteps : 1 + (1 + 1) + (3 * b.length + 1) = 3 * (x :: b).length + 1 := by
        rw [List.length_cons]
        omega
      rwa [hsteps] at hpass

/-- **The echo writes the bytes before the first zero byte** and leaves those behind it. -/
theorem Code.evaluates_echo {b rest : List UInt8} {s : Store} (hinput : s.input = b ++ 0 :: rest)
    (hzero : 0 ∉ b) : Evaluates 0 echo s (3 * b.length + 2) (.done (s.echoed b rest)) := by
  obtain ⟨s', hread, hloop⟩ := evaluates_echo_loop (0 + 1) hinput hzero
  have hecho := Evaluates.seq (.single hread) hloop
  rwa [Nat.add_comm] at hecho

/-! ## Runs -/

/-- A run that has ended after some steps has ended once it may take more. -/
theorem Run.advanceFor_eq_of_steps_lt {p : Program} {traced : Bool} {r : Run} {limit fuel n : Nat}
    (hended : (advanceFor p traced limit r).isRunning = false)
    (hsteps : (advanceFor p traced limit r).machine.steps = r.machine.steps + n) (hn : n < fuel) :
    advanceFor p traced fuel r = advanceFor p traced limit r := by
  cases hrunning : (advanceFor p traced fuel r).isRunning with
  | false => exact advanceFor_eq_of_ended hrunning hended
  | true =>
    -- a run that goes on has taken more steps already
    have hmore := steps_of_running hrunning
    rcases Nat.le_total limit fuel with hle | hle
    · rw [advanceFor_of_le hle hended, hsteps] at hmore
      omega
    · obtain ⟨k, rfl⟩ := Nat.exists_eq_add_of_le hle
      rw [advanceFor_add, steps_completed, hmore] at hsteps
      omega

/-- **On every kind of input a run of the echo writes the bytes before the first zero byte** and
leaves those behind it. -/
theorem Machine.run_echo {p : Program} (hp : Placed p 0 .echo) (hsize : Code.echo.size = p.size)
    {m : Machine} (hin : m.input.Steady) {b rest : List UInt8}
    (hbytes : m.supply.bytes = b ++ 0 :: rest) (hzero : 0 ∉ b) {fuel : Nat}
    (hfuel : 3 * b.length + 2 < fuel) (traced : Bool) (trace : Trace) :
    (m.run p fuel traced trace).EndsWith (3 * b.length + 2) (.done (m.store.echoed b rest)) := by
  obtain ⟨limit, hends⟩ := (Code.evaluates_echo hbytes hzero).endsWith hp hsize hin traced trace
  have hsteps : (Run.start m p trace).machine.steps + (3 * b.length + 2) = 3 * b.length + 2 :=
    Nat.zero_add _
  rw [Machine.run, Run.advanceFor_eq_of_steps_lt hends.ended (hends.steps.trans hsteps.symm) hfuel]
  exact hends

/-! ## Texts -/

/-- A text output that has taken some bytes. -/
def Output.spelled (bytes : List UInt8) : Output :=
  .text (bytes.map fun b => Char.ofNat b.toNat).toArray

namespace Output

theorem write_spelled (bytes : List UInt8) (b : UInt8) :
    (spelled bytes).write b = spelled (bytes ++ [b]) := by
  simp [spelled, write]

/-- The bytes of a text output are the code points of its characters. -/
theorem contents_spelled (bytes : List UInt8) : (spelled bytes).contents = bytes := by
  have hbyte : ∀ b : UInt8, (Char.ofNat b.toNat).toNat.toUInt8 = b := by
    intro b
    have hwrite := contents_write (.text #[]) b
    simpa [write, contents] using hwrite
  simp [spelled, contents, Function.comp_def, hbyte]

end Output

namespace Text

/-- The bytes that encode a text. -/
def utf8 (cs : List Char) : List UInt8 :=
  cs.flatMap String.utf8EncodeChar

/-- A character of ASCII is encoded in one byte. -/
theorem utf8EncodeChar_of_lt {c : Char} (hc : c.toNat < 128) :
    String.utf8EncodeChar c = [UInt8.ofNat c.toNat] :=
  if_pos (Nat.le_of_lt_succ hc)

/-- The bytes of a character beyond ASCII are beyond ASCII. -/
theorem le_of_mem_utf8EncodeChar {c : Char} (hc : 128 ≤ c.toNat) {b : UInt8}
    (hb : b ∈ String.utf8EncodeChar c) : 128 ≤ b.toNat := by
  have hascii : ¬ c.val.toNat ≤ 127 := Nat.not_le_of_lt hc
  simp only [String.utf8EncodeChar, hascii, if_false] at hb
  -- the leading byte and the bytes that follow it have their highest bit set
  have hhigh : ∀ n, 128 ≤ n % 256 → 128 ≤ (UInt8.ofNat n).toNat := by
    intro n hn
    rwa [UInt8.toNat_ofNat']
  split at hb
  · simp only [List.mem_cons, List.not_mem_nil, or_false] at hb
    rcases hb with rfl | rfl <;> exact hhigh _ (by omega)
  · split at hb
    · simp only [List.mem_cons, List.not_mem_nil, or_false] at hb
      rcases hb with rfl | rfl | rfl <;> exact hhigh _ (by omega)
    · simp only [List.mem_cons, List.not_mem_nil, or_false] at hb
      rcases hb with rfl | rfl | rfl | rfl <;> exact hhigh _ (by omega)

/-- A text without a null character has no zero byte. -/
theorem zero_notMem_utf8 {cs : List Char} (h : '\x00' ∉ cs) : 0 ∉ utf8 cs := by
  intro hzero
  obtain ⟨c, hc, hmem⟩ := List.mem_flatMap.1 hzero
  rcases Nat.lt_or_ge c.toNat 128 with hlt | hge
  · rw [utf8EncodeChar_of_lt hlt, List.mem_singleton] at hmem
    have hnull : c.toNat = 0 := by
      rw [← UInt8.toNat_ofNat_of_lt' (Nat.lt_trans hlt (by decide)), ← hmem]
      rfl
    rw [← c.ofNat_toNat, hnull] at hc
    exact h hc
  · exact absurd (le_of_mem_utf8EncodeChar hge hmem) (by decide)

/-- Each character is encoded in at least one byte. -/
theorem length_le_utf8 (cs : List Char) : cs.length ≤ (utf8 cs).length := by
  induction cs with
  | nil => exact Nat.le_refl 0
  | cons c cs ih =>
    have hpos := c.utf8Size_pos
    rw [utf8, List.flatMap_cons, List.length_append, String.length_utf8EncodeChar,
      List.length_cons, ← utf8]
    omega

/-- A text is encoded in as many bytes as it has characters only if all of them are of ASCII. -/
theorem lt_of_length_utf8 {cs : List Char} (h : (utf8 cs).length = cs.length) :
    ∀ c ∈ cs, c.toNat < 128 := by
  induction cs with
  | nil => exact fun _ hc => absurd hc List.not_mem_nil
  | cons c cs ih =>
    have hpos := c.utf8Size_pos
    have hrest := length_le_utf8 cs
    rw [utf8, List.flatMap_cons, List.length_append, String.length_utf8EncodeChar,
      List.length_cons, ← utf8] at h
    have hone : c.utf8Size = 1 := by omega
    intro d hd
    rcases List.mem_cons.1 hd with rfl | hd
    · exact Nat.lt_succ_of_le (UInt32.le_iff_toNat_le.1 (Char.utf8Size_eq_one_iff.1 hone))
    · exact ih (by omega) d hd

/-- Read as code points, the bytes of a text of ASCII are its characters. -/
theorem map_utf8 {cs : List Char} (h : ∀ c ∈ cs, c.toNat < 128) :
    (utf8 cs).map (fun b => Char.ofNat b.toNat) = cs := by
  induction cs with
  | nil => rfl
  | cons c cs ih =>
    have hc := h c List.mem_cons_self
    have hchar : Char.ofNat (UInt8.ofNat c.toNat).toNat = c := by
      rw [UInt8.toNat_ofNat_of_lt' (Nat.lt_trans hc (by decide)), c.ofNat_toNat]
    rw [utf8, List.flatMap_cons, utf8EncodeChar_of_lt hc, List.singleton_append, List.map_cons,
      hchar, ← utf8, ih fun d hd => h d (List.mem_cons_of_mem c hd)]

end Text

/-- **The bytes of a text spell it exactly if all its characters are of ASCII.** -/
theorem Output.spelled_utf8_eq_iff (cs : List Char) :
    spelled (Text.utf8 cs) = .text cs.toArray ↔ ∀ c ∈ cs, c.toNat < 128 := by
  rw [spelled, Output.text.injEq]
  constructor
  · intro h
    have hlength := congrArg List.length (List.toArray_inj h)
    rw [List.length_map] at hlength
    exact Text.lt_of_length_utf8 hlength
  · intro h
    rw [Text.map_utf8 h]

/-- A text output stays one, and its characters are the bytes that it has taken. -/
theorem Run.spelled_advanceFor (p : Program) (traced : Bool) (n : Nat) {r : Run}
    (hr : ∃ bytes, r.machine.output = .spelled bytes) :
    ∃ bytes, (advanceFor p traced n r).machine.output = .spelled bytes := by
  refine machine_invariant (P := fun m => ∃ bytes, m.output = .spelled bytes) ?_
    (fun _ h => h) ?_ p traced n hr
  · rintro m i ⟨bytes, hbytes⟩
    by_cases hop : i.op = .output
    · refine ⟨bytes ++ [m.tape.read], ?_⟩
      rw [Machine.apply, hop]
      show (m.output.write m.tape.read).flush = _
      rw [hbytes, Output.write_spelled]
      rfl
    · rw [m.output_apply hop]
      exact ⟨bytes, hbytes⟩
  · rintro m ⟨bytes, hbytes⟩
    refine ⟨bytes, ?_⟩
    rw [Machine.flush, hbytes]
    rfl

/-! ## The program -/

/-- **On every kind of input the text of the echo writes the bytes before the first zero byte** and
leaves those behind it. -/
theorem exists_execute_echo (input : Input) (hin : input.unwrapped.Steady)
    {b rest : List UInt8} (hcontents : input.unwrapped.contents = b ++ 0 :: rest) (hzero : 0 ∉ b)
    {fuel : Nat} (hfuel : 3 * b.length + 2 < fuel) (output : Output) (traced : Bool)
    (before : Trace) :
    ∃ p trace, let r := (Machine.new input output).run p fuel traced trace
      execute ⟨input, output, fuel, traced⟩ ",[.,]" before = .ran p r ∧ r.phase = .finished ∧
        r.machine.output.contents = output.contents ++ b ∧ r.machine.supply.bytes = rest := by
  have hparsed : ∃ p, (Program.parse ",[.,]").outcome = .ok p := ⟨_, rfl⟩
  obtain ⟨p, hp⟩ := hparsed
  obtain ⟨hplaced, hsize⟩ := placed_of_parse (c := .echo) hp rfl
  obtain ⟨trace, hexecute⟩ : ∃ trace, execute ⟨input, output, fuel, traced⟩ ",[.,]" before =
      .ran p ((Machine.new input output).run p fuel traced trace) := by
    rw [execute, hp]
    exact ⟨_, rfl⟩
  have hends := (Machine.new input output).run_echo hplaced hsize hin hcontents hzero hfuel
    traced trace
  refine ⟨p, trace, hexecute, hends.phase, ?_, ?_⟩
  · have hwritten := congrArg Store.output hends.store
    exact hwritten.trans (congrArg (· ++ b) output.contents_unwrapped)
  · exact congrArg Store.input hends.store

/-- From a stream of bytes the echo leaves exactly the bytes behind the first zero byte. -/
theorem exists_execute_echo_bytes {input : Input} {b rest : List UInt8}
    (hinput : input.unwrapped = .bytes (b ++ 0 :: rest)) (hzero : 0 ∉ b) {fuel : Nat}
    (hfuel : 3 * b.length + 2 < fuel) (output : Output) (traced : Bool) (before : Trace) :
    ∃ p r, execute ⟨input, output, fuel, traced⟩ ",[.,]" before = .ran p r ∧
      r.phase = .finished ∧ r.machine.output.contents = output.contents ++ b ∧
      r.machine.supply = ⟨[], .bytes rest⟩ := by
  obtain ⟨p, trace, hexecute, hphase, hwritten, hleft⟩ := exists_execute_echo input
    (by rw [hinput]; trivial) (by rw [hinput]; rfl) hzero hfuel output traced before
  refine ⟨p, _, hexecute, hphase, hwritten, ?_⟩
  -- no byte waits
  obtain ⟨left, hsupply⟩ := Run.supply_invariant (P := fun s => ∃ left, s = ⟨[], .bytes left⟩)
    (fun s ⟨left, hs⟩ => ⟨left.tail, hs ▸ Supply.fetch_standard false left⟩) p traced fuel
    (r := .start (.new input output) p trace) ⟨_, congrArg (Supply.mk []) hinput⟩
  change Machine.supply (Machine.run _ p fuel traced trace).machine = _ at hsupply
  rw [hsupply] at hleft ⊢
  rw [show left = rest from hleft]

/-- From a text to a text the echo writes the bytes of the text as characters. -/
theorem exists_execute_echo_text {t : String} (hnull : '\x00' ∉ t.toList) {fuel : Nat}
    (hfuel : 3 * t.utf8ByteSize + 2 < fuel) (traced : Bool) (before : Trace) :
    ∃ p r, execute ⟨.text (t.toList ++ ['\x00']), .text #[], fuel, traced⟩ ",[.,]" before =
        .ran p r ∧ r.phase = .finished ∧ r.machine.output = .spelled (Text.utf8 t.toList) := by
  have hutf8 : Text.utf8 t.toList = t.toUTF8.data.toList := by
    rw [← Input.contents_toList, Input.contents_text, Text.utf8]
  have hcontents : (Input.text (t.toList ++ ['\x00'])).contents =
      Text.utf8 t.toList ++ 0 :: [] := by
    rw [Input.contents_text, List.flatMap_append]
    rfl
  have hlength : (Text.utf8 t.toList).length = t.utf8ByteSize := by
    rw [hutf8]
    rfl
  obtain ⟨p, trace, hexecute, hphase, hwritten, -⟩ := exists_execute_echo
    (.text (t.toList ++ ['\x00'])) (Input.steady_text _) hcontents (Text.zero_notMem_utf8 hnull)
    (by rwa [hlength]) (.text #[]) traced before
  obtain ⟨bytes, hbytes⟩ := Run.spelled_advanceFor p traced fuel
    (r := .start (.new (.text (t.toList ++ ['\x00'])) (.text #[])) p trace) ⟨[], rfl⟩
  change (Machine.run _ p fuel traced trace).machine.output = _ at hbytes
  rw [hbytes, Output.contents_spelled] at hwritten
  obtain rfl : bytes = Text.utf8 t.toList := hwritten
  exact ⟨p, _, hexecute, hphase, hbytes⟩

/-- **The echo reproduces bytes, and texts of ASCII.** From a stream of bytes it writes the bytes
before the first zero byte to any output, and it leaves exactly those behind it. From a text to a
text it writes the bytes that encode the text as characters, and these are the characters of the
text exactly if all of them are of ASCII. -/
theorem execute_echo {b : List UInt8} (hzero : 0 ∉ b) {t : String} (hnull : '\x00' ∉ t.toList)
    {fuel : Nat} (hb : 3 * b.length + 2 < fuel) (ht : 3 * t.utf8ByteSize + 2 < fuel)
    (traced : Bool) (before : Trace) :
    (∀ (input : Input) (rest : List UInt8) (output : Output),
      input.unwrapped = .bytes (b ++ 0 :: rest) →
      ∃ p r, execute ⟨input, output, fuel, traced⟩ ",[.,]" before = .ran p r ∧
        r.phase = .finished ∧ r.machine.output.contents = output.contents ++ b ∧
        r.machine.supply = ⟨[], .bytes rest⟩) ∧
    ∃ p r, execute ⟨.text (t.toList ++ ['\x00']), .text #[], fuel, traced⟩ ",[.,]" before =
        .ran p r ∧ r.phase = .finished ∧
      r.machine.output = .spelled t.toUTF8.data.toList ∧
      (r.machine.output = .text t.toList.toArray ↔ ∀ c ∈ t.toList, c.toNat < 128) := by
  constructor
  · intro input rest output hinput
    exact exists_execute_echo_bytes hinput hzero hb output traced before
  · obtain ⟨p, r, hexecute, hphase, hwritten⟩ := exists_execute_echo_text hnull ht traced before
    refine ⟨p, r, hexecute, hphase, ?_, ?_⟩
    · rw [hwritten, ← Input.contents_toList, Input.contents_text, Text.utf8]
    · rw [hwritten]
      exact Output.spelled_utf8_eq_iff t.toList

/-- Two bytes in front of a zero byte and another one, from a text over a buffer, and a text of
ASCII. -/
theorem execute_echo_ascii : 0 ∉ [(7 : UInt8), 200] ∧ '\x00' ∉ "hi".toList ∧
    (∃ p r, execute ⟨.wrapped [7, 200, 0, 9], .bytes #[] 0, 9, false⟩ ",[.,]" = .ran p r ∧
      r.phase = .finished ∧ r.machine.output.contents = [7, 200] ∧
      r.machine.supply = ⟨[], .bytes [9]⟩) ∧
    ∃ p r, execute ⟨.text ("hi".toList ++ ['\x00']), .text #[], 9, false⟩ ",[.,]" = .ran p r ∧
      r.phase = .finished ∧ r.machine.output = .text "hi".toList.toArray := by
  have hzero : 0 ∉ [(7 : UInt8), 200] := by decide
  have hnull : '\x00' ∉ "hi".toList := by decide
  obtain ⟨hbytes, q, u, hran', hphase', -, hiff⟩ :=
    execute_echo hzero hnull (by decide : 3 * 2 + 2 < 9) (by decide) false #[]
  obtain ⟨p, r, hran, hphase, hwritten, hleft⟩ :=
    hbytes (.wrapped [7, 200, 0, 9]) [9] (.bytes #[] 0) rfl
  exact ⟨hzero, hnull, ⟨p, r, hran, hphase, hwritten, hleft⟩, q, u, hran', hphase',
    hiff.2 (by simp)⟩

/-- A character beyond ASCII is read as two bytes and comes out as two characters. -/
theorem execute_echo_not_ascii : ∃ p r,
    execute ⟨.text ("é".toList ++ ['\x00']), .text #[], 9, false⟩ ",[.,]" = .ran p r ∧
      r.phase = .finished ∧ r.machine.output = .text "Ã©".toList.toArray ∧
      r.machine.output ≠ .text "é".toList.toArray :=
  ⟨_, _, rfl, rfl, rfl, by decide⟩

end TapeLanguage
