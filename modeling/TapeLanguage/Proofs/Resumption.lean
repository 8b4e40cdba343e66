import TapeLanguage.Machine.Session
import TapeLanguage.Proofs.Concatenation
import TapeLanguage.Proofs.UnreadInput

/-!
# Stepping through a program, and resuming a run

A session executes its loaded program one instruction after the other, from its position on
(`Session.steps`). That is what a run does which has come to the same place with the same machine,
except that a run counts its instructions and flushes the output when it finishes. The two stay
together at each instruction (`steps_tracks`), so stepping comes to an end exactly if the run does,
and the ends look the same but for the count (`stepsTo_iff`).

An empty chunk is an end of input that can be passed: the run that meets it fails for want of input,
and the chunks behind it are still to be read. Such a run has taken every chunk before the empty one
(`Run.spent_of_wantsInput`), and the failing instruction has used up the empty chunk and nothing
else (`Run.advance_at_pause`). So the machine stands where a run without the empty chunk passes
(`Machine.passes_of_pause`), and stepping on from the failing instruction comes to the end of that
run (`run_resumes`).
-/

set_option autoImplicit false

namespace TapeLanguage

/-! ## Counting -/

namespace Coupling

/-- The second machine has counted some more instructions, and nothing else differs. -/
def counting (lead : Nat) : Coupling :=
  { ofStreams .same with lead := lead }

theorem instructions_counting (lead : Nat) (i : Instruction) :
    (counting lead).Instructions i i where
  op := rfl
  index := (Int.add_zero i.index).symm
  partner := (show (ofStreams .same).Instructions i i from instructions_ofStreams i).partner

theorem machines_counting (m : Machine) : (counting 0).Machines m m :=
  ⟨rfl, (List.map_id'' Int.add_zero m.resume).symm, rfl, rfl, rfl, rfl, rfl⟩

/-- The second machine counts one instruction more. -/
theorem Machines.counted {lead : Nat} {m m' : Machine} (h : (counting lead).Machines m m') :
    (counting (lead + 1)).Machines m m'.count := by
  obtain ⟨htape, hresume, hbookmark, hsteps, hprogram, hsupply, houtput⟩ := h
  refine ⟨htape, hresume, hbookmark, ?_, hprogram, hsupply, houtput⟩
  rw [Machine.count, hsteps]
  rfl

end Coupling

/-! ## A session beside a run -/

/-- A session as a run that stands where the session does. -/
def Session.asRun (s : Session) (phase : Phase) : Run :=
  ⟨phase, s.position, s.machine, #[]⟩

/-- What stepping has come to, and a run that has executed the same instructions and has counted
them. -/
inductive Tracks (p : Program) : Except Fault (List Visit) × Session → Run → Prop
  /-- Both go on. -/
  | going {visits : List Visit} {s : Session} {m : Machine} {trace : Trace} {lead : Nat}
    (hm : (Coupling.counting lead).Machines s.machine m) :
    Tracks p (.ok visits, s) ⟨.running, s.position, m, trace⟩
  /-- The run has seen that the program is over, and it has flushed the output. -/
  | past {visits : List Visit} {s : Session} {m : Machine} {trace : Trace} {lead : Nat}
    (hpast : p.size ≤ s.position) (hm : (Coupling.counting lead).Machines s.machine m) :
    Tracks p (.ok visits, s) ⟨.finished, s.position, m.flush, trace⟩
  /-- The instruction has failed for both. -/
  | broken {fault : Fault} {s : Session} {m : Machine} {trace : Trace} {lead : Nat}
    (hm : (Coupling.counting lead).Machines s.machine m) :
    Tracks p (.error fault, s) ⟨.failed fault, s.position, m, trace⟩

/-- **Stepping and running stay together** for any number of instructions. -/
theorem steps_tracks (traced : Bool) (count : Nat) {s : Session} {m : Machine} {lead : Nat}
    (visited : List Visit) (trace : Trace) (hm : (Coupling.counting lead).Machines s.machine m) :
    Tracks s.loaded (s.steps count visited)
      (Run.advanceFor s.loaded traced count ⟨.running, s.position, m, trace⟩) := by
  induction count generalizing s m lead visited trace with
  | zero => exact .going hm
  | succ count ih =>
    rw [Session.steps, Run.advanceFor_succ, Run.advance]
    by_cases hlt : s.position < s.loaded.size
    · rw [if_pos hlt, if_pos hlt]
      cases s.loaded.get? s.position with
      | none =>
        rw [Run.advanceFor_of_ended _ _ _ rfl]
        exact .broken hm
      | some i =>
        -- the same instruction is executed by both, and only the run counts it
        have houtcomes := hm.apply (Coupling.instructions_counting lead i)
        dsimp only
        generalize s.machine.apply i = o at houtcomes ⊢
        generalize m.apply i = o' at houtcomes ⊢
        cases houtcomes with
        | moved hnext hmoved =>
          obtain rfl := hnext.trans (Int.add_zero _)
          exact ih (s := { s with machine := _, position := _ }) _ _ hmoved.counted
        | stopped hfault hstopped =>
          obtain rfl := hfault.trans (Fault.shifted_zero _)
          rw [Run.ofOutcome, Run.advanceFor_of_ended _ _ _ rfl]
          exact .broken (s := { s with machine := _ }) hstopped
    · rw [if_neg hlt, if_neg hlt, Run.finish, Run.advanceFor_of_ended _ _ _ rfl]
      exact .past (Int.not_lt.1 hlt) hm

/-! ## Ends -/

/-- The same end, however many instructions have been executed. -/
def Ending.uncounted (e : Ending) : Ending :=
  { e with steps := 0 }

/-- Stepping through the loaded program comes to an end: the position passes the last instruction,
or an instruction fails. How many instructions have been executed is not told. -/
inductive Session.StepsTo (s : Session) : Ending → Prop
  /-- The position has passed the last instruction. -/
  | finished {count : Nat} {visits : List Visit} {s' : Session}
    (hsteps : s.steps count [] = (.ok visits, s')) (hpast : s.loaded.size ≤ s'.position) :
    StepsTo s (s'.asRun .finished).ending.uncounted
  /-- The instruction at the position has failed. -/
  | failed {count : Nat} {fault : Fault} {s' : Session}
    (hsteps : s.steps count [] = (.error fault, s')) :
    StepsTo s (s'.asRun (.failed fault)).ending.uncounted

/-- A run that is under way comes to an end. -/
def Run.Ends (p : Program) (traced : Bool) (r : Run) (e : Ending) : Prop :=
  ∃ n, (advanceFor p traced n r).isRunning = false ∧ (advanceFor p traced n r).ending = e

/-- A run ends as it goes on to end from any of its states. -/
theorem Machine.ends_iff_of_run (m : Machine) (p : Program) (traced : Bool) (j : Nat) (e : Ending) :
    m.Ends p traced e ↔ (m.run p j traced).Ends p traced e := by
  constructor
  · rintro ⟨n, hended, hending⟩
    have hlater : m.run p (j + n) traced = m.run p n traced :=
      Run.advanceFor_of_le (Nat.le_add_left n j) hended
    refine ⟨n, ?_⟩
    rw [← m.run_add p j n traced, hlater]
    exact ⟨hended, hending⟩
  · rintro ⟨n, hended, hending⟩
    refine ⟨j + n, ?_⟩
    rw [m.run_add p j n traced]
    exact ⟨hended, hending⟩

section Ends

variable {s : Session} {m : Machine} {lead : Nat} {phase : Phase} {trace : Trace}

theorem uncounted_eq (hm : (Coupling.counting lead).Machines s.machine m) :
    (Run.mk phase s.position m trace).ending.uncounted = (s.asRun phase).ending.uncounted := by
  have hsupply : m.supply = s.machine.supply := Eq.symm hm.supply
  have houtput : m.output = s.machine.output := Eq.symm hm.output
  simp only [Run.ending, Ending.uncounted, Session.asRun, hm.tape, hsupply, houtput]

/-- Flushing is not seen. -/
theorem uncounted_flush (hm : (Coupling.counting lead).Machines s.machine m) :
    (Run.mk phase s.position m.flush trace).ending.uncounted =
      (s.asRun phase).ending.uncounted := by
  rw [← @uncounted_eq s m lead phase trace hm]
  simp only [Run.ending, Machine.flush, Machine.supply, Output.contents_flush]

/-- **Stepping comes to the ends of the run** that stands at the same place. -/
theorem stepsTo_iff (traced : Bool) (trace : Trace)
    (hm : (Coupling.counting lead).Machines s.machine m) (e : Ending) :
    s.StepsTo e ↔
      ∃ e', (Run.mk .running s.position m trace).Ends s.loaded traced e' ∧ e'.uncounted = e := by
  constructor
  · intro h
    cases h with
    | @finished count visits s' hsteps hpast =>
      have htracks := steps_tracks traced count [] trace hm
      rw [hsteps] at htracks
      generalize hr : Run.advanceFor s.loaded traced count ⟨.running, s.position, m, trace⟩ = r
        at htracks
      cases htracks with
      | @going _ _ m' trace' _ hm' =>
        -- the run has still to see that the program is over
        have hlast : Run.advanceFor s.loaded traced (count + 1) ⟨.running, s.position, m, trace⟩ =
            .finish traced s'.position m' trace' := by
          rw [Run.advanceFor_succ_last, hr, Run.advance, if_neg (Int.not_lt.2 hpast)]
        refine ⟨_, ⟨count + 1, ?_, rfl⟩, ?_⟩
        · rw [hlast]
          rfl
        · rw [hlast]
          exact uncounted_flush hm'
      | past _ hm' =>
        refine ⟨_, ⟨count, ?_, rfl⟩, ?_⟩
        · rw [hr]
          rfl
        · rw [hr]
          exact uncounted_flush hm'
    | @failed count fault s' hsteps =>
      have htracks := steps_tracks traced count [] trace hm
      rw [hsteps] at htracks
      generalize hr : Run.advanceFor s.loaded traced count ⟨.running, s.position, m, trace⟩ = r
        at htracks
      cases htracks with
      | broken hm' =>
        refine ⟨_, ⟨count, ?_, rfl⟩, ?_⟩
        · rw [hr]
          rfl
        · rw [hr]
          exact uncounted_eq hm'
  · rintro ⟨_, ⟨n, hended, rfl⟩, rfl⟩
    have htracks := steps_tracks traced n [] trace hm
    generalize hsteps : s.steps n [] = reached at htracks
    generalize Run.advanceFor s.loaded traced n ⟨.running, s.position, m, trace⟩ = r
      at hended htracks ⊢
    cases htracks with
    | going _ => exact Bool.noConfusion hended
    | past hpast hm' =>
      rw [uncounted_flush hm']
      exact .finished hsteps hpast
    | broken hm' =>
      rw [uncounted_eq hm']
      exact .failed hsteps

end Ends

/-! ## Resuming a run -/

open Program

/-- The machine with chunks to read. -/
def Machine.fed (m : Machine) (chunks : List (List UInt8)) : Machine :=
  { m with input := .chunks chunks }

/-! ## At an empty chunk -/

/-- An instruction that lacks input names its own position. -/
theorem StopsWith.position_of_exhausted {p : Program} {input : Input} {tape : Tape}
    {position k : Int} (h : StopsWith p input tape position (.inputExhausted k)) :
    position = k := by
  generalize hfault : Fault.inputExhausted k = fault at h
  cases h with
  | @lacking n i lack hi hop hlacks =>
    cases lack with
    | ended => exact (Fault.inputExhausted.inj hfault).symm
    | unencodable s | interrupted | refused => exact Fault.noConfusion hfault
  | offLeft hi hop hpointer | offRight hi hop hpointer => exact Fault.noConfusion hfault

namespace Run

variable {p : Program} {traced : Bool} {r : Run}

/-- **A run that meets an empty chunk fails for want of input.** The empty chunk is used up, and the
machine is the same otherwise. -/
theorem advance_at_pause (traced : Bool) (hwants : r.wantsInput p = true)
    (hinput : r.machine.input = .chunks []) (more : List (List UInt8)) :
    ∃ k noted, advance p traced (r.followedBy (.chunks ([] :: more))) =
      ⟨.failed (.inputExhausted k), r.position, r.machine.followedBy (.chunks more), noted⟩ := by
  obtain ⟨i, hi, hop, hnil⟩ := wantsInput_iff.1 hwants
  have hqueue : r.machine.queue = [] := (List.append_eq_nil_iff.1 hnil).1
  -- the next instruction does not depend on the input
  have hnext : next? p (r.followedBy (.chunks ([] :: more))) = some i := hi
  obtain ⟨noted, hadvance⟩ := advance_of_next traced hnext
  have hsupply : (r.machine.followedBy (.chunks ([] :: more))).supply =
      ⟨[], .chunks ([] :: more)⟩ := by
    rw [Machine.followedBy, Machine.supply, hinput, hqueue]
    rfl
  refine ⟨i.index, noted, ?_⟩
  rw [hadvance, followedBy, Machine.apply_of_input _ hop, hsupply]
  obtain ⟨phase, position, m, trace⟩ := r
  obtain ⟨tape, resume, bookmark, steps, program, queue, input, output⟩ := m
  obtain rfl : queue = [] := hqueue
  obtain rfl : input = .chunks [] := hinput
  rfl

end Run

namespace Machine

variable {p : Program} {m : Machine} {n : Nat} {traced : Bool} {k : Int}

/-- A run that lacks input stands at the instruction that lacks it. -/
theorem position_of_exhausted {tokens : List Token} (h : Decodes tokens p)
    (hlacks : (m.run p n traced).phase = .failed (.inputExhausted k)) :
    (m.run p n traced).position = k := by
  rcases m.run_cases h n traced #[] with ⟨hphase, -⟩ | hphase | ⟨fault, hphase, hstops⟩
  · exact Phase.noConfusion (hlacks.symm.trans hphase)
  · exact Phase.noConfusion (hlacks.symm.trans hphase)
  · obtain rfl := Phase.failed.inj (hlacks.symm.trans hphase)
    exact hstops.position_of_exhausted

/-- **The run without the empty chunk passes where the run with it stops**, and there it has the
machine that has stopped. -/
theorem passes_of_pause {before behind : List (List UInt8)} (hfull : ∀ chunk ∈ before, chunk ≠ [])
    (hlacks : ((m.fed (before ++ [] :: behind)).run p n traced).phase =
      .failed (.inputExhausted k)) :
    let stopped := (m.fed (before ++ [] :: behind)).run p n traced
    stopped.machine.input = .chunks behind ∧ ∃ j trace,
      (m.fed (before ++ behind)).run p j traced =
        ⟨.running, stopped.position, stopped.machine, trace⟩ := by
  intro stopped
  change stopped.phase = _ at hlacks
  have hsteady : (Run.start (m.fed before) p #[]).machine.input.Steady := hfull
  -- both runs are the run on the chunks before the empty one, with other chunks behind
  have hstopped : stopped = Run.advanceFor p traced n
      ((Run.start (m.fed before) p #[]).followedBy (.chunks ([] :: behind))) := rfl
  rcases Run.first_want_or_none p traced n (.start (m.fed before) p #[]) with
    hnone | ⟨j, hj, hwants, hbefore⟩
  · -- the chunks before the empty one would do for all the run
    refine absurd ?_ (Run.not_exhausted_of_advanceFor n hsteady nofun hnone)
    rw [hstopped, Run.advanceFor_followedBy n _ hnone] at hlacks
    exact ⟨k, hlacks⟩
  · obtain ⟨-, hspent⟩ := Run.spent_of_wantsInput j hsteady hwants
    have hpause := Run.advanceFor_followedBy j (.chunks ([] :: behind)) hbefore
    have hpass := Run.advanceFor_followedBy j (.chunks behind) hbefore
    have hrunning := Run.phase_of_wantsInput hwants
    generalize Run.advanceFor p traced j (.start (m.fed before) p #[]) = r
      at hwants hspent hpause hpass hrunning
    obtain ⟨k', noted, hadvance⟩ := Run.advance_at_pause traced hwants hspent behind
    rw [← hpause, ← Run.advanceFor_succ_last] at hadvance
    have hreached : stopped = ⟨.failed (.inputExhausted k'), r.position,
        r.machine.followedBy (.chunks behind), noted⟩ := by
      rw [hstopped, Run.advanceFor_of_le hj (by rw [hadvance]; rfl), hadvance]
    rw [hreached]
    constructor
    · show r.machine.input.followedBy _ = _
      rw [hspent]
      rfl
    · refine ⟨j, r.trace, ?_⟩
      rw [← hrunning]
      exact hpass

end Machine

/-! ## Going on -/

/-- **A run that has lacked input is resumed exactly.** A run on chunks fails for want of input at
the empty one among them. It stands at the input instruction that has failed, with the chunks behind
the empty one unread; and stepping on from there comes to the ends to which a run without the empty
chunk comes from the beginning, with the same tape, output and unread input, or with the same fault
at the same position. In particular one of them ends if the other one does. -/
theorem run_resumes {tokens : List Token} {source : Option String} {p : Program}
    (hp : (decode tokens source).outcome = .ok p) (m : Machine) {before : List (List UInt8)}
    (hfull : ∀ chunk ∈ before, chunk ≠ []) (behind : List (List UInt8)) (n : Nat) (traced : Bool)
    {k : Int}
    (hlacks : ((m.fed (before ++ [] :: behind)).run p n traced).phase =
      .failed (.inputExhausted k)) :
    let stopped := (m.fed (before ++ [] :: behind)).run p n traced
    stopped.position = k ∧ stopped.machine.input = .chunks behind ∧
      ∀ e, Session.StepsTo { machine := stopped.machine, loaded := p, position := k } e ↔
        ∃ e', (m.fed (before ++ behind)).Ends p traced e' ∧ e'.uncounted = e := by
  intro stopped
  have hposition : stopped.position = k :=
    Machine.position_of_exhausted (decodes_of_decode hp) hlacks
  obtain ⟨hinput, j, trace, hpasses⟩ := Machine.passes_of_pause hfull hlacks
  change _ = Run.mk .running stopped.position stopped.machine trace at hpasses
  rw [hposition] at hpasses
  refine ⟨hposition, hinput, ?_⟩
  intro e
  rw [stepsTo_iff traced trace (Coupling.machines_counting stopped.machine)]
  simp only [Machine.ends_iff_of_run _ p traced j, hpasses]

/-- A loop that copies its input meets an empty chunk at its second character. Stepping on from
there, inside the loop, copies the chunk behind as well. -/
theorem run_resumes_copying : ∃ p, (decode (Token.ofText ",[.,]")).outcome = .ok p ∧
    let stopped := ((Machine.new .empty (.bytes #[] 0)).fed [[7], [], [8], [0]]).run p 9
    stopped.phase = .failed (.inputExhausted 3) ∧ stopped.machine.resume = [2] ∧
      ∃ e, Session.StepsTo { machine := stopped.machine, loaded := p, position := 3 } e ∧
        e.phase = .finished ∧ e.position = 5 ∧ e.written = [7, 8] ∧
          e.supply = ⟨[], .chunks []⟩ := by
  have hruns : ∃ p, (decode (Token.ofText ",[.,]")).outcome = .ok p ∧
      let start := Machine.new .empty (.bytes #[] 0)
      let stopped := (start.fed [[7], [], [8], [0]]).run p 9
      let whole := (start.fed [[7], [8], [0]]).run p 10
      (stopped.phase = .failed (.inputExhausted 3) ∧ stopped.machine.resume = [2]) ∧
        whole.phase = .finished ∧ whole.position = 5 ∧ whole.machine.output.contents = [7, 8] ∧
        whole.machine.supply = ⟨[], .chunks []⟩ :=
    ⟨_, rfl, ⟨rfl, rfl⟩, rfl, rfl, rfl, rfl⟩
  obtain ⟨p, hp, ⟨hlacks, hresume⟩, hfinished, hposition, hwritten, hleft⟩ := hruns
  refine ⟨p, hp, hlacks, hresume,
    (((Machine.new .empty (.bytes #[] 0)).fed [[7], [8], [0]]).run p 10).ending.uncounted,
    ?_, hfinished, hposition, hwritten, hleft⟩
  have hfull : ∀ chunk ∈ [[(7 : UInt8)]], chunk ≠ [] := by decide
  have hresumes := run_resumes hp (.new .empty (.bytes #[] 0)) hfull [[8], [0]] 9 false hlacks
  refine (hresumes.2.2 _).2 ⟨_, ⟨10, ?_, rfl⟩, rfl⟩
  show Run.isRunning (((Machine.new .empty (.bytes #[] 0)).fed [[7], [8], [0]]).run p 10) = false
  rw [Run.isRunning, hfinished]

end TapeLanguage
