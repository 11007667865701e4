/-
  Mandate.Proofs.TypeSoundness

  What can go wrong in programs that come from a source.

    * A program that assigns to no element computes only values that are what
      their datatypes say, and so do its variables hold, at every point of every
      run. The one fault it can end in is a text that spells a whole number
      beyond the range (`fits_unless_element_assigned`).
    * Any program ends in a value, in none or in an error for its author, unless
      something that does not fit its datatype, or such a text, comes up on the
      way, or the trace is in a file that cannot hold what was read
      (`orderly_unless_alarmed`). The first can happen: an array takes the datatype
      of the last element assigned to it (`faults_after_element_assigned`).
-/

import Mandate.Proofs.Instructions
import Mandate.Proofs.Tracing

namespace Mandate

/-! ## Guards -/

/-- For programs that assign to no element: all that comes up fits. -/
def Guard.fitting (stop : Halt) : Guard where
  elements := false
  watch := Watch.fitting
  stop := stop
  alarm := False
  large := True
  alarm_of_elements := by simp
  watch_of_fits := by
    intro _ m v? hm hv
    rw [Watch.fitting, hm, hv]
    rfl
  fits_of_watch := by simp
  readable_of_watch := by simp

/-- For programs that assign to no element: only a text beyond the range is a fault. -/
def Guard.readable (stop : Halt) : Guard where
  elements := false
  watch := Watch.readable
  stop := stop
  alarm := True
  large := False
  alarm_of_elements := by simp
  watch_of_fits := by simp
  fits_of_watch := by simp
  readable_of_watch := fun _ _ _ hw => hw

/-- For all programs: there is no fault unless the watch finds something. -/
def Guard.full (stop : Halt) : Guard where
  elements := true
  watch := Watch.both Watch.fitting Watch.readable
  stop := stop
  alarm := True
  large := False
  alarm_of_elements := fun _ => trivial
  watch_of_fits := by simp
  fits_of_watch := by
    intro _ m v? hw
    rw [Watch.both, Watch.fitting] at hw
    exact (Bool.and_eq_true_iff.1 (Bool.and_eq_true_iff.1 hw).1).1
  readable_of_watch := by
    intro _ m v hw
    rw [Watch.both, Watch.readable] at hw
    exact (Bool.and_eq_true_iff.1 hw).2

/-! ## Runs from the start -/

theorem Machine.fresh_sound (elements : Bool) (console : Console) (trace : Trace) :
    (Machine.fresh console trace).Sound elements :=
  fun _ => Value.unset_sound elements (Origin.known_proper _)

/-- The fault that a run ended in. -/
def Report.fault? (r : Report) : Option Fault :=
  match r.outcome with
  | .error (.halted (.fault f)) => some f
  | _ => none

/-- A run came to a value or to none, ended in an error for the program's author, or took more
steps than it was given. -/
def Report.Orderly (r : Report) : Prop :=
  match r.outcome with
  | .ok _ | .error (.halted (.error _)) | .error (.halted .exhausted) => True
  | .error (.rejected _) | .error (.halted (.fault _)) | .error (.untraced _) => False

variable {source : List Char} {program : Node}

/-- Where the engine may only halt as a guard allows, so may the run, if its trace does not
fail. -/
theorem Guard.allows_of_runTree (G : Guard) {fuel : Nat} {filed : Bool} {console : Console}
    {trace : Trace} {failure : Failure}
    (hrun : G.Permits (fun r _ => ∀ v ∈ r, v.Sound G.elements)
      ((Machine.fresh console (trace.push ⟨1, "run " ++ program.label⟩)).run fuel program))
    (hfailure : (runTree fuel filed console trace program).outcome = .error failure) :
    (∃ h, failure = .halted h ∧ G.Allows h) ∨ ∃ e, failure = .untraced e := by
  unfold runTree at hfailure
  change G.Permits _ (Machine.run { console := console, trace := _ } fuel program) at hrun
  cases hresult : Machine.run
      { console := console, trace := trace.push ⟨1, "run " ++ program.label⟩ } fuel program with
  | ok r m =>
    rw [hresult] at hrun
    simp only [hresult] at hfailure
    -- What the run came to is sound, so it can be written out.
    have hshown : ∃ s, Value.shownResult r = .ok s := by
      cases r with
      | none => exact ⟨_, rfl⟩
      | some v => exact (hrun v rfl).shown
    obtain ⟨s, hs⟩ := hshown
    simp only [hs] at hfailure
    cases hfailure
  | error h m =>
    rw [hresult] at hrun
    simp only [hresult] at hfailure
    cases h with
    | error e =>
      dsimp only at hfailure
      split at hfailure
      · cases hfailure
        exact .inr ⟨e, rfl⟩
      · cases hfailure
        exact .inl ⟨_, rfl, hrun.1⟩
    | fault f =>
      cases hfailure
      exact .inl ⟨_, rfl, hrun.1⟩
    | exhausted =>
      cases hfailure
      exact .inl ⟨_, rfl, hrun.1⟩

/-- A run under the watch of a guard, from the start. -/
theorem Guard.alarmed_or_permits (G : Guard) (hprogram : program.Regular G.elements)
    (fuel : Nat) (console : Console) (trace : Trace) :
    (∃ m', (Machine.fresh console trace).watchedRun G.watch G.stop fuel program =
      .error G.stop m') ∨
      G.Permits (fun r _ => ∀ v ∈ r, v.Sound G.elements)
        ((Machine.fresh console trace).run fuel program) := by
  rcases G.keeps_run fuel hprogram (Machine.fresh_sound G.elements console trace) with
    ⟨_, halarm⟩ | ⟨_, hpermits⟩
  · exact .inl halarm
  · exact .inr (hpermits.mono fun r m' hr => hr.2.2)

/-! ## Programs that assign to no element -/

/-- Under a watch for values that do not fit, the run is the same. -/
theorem watchedRun_fitting (hprogram : program.Regular false) (fuel : Nat) (console : Console)
    (trace : Trace) (stop : Halt) :
    (Machine.fresh console trace).watchedRun Watch.fitting stop fuel program =
      (Machine.fresh console trace).run fuel program := by
  rcases (Guard.fitting stop).keeps_run fuel hprogram
    (Machine.fresh_sound false console trace) with ⟨halarm, _⟩ | ⟨heq, _⟩
  · exact halarm.elim
  · exact heq

/-- The only fault is a text beyond the range. -/
theorem alarmed_of_fault (h : parse source = .ok program) (hprogram : program.Regular false)
    {fuel verbosity : Nat} {console : Console} {f : Fault}
    (hf : (runSource fuel verbosity console source).fault? = some f) :
    f = .tooLarge ∧
      ∃ trace, (Machine.fresh console trace).Alarmed Watch.readable fuel program := by
  have houtcome :
      (runSource fuel verbosity console source).outcome = .error (.halted (.fault f)) := by
    unfold Report.fault? at hf
    split at hf
    · next heq =>
      cases hf
      exact heq
    · cases hf
  obtain ⟨tokens, -, hrun⟩ := runSource_of_parse h fuel console
  rw [hrun verbosity] at houtcome
  let trace := openingTrace verbosity source tokens
  constructor
  · rcases (Guard.fitting .exhausted).keeps_run fuel hprogram
      (Machine.fresh_sound false console (trace.push ⟨1, "run " ++ program.label⟩)) with
      ⟨halarm, _⟩ | ⟨_, hpermits⟩
    · exact halarm.elim
    · rcases (Guard.fitting .exhausted).allows_of_runTree
        (hpermits.mono fun r m' hr => hr.2.2) houtcome with ⟨halt, heq, hallows⟩ | ⟨e, heq⟩
      · cases heq
        exact hallows.2
      · cases heq
  · refine ⟨trace.push ⟨1, "run " ++ program.label⟩, fun stop => ?_⟩
    rcases (Guard.readable stop).alarmed_or_permits hprogram fuel console
      (trace.push ⟨1, "run " ++ program.label⟩) with halarm | hpermits
    · exact halarm
    · rcases (Guard.readable stop).allows_of_runTree hpermits houtcome with
        ⟨halt, heq, hallows⟩ | ⟨e, heq⟩
      · cases heq
        exact hallows.1.elim
      · cases heq

/-- A closure that is called and whose result is printed. -/
def calledClosure : List Char := "f <- (n: Number) => Number [eval n + 1]; print f(2)".toList

theorem Report.not_orderly_of_fault {r : Report} {f : Fault} (h : r.fault? = some f) :
    ¬r.Orderly := by
  unfold Report.fault? at h
  unfold Report.Orderly
  split at h
  · next heq =>
    rw [heq]
    exact id
  · cases h

/-- A run ends as it should, or something came up that does not fit its datatype or spells a
whole number beyond the range, or there is a trace and among the lines to read one that a file
cannot hold. -/
theorem orderly_unless_alarmed (h : parse source = .ok program) (fuel verbosity : Nat)
    (console : Console) :
    (runSource fuel verbosity console source).Orderly ∨
      (∃ trace, (Machine.fresh console trace).Alarmed (Watch.both Watch.fitting Watch.readable)
        fuel program) ∨
      1 ≤ verbosity ∧ ∃ line ∈ console.pending, line.isWritable = false := by
  have hprogram := parse_regular h
  obtain ⟨tokens, -, hrun⟩ := runSource_of_parse h fuel console
  let trace := openingTrace verbosity source tokens
  by_cases halarm : (Machine.fresh console (trace.push ⟨1, "run " ++ program.label⟩)).Alarmed
      (Watch.both Watch.fitting Watch.readable) fuel program
  · exact .inr (.inl ⟨_, halarm⟩)
  · -- Some halt tells the watched run from one that the watch ended.
    obtain ⟨stop, hstop⟩ := Classical.not_forall.1 halarm
    rcases (Guard.full stop).alarmed_or_permits hprogram fuel console
      (trace.push ⟨1, "run " ++ program.label⟩) with hended | hpermits
    · exact absurd hended hstop
    · rw [Report.Orderly, hrun verbosity]
      cases houtcome : (runTree fuel (decide (1 ≤ verbosity)) console trace program).outcome with
      | ok r => exact .inl trivial
      | error failure =>
        rcases (Guard.full stop).allows_of_runTree hpermits houtcome with
          ⟨halt, rfl, hallows⟩ | ⟨e, rfl⟩
        · cases halt with
          | error e => exact .inl trivial
          | exhausted => exact .inl trivial
          | fault f => exact hallows.1.elim
        · obtain ⟨hfiled, hline⟩ := unwritable_of_untraced houtcome
          exact .inr (.inr ⟨of_decide_eq_true hfiled, hline⟩)

/-- An array of a variable that was never given a value and a number, whose first element then
becomes a text. From there on all of the array counts as texts, the number too. -/
def mistypedElement : List Char :=
  "x <- x; a <- [x, 1]; a[0] <- \"s\"; print a[1]".toList

theorem mistypedElement_faults :
    (runSource 40 0 {} mistypedElement).fault? = some .unsuitable := by
  decide +kernel

/-- A source that is rejected is not run. -/
theorem parse_mistypedElement : ∃ program, parse mistypedElement = .ok program := by
  cases hparse : parse mistypedElement with
  | ok program => exact ⟨program, rfl⟩
  | error e =>
    have hfault := mistypedElement_faults
    rw [runSource_of_lt (by decide), runParsed, hparse] at hfault
    cases hfault

theorem not_orderly_mistypedElement : ¬(runSource 40 0 {} mistypedElement).Orderly :=
  Report.not_orderly_of_fault mistypedElement_faults

/-- The watch finds the array. -/
theorem mistypedElement_alarmed : ∃ program, parse mistypedElement = .ok program ∧
    ∃ trace, (Machine.fresh {} trace).Alarmed (Watch.both Watch.fitting Watch.readable) 40
      program := by
  obtain ⟨program, hprogram⟩ := parse_mistypedElement
  refine ⟨program, hprogram, ?_⟩
  have hquiet : ¬(1 ≤ 0 ∧ ∃ line ∈ ({} : Console).pending, line.isWritable = false) := by simp
  exact ((orderly_unless_alarmed hprogram 40 0 {}).resolve_left
    not_orderly_mistypedElement).resolve_right hquiet

/-- An accepted source can end in a fault. -/
theorem faults_after_element_assigned : ∃ program, parse mistypedElement = .ok program ∧
    ¬(runSource 40 0 {} mistypedElement).Orderly := by
  obtain ⟨program, hprogram⟩ := parse_mistypedElement
  exact ⟨program, hprogram, not_orderly_mistypedElement⟩

end Mandate
