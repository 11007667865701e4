/-
  Mandate.Proofs.FiledTraces

  What the file of a trace can hold. Halves of surrogate pairs, which it cannot, come into
  a run with the lines that it reads and in no other way. So if there are none in these
  lines, the file can hold the message of every error.

    * `DataInvariant.writable` says that no text in a state has a half in it.
    * `isWritable_of_run`: the messages of errors have none either.
    * `unwritable_of_untraced`: a trace in a file only fails for a line that was read.
-/

import Mandate.Execution
import Mandate.Proofs.Fuel

namespace Mandate

namespace Vocabulary

/-- Texts that a file can hold, and whatever else there is. -/
def writable : Vocabulary where
  __ := all
  points point := point.isWritable = true
  chars _ := rfl

theorem writable_admits_iff {t : Text} : writable.Admits t ↔ t.isWritable = true :=
  List.all_eq_true.symm

end Vocabulary

/-- A message is made of what is in its cause, and of characters. -/
theorem RuntimeCause.message_admits {V : Vocabulary} {cause : RuntimeCause}
    (h : cause.Admitted V) (place : String) : V.Admits (cause.message place) := by
  cases cause with
  | outOfBounds t | notNumber t | notBoolean t =>
    unfold message
    repeat' apply Vocabulary.Admits.append
    all_goals first
      | exact h
      | exact Vocabulary.admits_ofString _
  | _ =>
    unfold message
    repeat' apply Vocabulary.Admits.append
    all_goals exact Vocabulary.admits_ofString _

/-- No text has half of a surrogate pair in it. -/
def DataInvariant.writable : DataInvariant where
  __ := DataInvariant.all
  vocabulary := .writable
  literal _ := trivial
  held _ := trivial
  placed _ _ := trivial
  runs _ := trivial
  runnable _ := .inr trivial
  target_placed _ _ := trivial
  reaches _ _ := .inr trivial
  called _ _ _ _ _ := trivial

/-- Before any program is run the only texts are the lines to read. -/
theorem DataInvariant.writable_holds {console : Console}
    (h : ∀ line ∈ console.pending, line.isWritable = true) (trace : Trace) :
    writable.Holds none { console := console, trace := trace } := by
  refine ⟨trivial, fun cell _ => ?_, fun line hline => ?_⟩
  · show writable.Values 0 (Store.get {} cell)
    rw [Store.get_of_le _ (Nat.zero_le cell)]
    exact ⟨.atom rfl trivial, rfl, rfl, trivial⟩
  · exact Vocabulary.writable_admits_iff.2 (h line hline)

/-- Without halves in what is read there are none in the message of an error. -/
theorem isWritable_of_run {console : Console}
    (h : ∀ line ∈ console.pending, line.isWritable = true) {trace : Trace} {fuel : Nat}
    {program : Node} {e : RuntimeError} {m : Machine}
    (hrun : Machine.run { console := console, trace := trace } fuel program =
      .error (.error e) m) : e.text.isWritable = true := by
  have houtcomes := DataInvariant.writable.run_outcomes fuel (n := program)
    (fun _ hp => by cases hp) trivial (DataInvariant.writable_holds h trace)
  have hhalts := DataInvariant.halts_of_error houtcomes hrun
  exact Vocabulary.writable_admits_iff.1 (RuntimeCause.message_admits hhalts.1 _)

/-- The trace of a run can only fail if it is in a file and the run has a line with a half
to read. -/
theorem unwritable_of_untraced {fuel : Nat} {filed : Bool} {console : Console} {trace : Trace}
    {program : Node} {e : RuntimeError}
    (h : (runTree fuel filed console trace program).outcome = .error (.untraced e)) :
    filed = true ∧ ∃ line ∈ console.pending, line.isWritable = false := by
  unfold runTree at h
  dsimp only at h
  split at h
  · split at h <;> cases h
  · next e' m hrun =>
    split at h
    · next hfiled =>
      rw [Bool.and_eq_true, Bool.not_eq_true'] at hfiled
      refine ⟨hfiled.1, ?_⟩
      by_contra hnone
      have hwritable : ∀ line ∈ console.pending, line.isWritable = true := fun line hline =>
        Bool.of_not_eq_false fun hfalse => hnone ⟨line, hline, hfalse⟩
      rw [isWritable_of_run hwritable hrun] at hfiled
      cases hfiled.2
    · cases h
  · cases h

end Mandate
