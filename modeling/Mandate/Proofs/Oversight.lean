/-
  Mandate.Proofs.Oversight

  Running programs under a watch that also knows what is called.

    * `overseenEngine` looks at the state and at what is called whenever a node or a
      payload is about to be run and whenever one has been run, however it ended, and
      ends the run if it does not like what it sees.
    * `overseenEngine_engines` relates it to the engine without a watch, in states
      whose data comes from the trees of a class (`DataInvariant.provenance`). So a
      watch that lets all such states pass never ends the run of a program made of
      such trees (`overseenRun_eq`).
-/

import Mandate.Proofs.Provenance
import Mandate.Proofs.Watch

namespace Mandate

/-! ## Watches that know what is called -/

/-- What is let pass, given what is called. -/
abbrev Oversight := Option Payload → Watch

/-- The engine under a watch that knows what is called. -/
def overseenEngine (watch : Oversight) (stop : Halt) : Nat → Engine
  | 0 => ⟨0, fun _ _ _ => throw .exhausted, fun _ _ _ => throw .exhausted⟩
  | fuel + 1 =>
    ⟨fuel,
      fun self mode n =>
        (Semantics.expression (overseenEngine watch stop fuel) self mode n).watched (watch self)
          stop some,
      fun self p origin =>
        (Semantics.instruction (overseenEngine watch stop fuel) self p origin).watched (watch self)
          stop id⟩

/-- Runs a program tree under a watch that knows what is called. -/
def Machine.overseenRun (m : Machine) (watch : Oversight) (stop : Halt) (fuel : Nat)
    (program : Node) : EStateM.Result Halt Machine (Option Value) :=
  (overseenEngine watch stop fuel).run none program m

/-- A watch that lets pass every state in which an invariant holds. -/
def Oversight.Admits (I : DataInvariant) (watch : Oversight) : Prop :=
  ∀ self m v?, I.Holds self m → (∀ v ∈ v?, I.Values m.store.size v) → watch self m v? = true

/-! ## Steps -/

namespace DataInvariant

variable {I : DataInvariant}

theorem values_of_some (v w : Value) (m : Machine) (h : I.itself.relation.Values v w m) :
    ∀ u ∈ some v, I.Values m.store.size u := by
  intro u hu
  cases hu
  obtain rfl := eq_of_values v w m h
  exact h

theorem values_of_results (v? w? : Option Value) (m : Machine)
    (h : I.itself.relation.Results v? w? m) : ∀ u ∈ v?, I.Values m.store.size u := by
  cases h with
  | none => exact fun _ hu => by cases hu
  | some hv => exact values_of_some _ _ m hv

variable {watch : Oversight} (hwatch : watch.Admits I)

include hwatch

/-- Such a watch does not notice a step that keeps the invariant. -/
theorem watched {α : Type} {value? : α → Option Value} {Q : α → α → Machine → Prop}
    {self self' : Option Payload} {m : Machine} {x y : Run α}
    (hQ : ∀ a b m, Q a b m → ∀ v ∈ value? a, I.Values m.store.size v) (stop : Halt)
    (h : Run.Paired I.itself.pairing self self' m Q x y) :
    Run.Paired I.itself.pairing self self' m Q (x.watched (watch self) stop value?) y := by
  intro m' hm
  have houtcomes := h m' hm
  have hnone : ∀ {m m'}, I.itself.States self self' m m' → watch self m none = true :=
    fun hm => hwatch _ _ _ (holds_of_states hm).1 fun _ hv => by cases hv
  unfold Run.watched
  rw [if_pos (hnone hm)]
  revert houtcomes
  generalize x m = r, y m' = r'
  intro houtcomes
  cases houtcomes with
  | ok hab hm₁ hleads =>
    have hpasses := hwatch _ _ _ (holds_of_states hm₁).1 (hQ _ _ _ hab)
    dsimp only
    rw [if_pos hpasses]
    exact .ok hab hm₁ hleads
  | error he hm₁ hleads =>
    dsimp only
    rw [if_pos (hnone hm₁)]
    exact .error he hm₁ hleads
  | short h => exact h.elim

/-- With whatever fuel, the engine under such a watch comes to what the engine comes to. -/
theorem overseenEngine_engines (stop : Halt) (fuel : Nat) :
    I.itself.relation.Engines (overseenEngine watch stop fuel) (engine fuel) := by
  let R := I.itself.relation
  induction fuel with
  | zero =>
    exact ⟨.inl rfl, fun _ _ _ _ => R.throw R.exhausted, fun _ _ _ _ _ _ => R.throw R.exhausted⟩
  | succ fuel ih =>
    refine ⟨.inl rfl, fun hself mode n hn => ?_, fun hself p q hp o ho => ?_⟩
    · exact watched hwatch values_of_some stop (ih.expression hself mode hn)
    · exact watched hwatch values_of_results stop (ih.instruction hself hp ho)

end DataInvariant

/-! ## Programs -/

section

variable {T : Node → Prop} [Hereditary T] {program : Node} (hprogram : program.From T)
  (fuel : Nat) (console : Console) (trace : Trace)

include hprogram

/-- What a run of a program from the start leaves comes from the program's trees. -/
theorem run_provenance :
    (DataInvariant.provenance T).Holds none
      (Run.final ((Machine.fresh console trace).run fuel program)) :=
  DataInvariant.holds_final ((DataInvariant.provenance T).run_outcomes fuel
    (fun _ hp => by cases hp) hprogram (DataInvariant.provenance_holds console trace))

/-- An error is at the place of a tree. -/
theorem origin_from_of_error {e : RuntimeError} {m : Machine}
    (h : (Machine.fresh console trace).run fuel program = .error (.error e) m) :
    e.origin.From T :=
  (DataInvariant.halts_of_error ((DataInvariant.provenance T).run_outcomes fuel
    (fun _ hp => by cases hp) hprogram (DataInvariant.provenance_holds console trace)) h).2

/-- A watch that lets pass what comes from the trees of a program never ends its run. -/
theorem overseenRun_eq {watch : Oversight} (hwatch : watch.Admits (.provenance T)) (stop : Halt) :
    (Machine.fresh console trace).overseenRun watch stop fuel program =
      (Machine.fresh console trace).run fuel program := by
  have hengines := DataInvariant.overseenEngine_engines hwatch stop fuel
  have houtcomes := hengines.run (DataInvariant.selves fun _ hp => by cases hp) hprogram _
    ((DataInvariant.provenance_holds console trace).states rfl)
  exact (DataInvariant.eq_of_outcomes houtcomes DataInvariant.eq_of_results).symm

end

end Mandate
