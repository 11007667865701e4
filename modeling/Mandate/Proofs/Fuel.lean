/-
  Mandate.Proofs.Fuel

  More fuel changes nothing but the runs that were short of it.

  A run with less fuel corresponds to one with more, in the same states, as long as the
  first is not short of fuel. So the rules need not be looked at again here.

    * `Run.finished`: a result that is not for want of fuel.
    * `Run.KeptBy x y`: what `x` comes to, unless it is short of fuel, `y` comes to too.
    * `engine_more`: an engine does all that an engine with less fuel does.
-/

import Mandate.Proofs.DataInvariants

namespace Mandate

/-! ## States that are the same -/

/-- What holds of all states. -/
def DataInvariant.all : DataInvariant where
  toCode := .all
  closures _ _ := True
  scopes _ _ _ := True
  closures_mono _ _ := trivial
  scopes_mono _ _ := trivial
  body_runs _ := trivial
  reaches _ _ := .inr trivial
  declared _ _ _ := trivial
  closure _ _ := trivial
  called _ _ _ _ _ := trivial

namespace DataInvariant

theorem all_payloads (n : Nat) (p : Payload) : all.Payloads n p := Payload.eqUpTo_refl p

theorem all_holds (self : Option Payload) (m : Machine) : all.Holds self m :=
  ⟨trivial, fun _ _ => ⟨Payload.eqUpTo_refl _, rfl, rfl, trivial⟩, fun _ _ _ _ => trivial⟩

theorem all_selves {lenient : Prop} {traces : TraceMatch} (m : Machine) (self : Option Payload) :
    (all.correspondence lenient traces).relation.Selves m self self :=
  selves fun p _ => all_payloads _ p

end DataInvariant

/-! ## Results -/

namespace Run

/-- Whether a result is not for want of fuel. -/
def finished {α : Type} : EStateM.Result Halt Machine α → Bool
  | .error .exhausted _ => false
  | _ => true

theorem finished_body {α : Type} (x : Run α) (m : Machine) :
    finished (Run.body x m) = finished (x m) := by
  unfold Run.body
  cases x m with
  | ok => rfl
  | error e => cases e <;> rfl

/-- What the first step comes to, unless it is short of fuel, the second one comes to. -/
def KeptBy {α : Type} (x y : Run α) : Prop := ∀ m, finished (x m) = true → y m = x m

namespace KeptBy

variable {α β : Type}

theorem refl (x : Run α) : KeptBy x x := fun _ _ => rfl

/-- Two steps one after the other. -/
theorem bind {x y : Run α} {f g : α → Run β} (h : KeptBy x y) (hf : ∀ a, KeptBy (f a) (g a)) :
    KeptBy (x >>= f) (y >>= g) := by
  intro m hm
  cases hx : x m with
  | ok a m' =>
    have hy : y m = .ok a m' := (h m (by rw [hx]; rfl)).trans hx
    rw [bind_of_ok hx] at hm ⊢
    rw [bind_of_ok hy]
    exact hf a m' hm
  | error e m' =>
    rw [bind_of_error hx] at hm ⊢
    -- The error is not for want of fuel, or the whole step would be short of it.
    have hy : y m = .error e m' := by
      refine (h m ?_).trans hx
      rw [hx]
      cases e with
      | exhausted => cases hm
      | error | fault => rfl
    rw [bind_of_error hy]

/-- A step whose scope stays if it comes to its end. -/
theorem body {x y : Run α} (h : KeptBy x y) : KeptBy (Run.body x) (Run.body y) := by
  intro m hm
  rw [finished_body] at hm
  unfold Run.body
  rw [h m hm]

/-- Steps that lead to the same states, or the first is short of fuel. -/
theorem of_paired {self : Option Payload} {Q : α → α → Machine → Prop} {x y : Run α}
    (h : ∀ m, Run.Paired (DataInvariant.all.correspondence True .same).pairing self self m Q x y)
    (hQ : ∀ a b m, Q a b m → b = a) : KeptBy x y := by
  intro m hfinished
  have houtcomes := h m m ((DataInvariant.all_holds self m).states rfl)
  generalize x m = r at hfinished houtcomes
  generalize y m = r' at houtcomes
  cases houtcomes with
  | ok hab hm =>
    obtain ⟨-, -, hsame⟩ := DataInvariant.holds_of_states hm
    rw [hQ _ _ _ hab, hsame, hm.trace]
  | error _ hm =>
    obtain ⟨-, -, hsame⟩ := DataInvariant.holds_of_states hm
    rw [hsame, hm.trace]
  | short => cases hfinished

end KeptBy

end Run

/-! ## Engines -/

/-- An engine does all that an engine with less fuel does, traces aside or not. -/
theorem engine_more (traces : TraceMatch) {fuel fuel' : Nat} (h : fuel ≤ fuel') :
    (DataInvariant.all.correspondence True traces).relation.Engines (engine fuel)
      (engine fuel') :=
  RunRelation.engine _ (.inr ⟨trivial, h⟩)

section

open DataInvariant (all_payloads all_selves eq_of_values eq_of_results)

variable {k k' : Nat} (h : k ≤ k') (self : Option Payload)

include h

theorem compute_keptBy (n : Node) :
    Run.KeptBy ((engine k).compute self n) ((engine k').compute self n) :=
  .of_paired (fun m => ((engine_more .same h).compute (all_selves m self) trivial).now)
    eq_of_values

theorem run_keptBy (n : Node) : Run.KeptBy ((engine k).run self n) ((engine k').run self n) :=
  .of_paired (fun m => (engine_more .same h).run (all_selves m self) trivial) eq_of_results

theorem sequence_keptBy (o : Origin) (ps : List Payload) :
    Run.KeptBy (Semantics.sequence (engine k) self o ps)
      (Semantics.sequence (engine k') self o ps) :=
  .of_paired (fun m => (engine_more .same h).sequence (all_selves m self) trivial
    (List.forall₂_same.2 fun p _ => all_payloads _ p)) eq_of_results

theorem condition_keptBy (c : Node) :
    Run.KeptBy (Semantics.condition (engine k) self c) (Semantics.condition (engine k') self c) :=
  .of_paired (fun m => (engine_more .same h).condition (all_selves m self) trivial)
    fun _ _ _ => Eq.symm

end

end Mandate
