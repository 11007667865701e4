/-
  Mandate.Proofs.PairedRuns

  Steps that lead from states that belong together to states that belong together.

    * `Pairing` says which states of two runs belong together, and `Run.Paired` that two
      steps come to the same from such states. `Run.Paired.bind` puts such steps together.
-/

import Mandate.Proofs.BasicSteps

namespace Mandate

/-- How the states of two runs correspond. -/
structure Pairing where
  /-- Which states belong together, given what `self` stands for in both runs. -/
  states : Option Payload → Option Payload → Machine → Machine → Prop
  /-- Whether the first run may come from the one state to the other. -/
  leads : Machine → Machine → Prop
  /-- For what a run may stop. -/
  halts : Halt → Prop
  /-- Whether the first run may be short of fuel where the second is not. -/
  lenient : Prop
  refl : ∀ m, leads m m
  trans : ∀ {m m₁ m₂}, leads m m₁ → leads m₁ m₂ → leads m m₂

/-- What two steps came to, the first from a state `m`: to related results or to the same error,
in states that belong together. -/
inductive Pairing.Outcomes {α β : Type} (P : Pairing) (self self' : Option Payload)
    (Q : α → β → Machine → Prop) (m : Machine) :
    EStateM.Result Halt Machine α → EStateM.Result Halt Machine β → Prop where
  | ok {a : α} {b : β} {m₁ m₁' : Machine} (hQ : Q a b m₁) (hm : P.states self self' m₁ m₁')
      (hleads : P.leads m m₁) : Outcomes P self self' Q m (.ok a m₁) (.ok b m₁')
  | error {e : Halt} {m₁ m₁' : Machine} (he : P.halts e) (hm : P.states self self' m₁ m₁')
      (hleads : P.leads m m₁) : Outcomes P self self' Q m (.error e m₁) (.error e m₁')
  | short (h : P.lenient) (m₁ : Machine) (r : EStateM.Result Halt Machine β) :
      Outcomes P self self' Q m (.error .exhausted m₁) r

/-- What is known of where a step came to is known from an earlier state on. -/
theorem Pairing.Outcomes.after {α β : Type} {P : Pairing} {self self' : Option Payload}
    {Q : α → β → Machine → Prop} {m m₁ : Machine} (hleads : P.leads m m₁)
    {r : EStateM.Result Halt Machine α} {r' : EStateM.Result Halt Machine β}
    (h : P.Outcomes self self' Q m₁ r r') : P.Outcomes self self' Q m r r' := by
  cases h with
  | ok hQ hm hleads' => exact .ok hQ hm (P.trans hleads hleads')
  | error he hm hleads' => exact .error he hm (P.trans hleads hleads')
  | short h m₁ => exact .short h m₁ _

theorem Pairing.Outcomes.imp {α β : Type} {P : Pairing} {self self' : Option Payload}
    {Q S : α → β → Machine → Prop} {m : Machine} {r : EStateM.Result Halt Machine α}
    {r' : EStateM.Result Halt Machine β} (h : P.Outcomes self self' Q m r r')
    (hQ : ∀ a b m₁, Q a b m₁ → S a b m₁) : P.Outcomes self self' S m r r' := by
  cases h with
  | ok hQ₁ hm hleads => exact .ok (hQ _ _ _ hQ₁) hm hleads
  | error he hm hleads => exact .error he hm hleads
  | short h m₁ => exact .short h m₁ _

theorem Pairing.Outcomes.of_ok {α β : Type} {P : Pairing} {self self' : Option Payload}
    {Q : α → β → Machine → Prop} {m m₁ : Machine} {a : α} {r : EStateM.Result Halt Machine β}
    (h : P.Outcomes self self' Q m (.ok a m₁) r) : (∃ b, Q a b m₁) ∧ P.leads m m₁ := by
  cases h with
  | ok hQ _ hleads => exact ⟨⟨_, hQ⟩, hleads⟩

/-- Two steps that come to the same, the first from a state and the second from any that belongs
to it. -/
def Run.Paired {α β : Type} (P : Pairing) (self self' : Option Payload) (m : Machine)
    (Q : α → β → Machine → Prop) (x : Run α) (y : Run β) : Prop :=
  ∀ m', P.states self self' m m' → P.Outcomes self self' Q m (x m) (y m')

namespace Run.Paired

variable {P : Pairing} {α β γ δ : Type} {self self' : Option Payload} {m : Machine}
  {Q : α → β → Machine → Prop} {S : γ → δ → Machine → Prop}

/-- Two steps one after the other. -/
theorem bind {x : Run α} {y : Run β} {f : α → Run γ} {g : β → Run δ}
    (h : Paired P self self' m Q x y)
    (hf : ∀ a b m₁, P.leads m m₁ → Q a b m₁ → Paired P self self' m₁ S (f a) (g b)) :
    Paired P self self' m S (x >>= f) (y >>= g) := by
  intro m' hm
  have hxy := h m' hm
  -- What the first steps came to is looked at on both sides at once: the ends fit.
  generalize hx : x m = r at hxy
  generalize hy : y m' = r' at hxy
  cases hxy with
  | ok hQ hm₁ hleads =>
    rw [bind_of_ok hx, bind_of_ok hy]
    exact (hf _ _ _ hleads hQ _ hm₁).after hleads
  | error he hm₁ hleads =>
    rw [bind_of_error hx, bind_of_error hy]
    exact .error he hm₁ hleads
  | short h m₁ =>
    rw [bind_of_error hx]
    exact .short h m₁ _

theorem pure {a : α} {b : β} (h : Q a b m) :
    Paired P self self' m Q (Pure.pure a) (Pure.pure b) :=
  fun _ hm => .ok h hm (P.refl m)

theorem throw {e : Halt} (he : P.halts e) :
    Paired P self self' m Q (MonadExcept.throw e : Run α) (MonadExcept.throw e : Run β) :=
  fun _ hm => .error he hm (P.refl m)

theorem short (h : P.lenient) {y : Run β} :
    Paired P self self' m Q (MonadExcept.throw .exhausted : Run α) y :=
  fun m' _ => .short h m (y m')

end Run.Paired

end Mandate
