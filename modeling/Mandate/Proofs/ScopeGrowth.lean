/-
  Mandate.Proofs.ScopeGrowth

  Scopes grow, and only by names that are not in them yet.

    * `Scope.Extends`: one scope is another with fresh names in front.
    * `Run.Unscoped.scope_final`: a step that does not look at the scope, such as a
      call, leaves it as it is.
    * `Run.Family.extendsScope`: whatever is evaluated or run, from any state, extends the
      scope it is run in, whether it comes to its end or not.
    * `scopes_grow`: so no name stands twice in the scope of a program that is run
      from the start, or in that of a function it calls, at any time.
-/

import Mandate.Proofs.Isolation
import Mandate.Proofs.Oversight
import Mandate.Proofs.StepFamilies

namespace Mandate

/-! ## Extending a scope -/

/-- The second scope is the first with names in front, each of which led nowhere before. -/
inductive Scope.Extends (s : Scope) : Scope → Prop where
  | refl : Extends s s
  | cons {t : Scope} (b : Binding) (h : Extends s t) (hfresh : t.cell? b.name = none) :
      Extends s (b :: t)

theorem Scope.Extends.trans {s t u : Scope} (hst : s.Extends t) (htu : t.Extends u) :
    s.Extends u := by
  induction htu with
  | refl => exact hst
  | cons b _ hfresh ih => exact .cons b ih hfresh

/-- What does the same in any scope leaves the scope as it is. -/
theorem Run.Unscoped.scope_final {α : Type} {x : Run α} (h : x.Unscoped) (m : Machine) :
    (Run.final (x m)).scope = m.scope := by
  have hx := h m.scope m
  cases hxm : x m <;>
  · rw [hxm] at hx
    rw [hx]
    rfl

/-! ## Steps -/

/-- Steps that extend the scope are a family. -/
def Run.Family.extendsScope : Run.Family where
  holds x m := m.scope.Extends (Run.final (x m)).scope
  most := by
    intro _ _ m h
    rw [h.scope m]
    exact .refl
  bind := by
    intro _ _ x f m hx hf
    cases hxm : x m with
    | ok a m₁ =>
      rw [hxm] at hx
      rw [Run.bind_of_ok hxm]
      exact hx.trans (hf a m₁ hxm)
    | error e m₁ =>
      rw [hxm] at hx
      rw [Run.bind_of_error hxm]
      exact hx
  readLine := .refl
  -- A variable is made only for a name that leads nowhere.
  cellFor := by
    intro name o m
    cases hcell : m.scope.cell? name with
    | some cell =>
      rw [Run.cellFor_of_some hcell]
      exact .refl
    | none =>
      rw [Run.cellFor_of_none hcell]
      exact .cons _ .refl hcell
  -- A call gives its caller's scope back, whatever its body does.
  within := by
    intro _ x s m _
    rw [(Run.Unscoped.within s x).scope_final m]
    exact .refl
  -- What a body that stops early has declared is gone.
  body := by
    intro _ x m hx
    unfold Run.body
    cases hxm : x m with
    | ok a m₁ =>
      rw [hxm] at hx
      exact hx
    | error e m₁ => exact .refl

/-! ## Runs of programs -/

/-- Lets pass scopes in which names are kept apart. -/
def Oversight.namesApart : Oversight := fun self m _ => decide (m.scope.Apart self)

theorem Oversight.namesApart_admits (T : Node → Prop) [Hereditary T] :
    Oversight.namesApart.Admits (.provenance T) :=
  fun _ _ _ hm _ => decide_eq_true hm.scope.2

instance : Hereditary fun _ => True where
  part _ _ := trivial

/-- Whatever is run from whatever state adds only names to the scope that led nowhere, and a call
adds none to the scope of its caller. In a run from the start no name ever stands twice in the
scope of the program or in that of a function that is called: a watch for that never ends it. -/
theorem scopes_grow :
    (∀ (m : Machine) (fuel : Nat) (self : Option Payload),
      (∀ mode n, m.scope.Extends (Run.final ((engine fuel).evaluate self mode n m)).scope) ∧
      ∀ p o, m.scope.Extends (Run.final ((engine fuel).perform self p o m)).scope) ∧
    (∀ (m : Machine) (E : Engine) (target : Value) (callee : Callee) (params : List (Slot Param))
        (args : List Value) (o : Origin),
      (Run.final (Semantics.invoke E target callee params args o m)).scope = m.scope) ∧
    ∀ {source : List Char} {program : Node}, parse source = .ok program →
      ∀ (fuel : Nat) (console : Console) (trace : Trace),
        (∀ stop, (Machine.fresh console trace).overseenRun Oversight.namesApart stop fuel program =
          (Machine.fresh console trace).run fuel program) ∧
        (Run.final ((Machine.fresh console trace).run fuel program)).scope.Distinct := by
  refine ⟨fun m fuel self => ?_, fun m E target callee params args o => ?_, ?_⟩
  · exact ⟨Run.Family.extendsScope.evaluate fuel self m,
      Run.Family.extendsScope.perform fuel self m⟩
  · exact (Run.Unscoped.invoke E target callee params args o).scope_final m
  · intro source program hparsed fuel console trace
    have hprogram : program.From fun _ => True := ⟨trivial, parse_regular hparsed⟩
    refine ⟨overseenRun_eq hprogram fuel console trace (Oversight.namesApart_admits _), ?_⟩
    -- Nothing is called at the top level, so names are kept apart there.
    exact (run_provenance hprogram fuel console trace).scope.2 rfl

/-- A function with a variable of its own, called from a program that has one of that name. -/
def localVariable : List Char :=
  "f <- |b: Boolean| -> Boolean [x <- b, eval x]; x <- f(true)".toList

theorem scopes_grow_localVariable : ∃ program, parse localVariable = .ok program ∧
    (∀ stop, (Machine.fresh {} #[]).overseenRun Oversight.namesApart stop 60 program =
      (Machine.fresh {} #[]).run 60 program) ∧
    (Run.final ((Machine.fresh {} #[]).run 60 program)).scope.length = 2 ∧
    (Run.final ((Machine.fresh {} #[]).run 60 program)).scope.Distinct := by
  have hparsed : (parse localVariable).toOption.map (fun program =>
      (Run.final ((Machine.fresh {} #[]).run 60 program)).scope.length) = some 2 := by
    decide +kernel
  cases hprogram : parse localVariable with
  | ok program =>
    rw [hprogram] at hparsed
    obtain ⟨hwatched, hdistinct⟩ := scopes_grow.2.2 hprogram 60 {} #[]
    exact ⟨program, rfl, hwatched, Option.some.inj hparsed, hdistinct⟩
  | error e =>
    rw [hprogram] at hparsed
    cases hparsed

end Mandate
