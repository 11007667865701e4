/-
  Mandate.Proofs.StepFamilies

  What holds of every run because it holds of the steps that runs are made of.

  Most steps leave the scope as it is and have nothing to do with the lines that can be
  read (`Run.KeepsScopeAndLines`). The others read a line, make a variable, or run
  something in a scope of its own. A `Run.Family` is a property of steps that all of
  these have and that two steps one after the other inherit.

    * `Run.Family.relation`: a family is a relation between runs in which the second run
      plays no part, so nothing has to be said of each rule of the language.
    * `Run.Family.evaluate` and `Run.Family.perform`: all that an engine runs belongs to
      every family.
-/

import Mandate.Proofs.BasicSteps
import Mandate.Proofs.RunRelations

namespace Mandate

/-! ## Other lines to read -/

/-- The same state with other lines to read. -/
def Machine.withPending (m : Machine) (lines : List Text) : Machine :=
  { m with console := { m.console with pending := lines } }

/-- What a step came to, with other lines left to read. -/
def Run.withPending {α : Type} (lines : List Text) :
    EStateM.Result Halt Machine α → EStateM.Result Halt Machine α
  | .ok a m => .ok a (m.withPending lines)
  | .error e m => .error e (m.withPending lines)

/-! ## Most steps -/

/-- A step that leaves the scope as it is and reads no line, so that it does the same with other
lines to read. -/
structure Run.KeepsScopeAndLines {α : Type} (x : Run α) : Prop where
  scope : ∀ m, (Run.final (x m)).scope = m.scope
  lines : ∀ m lines, x (m.withPending lines) = Run.withPending lines (x m)

namespace Run.KeepsScopeAndLines

variable {α β : Type}

theorem pure (a : α) : KeepsScopeAndLines (Pure.pure a) := ⟨fun _ => rfl, fun _ _ => rfl⟩

theorem throw (e : Halt) : KeepsScopeAndLines (MonadExcept.throw e : Run α) :=
  ⟨fun _ => rfl, fun _ _ => rfl⟩

theorem bind {x : Run α} {f : α → Run β} (hx : x.KeepsScopeAndLines)
    (hf : ∀ a, (f a).KeepsScopeAndLines) : (x >>= f).KeepsScopeAndLines := by
  refine ⟨fun m => ?_, fun m lines => ?_⟩
  · have hscope := hx.scope m
    cases hxm : x m with
    | ok a m₁ =>
      rw [hxm] at hscope
      rw [bind_of_ok hxm, (hf a).scope m₁]
      exact hscope
    | error e m₁ =>
      rw [hxm] at hscope
      rw [bind_of_error hxm]
      exact hscope
  · have hlines := hx.lines m lines
    cases hxm : x m with
    | ok a m₁ =>
      rw [hxm] at hlines
      rw [bind_of_ok hlines, bind_of_ok hxm]
      exact (hf a).lines m₁ lines
    | error e m₁ =>
      rw [hxm] at hlines
      rw [bind_of_error hlines, bind_of_error hxm]
      rfl

/-- A computation without a state. -/
theorem lift (x : Except Halt α) : KeepsScopeAndLines (liftM x : Run α) := by
  cases x with
  | ok a => exact pure a
  | error e => exact throw e

theorem lookup (x : Name) : (Run.lookup x).KeepsScopeAndLines := ⟨fun _ => rfl, fun _ _ => rfl⟩

theorem bindAll (s : Scope) (bound : List (Name × Value)) :
    (Run.bindAll s bound).KeepsScopeAndLines := by
  induction bound generalizing s with
  | nil => exact pure s
  | cons b rest ih => exact bind ⟨fun _ => rfl, fun _ _ => rfl⟩ ih

theorem read (p : Place) : (Run.read p).KeepsScopeAndLines :=
  ⟨fun m => (lift (p.get m.store)).scope m, fun m => (lift (p.get m.store)).lines m⟩

theorem write (p : Place) (v : Value) : (Run.write p v).KeepsScopeAndLines := by
  have hwrite : ∀ s : Store, KeepsScopeAndLines ((liftM (p.updated s v) : Run Value) >>=
      fun whole => modify fun m => { m with store := m.store.set p.root whole }) :=
    fun s => bind (lift _) fun _ => ⟨fun _ => rfl, fun _ _ => rfl⟩
  exact ⟨fun m => (hwrite m.store).scope m, fun m => (hwrite m.store).lines m⟩

end Run.KeepsScopeAndLines

/-! ## Families -/

/-- A property of steps and the states they start from that is passed on from steps to what is
made of them. -/
structure Run.Family where
  holds : ∀ {α : Type}, Run α → Machine → Prop
  most : ∀ {α : Type} {x : Run α} {m}, x.KeepsScopeAndLines → holds x m
  /-- Two steps one after the other. -/
  bind : ∀ {α β : Type} {x : Run α} {f : α → Run β} {m}, holds x m →
    (∀ a m₁, x m = .ok a m₁ → holds (f a) m₁) → holds (x >>= f) m
  readLine : ∀ {m}, holds Run.readLine m
  cellFor : ∀ {name o m}, holds (Run.cellFor name o) m
  within : ∀ {α : Type} {x : Run α} {s m}, holds x { m with scope := s } →
    holds (Run.within s x) m
  body : ∀ {α : Type} {x : Run α} {m}, holds x m → holds (Run.body x) m

namespace Run.Family

variable (F : Run.Family)

/-- A step of a family that comes to results of which something is known. -/
def Holds {α β : Type} (start : Machine) (Q : α → β → Machine → Prop) (x : Run α) : Prop :=
  F.holds x start ∧ ∀ a m, x start = .ok a m → ∃ b, Q a b m

variable {F} {α β γ δ : Type} {start : Machine} {Q : α → β → Machine → Prop}

theorem Holds.most {x : Run α} (h : x.KeepsScopeAndLines)
    (hQ : ∀ a m, x start = .ok a m → ∃ b, Q a b m) : F.Holds start Q x := ⟨F.most h, hQ⟩

theorem Holds.bind {P : γ → δ → Machine → Prop} {x : Run α} {f : α → Run γ}
    (h : F.Holds start Q x) (hf : ∀ a b m, Q a b m → F.Holds m P (f a)) :
    F.Holds start P (x >>= f) := by
  refine ⟨F.bind h.1 fun a m hx => ?_, fun c m₁ hc => ?_⟩
  · obtain ⟨b, hab⟩ := h.2 a m hx
    exact (hf a b m hab).1
  · obtain ⟨a, m, hx, hfa⟩ := exists_of_bind_ok hc
    obtain ⟨b, hab⟩ := h.2 a m hx
    exact (hf a b m hab).2 c m₁ hfa

theorem Holds.within {s : Scope} {x : Run α} (h : F.Holds { start with scope := s } Q x)
    (hQ : ∀ a b m m₁, Q a b m → Q a b m₁) : F.Holds start Q (Run.within s x) := by
  refine ⟨F.within h.1, fun a m hx => ?_⟩
  unfold Run.within at hx
  cases hbody : x { start with scope := s } with
  | ok a' m₁ =>
    rw [hbody] at hx
    cases hx
    obtain ⟨b, hab⟩ := h.2 _ _ hbody
    exact ⟨b, hQ _ _ _ _ hab⟩
  | error e m₁ =>
    rw [hbody] at hx
    cases hx

theorem Holds.body {x : Run α} (h : F.Holds start Q x) : F.Holds start Q (Run.body x) := by
  refine ⟨F.body h.1, fun a m hx => ?_⟩
  unfold Run.body at hx
  cases hbody : x start with
  | ok a' m₁ =>
    rw [hbody] at hx
    cases hx
    exact h.2 _ _ hbody
  | error e m₁ =>
    rw [hbody] at hx
    cases hx

variable (F)

/-- The steps of evaluations. All values are equal to themselves, so nothing has to be known of
them. -/
def steps : StepRelation where
  vocabulary := .all
  objects _ := .equal fun _ => True
  leads _ _ := True
  halts _ := True
  nodes _ := True
  rel _ _ start Q x _ := F.Holds start Q x
  leads_refl _ := trivial
  leads_trans _ _ := trivial
  objects_mono _ := .refl _
  fault _ := trivial
  error _ _ := trivial
  literal _ := trivial
  held _ := trivial
  placed _ _ := trivial
  operand _ _ := trivial
  pure hab := .most (.pure _) (by rintro _ _ ⟨⟩; exact ⟨_, hab⟩)
  throw _ := .most (.throw _) (by rintro _ _ ⟨⟩)
  bind h hf := h.bind fun a b m => hf a b m trivial
  freshObject := .most ⟨fun _ => rfl, fun _ _ => rfl⟩ fun i _ _ => ⟨i, rfl⟩
  lookup _ _ := by
    refine .most (.lookup _) fun v? _ _ => ⟨v?, ?_⟩
    cases v? with
    | none => exact .none
    | some v => exact .some ⟨Payload.eqUpTo_refl v.payload, rfl⟩
  makeClosure _ := .most ⟨fun _ => rfl, fun _ _ => rfl⟩ fun c _ _ =>
    ⟨c, Payload.eqUpTo_refl (.closure c)⟩

/-- Runs of steps of a family. -/
def relation : RunRelation where
  toStepRelation := F.steps
  __ := Code.all
  places _ _ _ := True
  reads _ _ _ := True
  scopes _ _ _ _ _ := True
  lenient := False
  body_runs _ := trivial
  places_mono _ _ := trivial
  scopes_mono _ _ := trivial
  element _ _ _ _ _ := trivial
  exhausted := trivial
  short := False.elim
  note _ _ := .most ⟨fun _ => rfl, fun _ _ => rfl⟩ fun _ _ _ => ⟨(), trivial⟩
  print _ := .most ⟨fun _ => rfl, fun _ _ => rfl⟩ fun _ _ _ => ⟨(), trivial⟩
  prompt _ _ := .most ⟨fun _ => rfl, fun _ _ => rfl⟩ fun _ _ _ => ⟨(), trivial⟩
  readLine := ⟨F.readLine, fun line _ _ => ⟨line, rfl, fun _ _ => trivial⟩⟩
  cellFor _ := ⟨F.cellFor, fun cell _ _ => ⟨cell, trivial⟩⟩
  read _ := .most (.read _) fun v _ _ => ⟨v, ⟨Payload.eqUpTo_refl _, rfl, rfl, trivial⟩, trivial⟩
  write _ _ h := h.bind fun v _ _ _ => .most (.write _ v) fun _ _ _ => ⟨(), trivial⟩
  bindAll _ _ _ _ _ _ := .most (.bindAll _ _) fun s _ _ => ⟨s, trivial⟩
  within _ hQ h := (h _ trivial).within fun a b m m₁ => hQ a b m m₁ trivial
  body h := h.body

/-! ## Engines -/

variable (fuel : Nat) (self : Option Payload) (m : Machine)

theorem selves : F.relation.Selves m self self := by
  cases self with
  | none => exact .none
  | some p => exact .some (Payload.eqUpTo_refl p)

theorem evaluate (mode : Mode) (n : Node) : F.holds ((engine fuel).evaluate self mode n) m :=
  ((F.relation.engine (.inl rfl)).evaluate (F.selves self m) mode trivial).1

theorem perform (p : Payload) (o : Origin) : F.holds ((engine fuel).perform self p o) m :=
  ((F.relation.engine (.inl rfl)).perform (F.selves self m) (Payload.eqUpTo_refl p)
    (.inr trivial)).1

theorem run (n : Node) : F.holds ((engine fuel).run self n) m := F.perform fuel self m _ _

end Run.Family

end Mandate
