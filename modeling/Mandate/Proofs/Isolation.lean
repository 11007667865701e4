/-
  Mandate.Proofs.Isolation

  Calls see their surroundings only through the variables that the callee's own
  scope and the closures among the arguments lead to.

    * `Store.Reaches` are the cells that can be reached from some cells, by way of
      the closures in them.
    * `Run.Unscoped` says of a step that it does not look at the scope it is run
      in. A call does not, so its caller's variables are out of its sight.
    * `invoke_isolated`: a call leaves alone what it cannot reach, and comes to the
      same whatever is there.
-/

import Mandate.Proofs.Linking

namespace Mandate

/-! ## What a call can reach -/

/-- The cells that can be reached from some cells. -/
inductive Store.Reaches (s : Store) (roots : List Nat) : Nat → Prop where
  | root {cell : Nat} (h : cell ∈ roots) : Reaches s roots cell
  | step {cell next : Nat} (h : Reaches s roots cell)
      (hnext : next ∈ (s.get cell).payload.cells) : Reaches s roots next

/-- The cells that a callee and its arguments lead to. -/
def Callee.roots (c : Callee) (args : List Value) : List Nat :=
  c.scope.cells ++ Payload.allCells (args.map Value.payload)

namespace Payload

mutual

/-- Whether there is a closure in a payload. -/
def holdsClosure : Payload → Bool
  | .list items => anyHoldsClosure items
  | .closure _ => true
  | _ => false

/-- Whether there is a closure in one of several payloads. -/
def anyHoldsClosure : List Payload → Bool
  | [] => false
  | p :: ps => p.holdsClosure || anyHoldsClosure ps

end

mutual

theorem cells_of_not_holdsClosure : (p : Payload) → p.holdsClosure = false → p.cells = []
  | .list items, h => by
    rw [cells]
    exact allCells_of_not_holdsClosure items h
  | .closure _, h => by cases h
  | .null, _ | .bool _, _ | .int _, _ | .number _, _ | .nan _, _ | .text _, _ | .node _, _
  | .data _, _ => rfl

theorem allCells_of_not_holdsClosure :
    (ps : List Payload) → anyHoldsClosure ps = false → allCells ps = []
  | [], _ => by rw [allCells]
  | p :: ps, h => by
    rw [anyHoldsClosure, Bool.or_eq_false_iff] at h
    rw [allCells, cells_of_not_holdsClosure p h.1, allCells_of_not_holdsClosure ps h.2,
      List.append_nil]

end

end Payload

/-- A function that is called without closures reaches nothing. -/
theorem Callee.roots_eq_nil {c : Callee} (hc : c.scope = []) {args : List Value}
    (hargs : ∀ v ∈ args, v.payload.holdsClosure = false) : c.roots args = [] := by
  rw [roots, hc]
  induction args with
  | nil => rfl
  | cons v args ih =>
    have hrest := ih fun w hw => hargs w (by simp [hw])
    rw [List.map_cons, Payload.allCells,
      Payload.cells_of_not_holdsClosure _ (hargs v (by simp))]
    exact hrest

theorem Store.not_reaches_nil {s : Store} {cell : Nat} : ¬s.Reaches [] cell := by
  intro h
  induction h with
  | root h => cases h
  | step _ _ ih => exact ih

/-! ## Steps that do not look at the scope -/

/-- The same result with another scope. -/
def Run.rescoped {α : Type} (scope : Scope) :
    EStateM.Result Halt Machine α → EStateM.Result Halt Machine α
  | .ok a m => .ok a { m with scope := scope }
  | .error e m => .error e { m with scope := scope }

/-- A step that does the same in any scope, and leaves the scope as it is. -/
def Run.Unscoped {α : Type} (x : Run α) : Prop :=
  ∀ (scope : Scope) (m : Machine), x { m with scope := scope } = Run.rescoped scope (x m)

namespace Run.Unscoped

variable {α β : Type}

theorem bind {x : Run α} {f : α → Run β} (h : x.Unscoped) (hf : ∀ a, (f a).Unscoped) :
    (x >>= f).Unscoped := by
  intro scope m
  have hx := h scope m
  cases hm : x m with
  | ok a m₁ =>
    rw [hm] at hx
    rw [Run.bind_of_ok hx, Run.bind_of_ok hm]
    exact hf a scope m₁
  | error e m₁ =>
    rw [hm] at hx
    rw [Run.bind_of_error hx, Run.bind_of_error hm]
    rfl

theorem pure (a : α) : (Pure.pure a : Run α).Unscoped := fun _ _ => rfl

theorem throw (e : Halt) : (MonadExcept.throw e : Run α).Unscoped := fun _ _ => rfl

theorem lift (x : Except Fault α) : (liftM x : Run α).Unscoped := by
  cases x with
  | ok a => exact pure a
  | error f => exact throw _

theorem require (t u : Datatype) (o : Origin) : (Run.require t u o).Unscoped := by
  unfold Run.require
  refine (lift _).bind fun b => ?_
  split
  · exact pure ()
  · exact throw _

theorem note (level : Nat) (line : String) : (Run.note level line).Unscoped := fun _ _ => rfl

theorem bindAll (s : Scope) (bs : List (Name × Value)) : (Run.bindAll s bs).Unscoped := by
  induction bs generalizing s with
  | nil => exact pure s
  | cons b bs ih => exact bind (x := Run.bind s b.1 b.2) (fun _ _ => rfl) fun t => ih t

/-- A step in a scope of its own. -/
theorem within (s : Scope) (x : Run α) : (Run.within s x).Unscoped := by
  intro scope m
  unfold Run.within
  cases x { m with scope := s } <;> rfl

theorem checkArguments (ps : List (Slot Param)) (vs : List Value) :
    (Semantics.checkArguments ps vs).Unscoped := by
  induction ps generalizing vs with
  | nil => exact pure ()
  | cons p ps ih =>
    cases vs with
    | nil => exact pure ()
    | cons v vs => exact (lift _).bind fun t => (require t _ _).bind fun _ => ih vs

/-- A call does not look at its caller's scope. -/
theorem invoke (E : Engine) (target : Value) (c : Callee) (params : List (Slot Param))
    (args : List Value) (o : Origin) : (Semantics.invoke E target c params args o).Unscoped := by
  unfold Semantics.invoke
  refine (checkArguments params args).bind fun _ => ?_
  refine (lift _).bind fun names => (bindAll _ _).bind fun scope => ?_
  refine (lift _).bind fun line => (note 2 line).bind fun _ => ?_
  refine (within scope _).bind fun result => ?_
  cases result with
  | none => exact throw _
  | some v =>
    refine (require _ _ _).bind fun _ => ?_
    exact (lift _).bind fun line => (note 2 line).bind fun _ => pure _

end Run.Unscoped

/-! ## The link of what is reached -/

/-- Links cells to themselves: those of a set, and those that are yet to be made. -/
def Link.identity (reached : Nat → Prop) (n : Nat) : Link where
  cells a b := a = b ∧ (reached a ∨ n ≤ a)
  spare := none
  left := n
  right := n
  one_to_one := by
    rintro a b a' b' ⟨rfl, -⟩ ⟨rfl, -⟩
    exact Iff.rfl
  fresh k := ⟨rfl, .inr (Nat.le_add_right n k)⟩

namespace Link.identity

variable {reached : Nat → Prop} {n : Nat}

theorem admits (d : Datum) : (Link.identity reached n).Admits d := fun _ hx => by cases hx

theorem admitsPayload (p : Payload) : (Link.identity reached n).AdmitsPayload p :=
  fun _ hx => by cases hx

theorem cells_self {cell : Nat} (h : reached cell) :
    (Link.identity reached n).cells cell cell := ⟨rfl, .inl h⟩

end Link.identity

/-- A link in which each cell corresponds to itself at most, and no name is spare. -/
structure Link.IsIdentity (L : Link) : Prop where
  cells : ∀ {a b}, L.cells a b → a = b
  spare : L.spare = none

theorem Link.identity.isIdentity (reached : Nat → Prop) (n : Nat) :
    (Link.identity reached n).IsIdentity := ⟨And.left, rfl⟩

namespace Link.IsIdentity

variable {L : Link} (hL : L.IsIdentity)

include hL

/-- Scopes that are linked are the same. -/
theorem scope_eq {s t : Scope} (h : s.Linked L t) : s = t := by
  induction h with
  | nil => rfl
  | cons name hcell _ ih => rw [hL.cells hcell, ih]
  | spare hx =>
    rw [hL.spare] at hx
    cases hx

/-- Objects that are linked are the same. -/
theorem objects_le : L.objects.Le (.equal fun _ => True) :=
  .numbered fun _ _ h => ⟨(hL.scope_eq h.2).symm, trivial⟩

theorem value_eq {v w : Value} (h : v.Linked L w) : w = v := (h.mono hL.objects_le).eq

theorem console_eq {self self' : Option Payload} {m m' : Machine}
    (h : L.correspondence.States self self' m m') : m.console = m'.console := by
  have hrecord : m.console.record = m'.console.record := by
    refine Message.record_eq (h.record.imp fun a b hab => ?_)
    cases hab with
    | printed line => exact .printed line
    | prompted hp line =>
      refine .prompted ?_ line
      rcases hp with rfl | hp
      · rfl
      · exact (hp.mono hL.objects_le).eq
  have hpending := h.pending
  revert hrecord hpending
  generalize m.console = c, m'.console = d
  obtain ⟨pending, record⟩ := c
  obtain ⟨pending', record'⟩ := d
  rintro rfl rfl
  rfl

end Link.IsIdentity

/-! ## Calls -/

/-- What is seen of a run from outside: what it came to, and the console. -/
def Run.seen {α : Type} : EStateM.Result Halt Machine α → Except Halt α × Console
  | .ok a m => (.ok a, m.console)
  | .error e m => (.error e, m.console)

/-- The variables that a run leaves behind. -/
def Run.left {α : Type} : EStateM.Result Halt Machine α → Store
  | .ok _ m => m.store
  | .error _ m => m.store

namespace Run

variable {α : Type} (scope : Scope) (r : EStateM.Result Halt Machine α)

theorem seen_rescoped : seen (rescoped scope r) = seen r := by
  cases r <;> rfl

theorem left_rescoped : left (rescoped scope r) = left r := by
  cases r <;> rfl

end Run

section

variable {L : Link} {self self' : Option Payload} {Q : Value → Value → Machine → Prop}
  {m : Machine} {r r' : EStateM.Result Halt Machine Value}
  (h : L.correspondence.pairing.Outcomes self self' Q m r r')

include h

/-- What corresponds to nothing is left alone. -/
theorem Link.get_left {cell : Nat} (hcell : ∀ b, ¬L.cells cell b) :
    (Run.left r).get cell = m.store.get cell := by
  cases h with
  | ok _ _ hleads => exact hleads.kept cell hcell
  | error _ _ hleads => exact hleads.kept cell hcell
  | short h => exact h.elim

/-- Where cells correspond to themselves nothing else is seen. -/
theorem Link.IsIdentity.seen_eq (hL : L.IsIdentity) (hQ : ∀ a b m₁, Q a b m₁ → b = a) :
    Run.seen r' = Run.seen r := by
  cases h with
  | ok hab hm _ => rw [Run.seen, Run.seen, hQ _ _ _ hab, hL.console_eq hm]
  | error _ hm _ => rw [Run.seen, Run.seen, hL.console_eq hm]
  | short h => exact h.elim

end

/-- What is called is told by the payload. -/
theorem Semantics.called_of_callee {target : Value} {c : Callee} {m : Machine}
    (hc : Semantics.callee target m = .ok c m) : target.payload.Called c := by
  obtain ⟨p, t, o⟩ := target
  unfold callee at hc
  cases hkind : t.kind with
  | error f =>
    simp only [hkind] at hc
    cases hc
  | ok k =>
    simp only [hkind] at hc
    cases k with
    | none => cases hc
    | some k =>
      cases k with
      | function =>
        cases p with
        | node n =>
          cases n with
          | lambda =>
            cases hc
            exact .function ..
          | _ => cases hc
        | _ => cases hc
      | closure =>
        cases p with
        | closure closure =>
          cases hc
          exact .closure closure
        | _ => cases hc
      | _ => cases hc

theorem Payload.Called.cells_eq {p : Payload} {c : Callee} (h : p.Called c) :
    p.cells = c.scope.cells := by
  cases h <;> rfl

theorem Payload.Called.scope_of_function {p : Payload} {c : Callee} (h : p.Called c)
    (hstyle : c.style = .function) : c.scope = [] := by
  cases h with
  | function => rfl
  | closure => cases hstyle

section

variable {m : Machine} {c : Callee} {args : List Value} {s : Store}

/-- Links what a call reaches, and what it makes, to itself. -/
abbrev Callee.link (c : Callee) (args : List Value) (m : Machine) : Link :=
  Link.identity (m.store.Reaches (c.roots args)) m.store.size

/-- States that agree on what a call reaches are linked. -/
theorem Machine.linked_of_reaches (self : Option Payload) (hsize : s.size = m.store.size)
    (hs : ∀ cell, m.store.Reaches (c.roots args) cell → s.get cell = m.store.get cell) :
    (c.link args m).correspondence.States self self { m with scope := [] }
      { m with scope := [], store := s } := by
  refine ⟨.nil, ?_, ⟨0, rfl, hsize⟩, rfl, fun _ _ _ _ => trivial, Link.record_self _ _, rfl,
    trivial⟩
  rintro cell _ ⟨⟨rfl, hcell | hcell⟩, -⟩
  · show (m.store.get cell).Linked _ (s.get cell)
    rw [hs cell hcell]
    refine Value.linked_self (fun next hnext => ?_) (Link.identity.admitsPayload _)
    exact Link.identity.cells_self (.step hcell hnext)
  · show (m.store.get cell).Linked _ (s.get cell)
    rw [Store.get_of_le _ hcell, Store.get_of_le s (by omega)]
    exact Value.linked_unset _

/-- A call from such states comes to the same. -/
theorem Semantics.invoke_outcomes (fuel : Nat) {target : Value}
    (hc : Semantics.callee target m = .ok c m) (params : List (Slot Param)) (o : Origin)
    (hsize : s.size = m.store.size)
    (hs : ∀ cell, m.store.Reaches (c.roots args) cell → s.get cell = m.store.get cell) :
    (c.link args m).correspondence.pairing.Outcomes none none
      (fun v w _ => v.Linked (c.link args m) w) { m with scope := [] }
      (Semantics.invoke (engine fuel) target c params args o { m with scope := [] })
      (Semantics.invoke (engine fuel) target c params args o
        { m with scope := [], store := s }) := by
  have hcalled := called_of_callee hc
  have hroots : ∀ cell ∈ c.roots args, (c.link args m).cells cell cell :=
    fun cell hcell => Link.identity.cells_self (.root hcell)
  have htarget : target.Linked (c.link args m) target := by
    refine Value.linked_self (fun cell hcell => hroots cell ?_) (Link.identity.admitsPayload _)
    rw [hcalled.cells_eq] at hcell
    exact List.mem_append_left _ hcell
  have hargs : List.Forall₂ (Value.Linked (c.link args m)) args args := by
    refine List.forall₂_same.2 fun v hv => ?_
    refine Value.linked_self (fun cell hcell => ?_) (Link.identity.admitsPayload _)
    refine hroots cell (List.mem_append_right _ (Payload.mem_allCells.2 ⟨v.payload, ?_, hcell⟩))
    exact List.mem_map_of_mem hv
  have hengines := (c.link args m).correspondence.relation.engine (.inl (rfl : fuel = fuel))
  exact hengines.invoke htarget
    ⟨hcalled, hcalled, rfl, rfl, rfl, rfl, Link.identity.admits _⟩ trivial hargs trivial _
    (Machine.linked_of_reaches none hsize hs)

variable (fuel : Nat) {target : Value} (hc : Semantics.callee target m = .ok c m)
  (params : List (Slot Param)) (o : Origin)

include hc

/-- A call leaves alone what it cannot reach. -/
theorem Semantics.invoke_keeps {cell : Nat} (hcell : cell < m.store.size)
    (hreached : ¬m.store.Reaches (c.roots args) cell) :
    (Run.left (Semantics.invoke (engine fuel) target c params args o m)).get cell =
      m.store.get cell := by
  have hunlinked : ∀ b, ¬(c.link args m).cells cell b := by
    rintro b ⟨-, h | h⟩
    · exact hreached h
    · omega
  have hunscoped := Run.Unscoped.invoke (engine fuel) target c params args o m.scope
  rw [hunscoped { m with scope := [] }, Run.left_rescoped]
  exact Link.get_left (invoke_outcomes fuel hc params o rfl fun _ _ => rfl) hunlinked

/-- A call comes to the same whatever there is that it cannot reach. -/
theorem Semantics.invoke_seen (hsize : s.size = m.store.size)
    (hs : ∀ cell, m.store.Reaches (c.roots args) cell → s.get cell = m.store.get cell) :
    Run.seen (Semantics.invoke (engine fuel) target c params args o { m with store := s }) =
      Run.seen (Semantics.invoke (engine fuel) target c params args o m) := by
  have hunscoped := Run.Unscoped.invoke (engine fuel) target c params args o m.scope
  have hleft := hunscoped { m with scope := [] }
  have hright := hunscoped { m with scope := [], store := s }
  rw [hleft, hright, Run.seen_rescoped, Run.seen_rescoped]
  have hlink : (c.link args m).IsIdentity := Link.identity.isIdentity _ _
  exact hlink.seen_eq (invoke_outcomes fuel hc params o hsize hs) fun _ _ _ => hlink.value_eq

end

/-- Calls are isolated. Whatever it comes to, a call leaves every variable alone that it cannot
reach, and what it comes to, writes and reads does not depend on them. So a function that is
called without closures neither reads nor writes a variable of its caller. -/
theorem invoke_isolated (fuel : Nat) {target : Value} {c : Callee} {m : Machine}
    (hc : Semantics.callee target m = .ok c m) (params : List (Slot Param)) (args : List Value)
    (o : Origin) :
    (∀ cell < m.store.size, ¬m.store.Reaches (c.roots args) cell →
      (Run.left (Semantics.invoke (engine fuel) target c params args o m)).get cell =
        m.store.get cell) ∧
    (∀ s : Store, s.size = m.store.size →
      (∀ cell, m.store.Reaches (c.roots args) cell → s.get cell = m.store.get cell) →
      Run.seen (Semantics.invoke (engine fuel) target c params args o { m with store := s }) =
        Run.seen (Semantics.invoke (engine fuel) target c params args o m)) ∧
    (c.style = .function → (∀ v ∈ args, v.payload.holdsClosure = false) →
      (∀ cell < m.store.size,
        (Run.left (Semantics.invoke (engine fuel) target c params args o m)).get cell =
          m.store.get cell) ∧
      ∀ s : Store, s.size = m.store.size →
        Run.seen (Semantics.invoke (engine fuel) target c params args o { m with store := s }) =
          Run.seen (Semantics.invoke (engine fuel) target c params args o m)) := by
  refine ⟨fun cell hcell hreached => Semantics.invoke_keeps fuel hc params o hcell hreached,
    fun s hsize hs => Semantics.invoke_seen fuel hc params o hsize hs, fun hstyle hargs => ?_⟩
  have hnone : ∀ cell, ¬m.store.Reaches (c.roots args) cell := by
    intro cell
    rw [Callee.roots_eq_nil ((Semantics.called_of_callee hc).scope_of_function hstyle) hargs]
    exact Store.not_reaches_nil
  exact ⟨fun cell hcell => Semantics.invoke_keeps fuel hc params o hcell (hnone cell),
    fun s hsize => Semantics.invoke_seen fuel hc params o hsize fun cell h => absurd h (hnone cell)⟩

/-- A closure that assigns to the variable it sees: `() => Any [x <- 5, eval x]`. -/
def resetter : Closure where
  id := 0
  params := .proper []
  returns := .proper Datatype.any
  body := .array (.proper
    [.assign (.nameTarget (.proper "x") Origin.none) (.number 5 Span.none) Origin.none,
     .eval (.name (.proper "x") Origin.none) Origin.none]) Origin.none
  origin := Origin.none
  scope := [⟨.proper "x", 0⟩]

/-- Two variables, of which the closure sees the first. -/
def twoVariables : Machine where
  store := ⟨#[Value.unset Origin.none, Value.unset Origin.none]⟩

/-- Calling the closure changes the first variable and leaves the second alone. -/
theorem invoke_isolated_resetter :
    let target : Value := ⟨.closure resetter, Datatype.closure [] Datatype.any, Origin.none⟩
    let callee : Callee :=
      ⟨.closure, resetter.params, resetter.returns, resetter.body, resetter.scope⟩
    let after := Run.left (Semantics.invoke (engine 5) target callee [] [] Origin.none twoVariables)
    (after.get 0).payload.kind = .number ∧ after.get 1 = twoVariables.store.get 1 := by
  refine ⟨by decide +kernel, (invoke_isolated 5 rfl [] [] Origin.none).1 1 (by decide) ?_⟩
  -- The first variable holds no closure, so there is nothing behind it.
  have honly : ∀ cell, twoVariables.store.Reaches [0] cell → cell = 0 := by
    intro cell h
    induction h with
    | root h => simpa using h
    | step _ hnext ih =>
      subst ih
      cases hnext
  exact fun h => absurd (honly 1 h) (by decide)

end Mandate
