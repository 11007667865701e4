/-
  Mandate.Scope

  Scopes: which variables a place in a running program sees. A variable lives in
  a cell, and a scope is the chain of names that lead to cells, innermost first.
  A scope only ever grows by a name in front, so closures and calls can share
  what is below.
-/

import Mandate.Slot

namespace Mandate

/-- A name that leads to a cell. -/
structure Binding where
  name : Name
  cell : Nat
  deriving Repr, Inhabited

/-- A chain of names, innermost first. -/
abbrev Scope := List Binding

namespace Scope

/-- The cell a name leads to: that of the innermost binding of the name. -/
def cell? : Scope → Name → Option Nat
  | [], _ => none
  | b :: rest, name => if b.name.same name then some b.cell else cell? rest name

/-- Whether a name leads anywhere. -/
def binds (s : Scope) (name : Name) : Bool := (s.cell? name).isSome

@[simp] theorem cell?_nil (name : Name) : cell? [] name = none := rfl

theorem cell?_cons_of_same {b : Binding} {name : Name} (h : b.name.same name = true)
    (rest : Scope) : cell? (b :: rest) name = some b.cell := by
  simp [cell?, h]

theorem cell?_cons_of_not_same {b : Binding} {name : Name} (h : b.name.same name = false)
    (rest : Scope) : cell? (b :: rest) name = cell? rest name := by
  simp [cell?, h]

end Scope

end Mandate
