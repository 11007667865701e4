/-
  Mandate.Scopes

  Scopes that grow from one another and share their variables. Each is numbered
  as it is made: it has one variable of its own and sees those of the scope it
  was made in.

    * `Scopes.get?` finds the nearest variable of a name.
    * `Scopes.set?` gives that variable another value, which every scope that
      finds the same variable sees.
    * `Scopes.perform` is what is done with scopes, one action after the other.
-/

import Mandate.Halt
import Mandate.Store

namespace Mandate

/-- Scopes by number, and the cells of their variables. -/
structure Scopes where
  chains : Array Scope := #[]
  store : Store := {}
  deriving Repr, Inhabited

namespace Scopes

/-- What a scope sees. -/
def chain (s : Scopes) (node : Nat) : Scope := s.chains.getD node []

/-- The number of the next scope. -/
def next (s : Scopes) : Nat := s.chains.size

/-- One more scope with a variable of its own, in another scope or in none. -/
def push (s : Scopes) (parent? : Option Nat) (name : Name) (v : Value) : Scopes :=
  { chains := s.chains.push (⟨name, s.store.size⟩ :: (parent?.map s.chain).getD []),
    store := s.store.push v }

/-- Whether a scope sees a variable of a name. -/
def has (s : Scopes) (node : Nat) (name : Name) : Bool := (s.chain node).binds name

/-- The value of the nearest variable of a name. -/
def get? (s : Scopes) (node : Nat) (name : Name) : Option Value :=
  s.store.lookup? (s.chain node) name

/-- Another value for the nearest variable of a name, if there is one. -/
def set? (s : Scopes) (node : Nat) (name : Name) (v : Value) : Option Scopes :=
  (s.store.assign? (s.chain node) name v).map fun store => { s with store := store }

/-- The variables that a scope sees with their values, innermost first. -/
def contents (s : Scopes) (node : Nat) : List (Name × Value) :=
  s.store.contents (s.chain node)

/-- A new scope sees its own variable before those of the scope it was made in. All others see what
they saw. -/
theorem chain_push (s : Scopes) (parent? : Option Nat) (name : Name) (v : Value) (node : Nat) :
    (s.push parent? name v).chain node
      = if node = s.next then ⟨name, s.store.size⟩ :: (parent?.map s.chain).getD []
        else s.chain node := by
  simp only [chain, push, next, Array.getD_eq_getD_getElem?, Array.getElem?_push]
  split
  · rfl
  · rfl

/-! ## Actions -/

/-- What can be done with scopes. -/
inductive Action where
  /-- Makes a scope with a variable of its own. -/
  | push (parent? : Option Nat) (name : Name) (v : Value)
  /-- Gives the nearest variable of a name another value. -/
  | set (node : Nat) (name : Name) (v : Value) (origin : Origin)
  /-- Asks for the value of the nearest variable of a name. -/
  | get (node : Nat) (name : Name) (origin : Origin)
  /-- Asks whether there is a variable of a name. -/
  | has (node : Nat) (name : Name)
  deriving Repr, Inhabited

/-- What comes of an action. -/
inductive Answer where
  | made (node : Nat)
  | changed
  | value (v : Value)
  | truth (b : Bool)
  deriving Repr, Inhabited

/-- A name that leads nowhere was looked up somewhere. -/
def undefined (name : Name) (origin : Origin) : Halt :=
  Halt.of (.undefinedVariable <$> name.plain) origin

@[simp] theorem undefined_proper (name : String) (place : Span) :
    undefined (.proper name) (.proper place) = .error ⟨.undefinedVariable name, place⟩ := rfl

/-- What comes of an action, and the scopes after it. One that fails changes nothing. -/
def perform (s : Scopes) : Action → Except Halt Answer × Scopes
  | .push parent? name v => (.ok (.made s.next), s.push parent? name v)
  | .set node name v origin =>
    match s.set? node name v with
    | some changed => (.ok .changed, changed)
    | none => (.error (undefined name origin), s)
  | .get node name origin =>
    match s.get? node name with
    | some v => (.ok (.value v), s)
    | none => (.error (undefined name origin), s)
  | .has node name => (.ok (.truth (s.has node name)), s)

end Scopes

end Mandate
