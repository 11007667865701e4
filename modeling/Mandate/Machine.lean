/-
  Mandate.Machine

  The state of a running program and the steps everything else is made of. A
  step that stops early leaves the state as it was at that moment.

  The scope is that of the place that is running. A call runs in a scope of its
  own, and its caller's comes back when the call ends, one way or the other. A
  body of `if` or `while` shares the scope around it, and what it declares stays,
  unless it stops early.
-/

import Mandate.Console
import Mandate.Halt
import Mandate.Place
import Mandate.Trace

namespace Mandate

/-- The state of a running program. -/
structure Machine where
  scope : Scope := []
  store : Store := {}
  console : Console := {}
  trace : Trace := #[]
  /-- How many objects were made that are told apart: closures, and results of arithmetic. -/
  objects : Nat := 0
  deriving Inhabited

/-- A step of a running program. -/
abbrev Run := EStateM Halt Machine

instance : MonadLift (Except Halt) Run where
  monadLift
    | .ok a => pure a
    | .error h => throw h

instance : MonadLift (Except Fault) Run where
  monadLift
    | .ok a => pure a
    | .error f => throw (.fault f)

namespace Run

/-- Stops with an error. -/
def fail {α : Type} (cause : Except Fault RuntimeCause) (origin : Origin) : Run α :=
  throw (Halt.of cause origin)

/-- Stops with a fault. -/
def fault {α : Type} (f : Fault) : Run α := throw (.fault f)

/-- Stops unless a value of a datatype may stand where one of another is required. -/
def require (expected found : Datatype) (origin : Origin) : Run Unit := do
  unless ← expected.accepts found do throw (Halt.unexpected [expected] found origin)

/-- A value that may stand where a datatype is required. -/
def expect (expected : Datatype) (v : Value) : Run Value := do
  require expected v.datatype v.origin
  return v

/-- One more line of the trace. -/
def note (level : Nat) (line : String) : Run Unit :=
  modify fun m => { m with trace := m.trace.push ⟨level, line⟩ }

/-- Prints a line. -/
def print (line : Text) : Run Unit :=
  modify fun m => { m with console := m.console.print line }

/-- Writes a prompt. One that counts as false is not written. -/
def ask (prompt : Payload) : Run Unit := do
  if prompt.truth then
    let line ← prompt.plain
    modify fun m => { m with console := m.console.ask prompt line }

/-- Reads a line. -/
def readLine : Run Text :=
  modifyGet fun m =>
    let (line, console) := m.console.read
    (line, { m with console := console })

/-- A number that no object has yet. -/
def freshObject : Run Nat := modifyGet fun m => (m.objects, { m with objects := m.objects + 1 })

/-- A new variable in front of a scope. -/
def bind (scope : Scope) (name : Name) (v : Value) : Run Scope :=
  modifyGet fun m => (⟨name, m.store.size⟩ :: scope, { m with store := m.store.push v })

/-- New variables in front of a scope, the last one innermost. -/
def bindAll : Scope → List (Name × Value) → Run Scope
  | scope, [] => return scope
  | scope, (name, v) :: rest => do bindAll (← bind scope name v) rest

/-- The cell of a variable of the current scope, which is made if there is none. -/
def cellFor (name : Name) (origin : Origin) : Run Nat := do
  let scope := (← get).scope
  match scope.cell? name with
  | some cell => return cell
  | none =>
    let cell := (← get).store.size
    -- The new variable stays, whatever becomes of the assignment it is made for.
    let scope ← bind scope name (Value.unset origin)
    modify fun m => { m with scope := scope }
    return cell

/-- The value in a place. -/
def read (p : Place) : Run Value := do p.get (← get).store

/-- Another value in a place. -/
def write (p : Place) (v : Value) : Run Unit := do
  let whole ← p.updated (← get).store v
  modify fun m => { m with store := m.store.set p.root whole }

/-- A step in a scope of its own. -/
def within {α : Type} (scope : Scope) (act : Run α) : Run α := fun m =>
  -- The scope is taken out first, so that the state is not held twice while `act` runs.
  let caller := m.scope
  match act { m with scope := scope } with
  | .ok a m' => .ok a { m' with scope := caller }
  | .error h m' => .error h { m' with scope := caller }

/-- A step whose scope stays if it comes to its end. -/
def body {α : Type} (act : Run α) : Run α := fun m =>
  -- As above, only the scope is kept back.
  let around := m.scope
  match act m with
  | .ok a m' => .ok a m'
  | .error h m' => .error h { m' with scope := around }

end Run

end Mandate
