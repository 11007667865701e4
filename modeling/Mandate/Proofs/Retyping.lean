/-
  Mandate.Proofs.Retyping

  What assignments do to the datatypes of variables. An audit looks at every
  write to a variable, whether the target is the variable or an element of it,
  and ends the run at a write it does not approve of.

    * `Retyping` is what an audit looks at: the datatype of the variable when the
      new value was about to be computed, right before the write and right after.
    * `Machine.auditedRun` is the run under an audit.
    * `checked_writes`: the first of these datatypes always accepts the last. The
      second need not, since computing the value may assign to the same variable.
-/

import Mandate.Proofs.Fuel
import Mandate.Proofs.TypeSoundness

namespace Mandate

/-! ## Audits -/

/-- What a write does to the datatype of a variable. -/
structure Retyping where
  /-- The datatype when the new value was about to be computed. -/
  checked : Datatype
  /-- The datatype right before the write. -/
  before : Datatype
  /-- The datatype right after it. -/
  after : Datatype

namespace Retyping

/-- The datatype before the write accepts the one after. -/
def Accepted (r : Retyping) : Prop := r.before.accepts r.after = .ok true

/-- The datatype that the new value was checked against accepts the one after. -/
def Checked (r : Retyping) : Prop := r.checked.accepts r.after = .ok true

/-- The datatype before the write accepts the one after, unless it has changed since the
check. -/
def Settled (r : Retyping) : Prop := r.before = r.checked → r.Accepted

theorem Checked.settled {r : Retyping} (h : r.Checked) : r.Settled := by
  intro heq
  rw [Accepted, heq]
  exact h

end Retyping

/-- Whether a datatype accepts another can be told. -/
instance Datatype.decidableAccepts (t u : Datatype) : Decidable (t.accepts u = .ok true) :=
  match h : t.accepts u with
  | .ok true => isTrue rfl
  | .ok false => isFalse fun h => by cases h
  | .error _ => isFalse fun h => by cases h

instance : DecidablePred Retyping.Accepted :=
  fun r => Datatype.decidableAccepts r.before r.after

instance : DecidablePred Retyping.Checked :=
  fun r => Datatype.decidableAccepts r.checked r.after

namespace Semantics

/-- Runs an instruction that a payload holds, given how instructions are run. -/
def executePayloadBy (act : Node → Run (Option Value)) (p : Payload) : Run (Option Value) := do
  match p.origin? with
  | none => Run.fault .noPart
  | some o =>
    Run.note 3 ("run " ++ p.label ++ " at " ++ (← o.shown))
    match p with
    | .node n => act n
    | _ => Run.fault .misplaced

/-- Runs a payload, given how instructions are run. -/
def instructionBy (E : Engine) (act : Node → Run (Option Value)) (self : Option Payload)
    (p : Payload) (origin : Origin) : Run (Option Value) := do
  match p with
  | .list items => sequence E self origin items
  | .node n =>
    let v ← Run.expect Datatype.instruction (← E.evaluate self .hold n)
    match v.payload with
    | .list items => sequence E self v.origin items
    | p => executePayloadBy act p
  | _ => Run.fail (.ok .instructionWithoutValue) origin

theorem instruction_eq_by (E : Engine) (self : Option Payload) (p : Payload) (origin : Origin) :
    instruction E self p origin = instructionBy E (execute E self) self p origin := rfl

end Semantics

section

variable (approves : Retyping → Prop) [DecidablePred approves] (stop : Halt)

/-- Another value in a place, unless the audit does not approve of it. -/
def Run.auditedWrite (checked : Datatype) (p : Place) (v : Value) : Run Unit := do
  let m ← get
  let whole ← p.updated m.store v
  unless approves ⟨checked, (m.store.get p.root).datatype, whole.datatype⟩ do throw stop
  modify fun m => { m with store := m.store.set p.root whole }

/-- An assignment under an audit. -/
def Semantics.auditedAssign (E : Engine) (self : Option Payload) (target value : Node) :
    Run Unit := do
  let p ← place E self target
  let old ← Run.read p
  let checked := ((← get).store.get p.root).datatype
  let v ← E.computeAs self old.datatype value
  Run.auditedWrite approves stop checked p v

/-- Runs an instruction under an audit. -/
def Semantics.auditedExecute (E : Engine) (self : Option Payload) : Node → Run (Option Value)
  | .assign target value _ => do
    auditedAssign approves stop E self target value
    return none
  | n => execute E self n

/-- The engine under an audit. -/
def auditedEngine : Nat → Engine
  | 0 => ⟨0, fun _ _ _ => throw .exhausted, fun _ _ _ => throw .exhausted⟩
  | fuel + 1 =>
    ⟨fuel,
      fun self mode n => Semantics.expression (auditedEngine fuel) self mode n,
      fun self p origin =>
        Semantics.instructionBy (auditedEngine fuel)
          (Semantics.auditedExecute approves stop (auditedEngine fuel) self) self p origin⟩

/-- Runs a program tree under an audit. -/
def Machine.auditedRun (m : Machine) (fuel : Nat) (program : Node) :
    EStateM.Result Halt Machine (Option Value) :=
  (auditedEngine approves stop fuel).run none program m

end

/-! ## Every write is checked -/

section

variable {approves : Retyping → Prop} [DecidablePred approves] {stop : Halt}
  (happroves : ∀ r : Retyping, r.Checked → approves r)

/-- A write that the audit approves of is a plain one. -/
theorem Run.auditedWrite_eq {checked : Datatype} {p : Place} {v : Value} {m : Machine}
    (h : approves ⟨checked, (m.store.get p.root).datatype, p.wrapped v.datatype⟩) :
    Run.auditedWrite approves stop checked p v m = Run.write p v m := by
  rw [Run.write_eq]
  unfold Run.auditedWrite
  refine (Run.get_bind _ m).trans ?_
  cases hupdated : p.updated m.store v with
  | error e => rfl
  | ok whole =>
    rw [← Place.updated_datatype hupdated] at h
    refine (Run.bind_of_ok (x := liftM (Except.ok whole)) (a := whole) rfl _).trans ?_
    dsimp only
    rw [if_pos h]
    rfl

include happroves

theorem Semantics.auditedAssign_eq (fuel : Nat) (self : Option Payload) (target value : Node) :
    auditedAssign approves stop (engine fuel) self target value =
      assign (engine fuel) self target value := by
  -- Every run corresponds to itself, which tells that places lead into arrays.
  let C := DataInvariant.all.itself
  have hengines := C.relation.engine (.inl (rfl : fuel = fuel))
  have hstates : ∀ m, C.States self self m m := fun m =>
    (DataInvariant.all_holds self m).states rfl
  funext m
  unfold auditedAssign assign
  cases hplace : place (engine fuel) self target m with
  | error e m₁ => rw [Run.bind_of_error hplace, Run.bind_of_error hplace]
  | ok p m₁ =>
    rw [Run.bind_of_ok hplace, Run.bind_of_ok hplace]
    have hp := hengines.place (t := target) (DataInvariant.all_selves m self) trivial m (hstates m)
    rw [hplace] at hp
    obtain ⟨⟨q, hplaces⟩, -⟩ := hp.of_ok
    cases hread : Run.read p m₁ with
    | error e m₂ => rw [Run.bind_of_error hread, Run.bind_of_error hread]
    | ok old m₂ =>
      rw [Run.bind_of_ok hread, Run.bind_of_ok hread]
      have hold := Correspondence.Places.read hplaces m₁ (hstates m₁)
      rw [hread] at hold
      obtain ⟨⟨old', -, u, hget, hdatatype⟩, hleads⟩ := hold.of_ok
      refine (Run.get_bind _ _).trans ?_
      cases hvalue : (engine fuel).computeAs self old.datatype value m₂ with
      | error e m₃ => rw [Run.bind_of_error hvalue, Run.bind_of_error hvalue]
      | ok v m₃ =>
        rw [Run.bind_of_ok hvalue, Run.bind_of_ok hvalue]
        have hcompute := hengines.compute (n := value) (DataInvariant.all_selves m₂ self) trivial
        have hv := C.relation.computeAs hcompute old.datatype m₂ (hstates m₂)
        rw [hvalue] at hv
        obtain ⟨⟨v', -, hacc⟩, -⟩ := hv.of_ok
        rw [← hdatatype] at hacc
        have hdepth := (Correspondence.Places.mono hleads hplaces).depth_le
        exact Run.auditedWrite_eq (happroves _ (Place.accepts_wrapped hget hdepth hacc))

/-- An audit that approves of what is checked does not notice anything. -/
theorem auditedEngine_eq (fuel : Nat) : auditedEngine approves stop fuel = engine fuel := by
  induction fuel with
  | zero => rfl
  | succ fuel ih =>
    have hexecute : ∀ self, Semantics.auditedExecute approves stop (engine fuel) self =
        Semantics.execute (engine fuel) self := by
      intro self
      funext n
      cases n with
      | assign target value o =>
        rw [Semantics.auditedExecute, Semantics.execute, Semantics.auditedAssign_eq happroves fuel]
      | _ => rfl
    rw [auditedEngine, engine, ih]
    simp only [hexecute, Semantics.instruction_eq_by]

end

/-- At every write of every run, the datatype that the variable had when its new value was about
to be computed accepts the one that it has then. So does the one right before the write, unless
computing the value has changed it. -/
theorem checked_writes (m : Machine) (stop : Halt) (fuel : Nat) (program : Node) :
    m.auditedRun Retyping.Checked stop fuel program = m.run fuel program ∧
      ∀ [DecidablePred Retyping.Settled],
        m.auditedRun Retyping.Settled stop fuel program = m.run fuel program := by
  constructor
  · unfold Machine.auditedRun Machine.run
    rw [auditedEngine_eq fun _ => id]
  · intro _
    unfold Machine.auditedRun Machine.run
    rw [auditedEngine_eq fun _ h => h.settled]

/-- A variable that becomes a text while its new value, a number, is computed. -/
def overtaken : List Char := "x <- (() => Any [x <- \"s\", eval 1])(); eval x".toList

/-- Whether a run came to a number. -/
def isNumber : EStateM.Result Halt Machine (Option Value) → Bool
  | .ok (some v) _ => v.datatype.text = "Number"
  | _ => false

/-- Whether a run ended in a fault. -/
def endsIn (f : Fault) : EStateM.Result Halt Machine (Option Value) → Bool
  | .error (.fault g) _ => f = g
  | _ => false

theorem overtaken_accepted : ∃ program, parse overtaken = .ok program ∧
    isNumber ((Machine.fresh {} #[]).run 30 program) = true ∧
    endsIn .oversized
      ((Machine.fresh {} #[]).auditedRun Retyping.Accepted (.fault .oversized) 30 program) =
        true := by
  have h : (parse overtaken).toOption.map (fun program =>
      isNumber ((Machine.fresh {} #[]).run 30 program) &&
      endsIn .oversized
        ((Machine.fresh {} #[]).auditedRun Retyping.Accepted (.fault .oversized) 30 program)) =
      some true := by
    decide +kernel
  cases hparse : parse overtaken with
  | error e =>
    rw [hparse] at h
    cases h
  | ok program =>
    rw [hparse] at h
    have hboth := Option.some.inj h
    rw [Bool.and_eq_true] at hboth
    exact ⟨program, rfl, hboth⟩

end Mandate
