/-
  Mandate.Proofs.StoredCode

  Instructions that are stored in a variable and run from there do what they
  would have done in its place. The two runs differ by one variable from then on:
  everything that is declared or captured later has it underneath.

    * `Link.inserting` makes room for the variable among the cells.
    * `SameEffect` says what is the same: what is written and read, what it comes
      to, and what all other variables hold.
    * `stored_steps`: if nobody who may be asked mentions the variable, storing
      makes no difference.
-/

import Mandate.Proofs.Grounding

namespace Mandate

/-! ## The same effect -/

/-- Values with the same datatype and the same text. -/
structure Value.Alike (v w : Value) : Prop where
  datatype : v.datatype = w.datatype
  printed : v.printed = w.printed

/-- Consoles with the same lines left to read, the same output and the same prompts. -/
structure Console.Alike (c d : Console) : Prop where
  pending : c.pending = d.pending
  lines : c.lines = d.lines
  output : c.output = d.output
  prompts : c.prompts.map Payload.plain = d.prompts.map Payload.plain

/-- Two runs with the same effect. At the end all variables but one are alike, and after an
error all that a scope from before leads to. -/
inductive SameEffect (but : String) (before : Scope) :
    EStateM.Result Halt Machine (Option Value) → EStateM.Result Halt Machine (Option Value) →
      Prop where
  | ok {r r' : Option Value} {m m' : Machine} (hvalue : Option.Rel Value.Alike r r')
      (hconsole : m.console.Alike m'.console)
      (hvariables : ∀ x : Name, Name.same (.proper but) x = false →
        Option.Rel Value.Alike (m.store.lookup? m.scope x) (m'.store.lookup? m'.scope x)) :
      SameEffect but before (.ok r m) (.ok r' m')
  | error (e : Halt) {m m' : Machine} (hconsole : m.console.Alike m'.console)
      (hvariables : ∀ x : Name,
        Option.Rel Value.Alike (m.store.lookup? before x) (m'.store.lookup? before x)) :
      SameEffect but before (.error e m) (.error e m')

/-- The scope that an error leaves does not matter. -/
theorem SameEffect.body {but : String} {before : Scope} {x : Run (Option Value)} {m : Machine}
    {r : EStateM.Result Halt Machine (Option Value)} (h : SameEffect but before r (x m)) :
    SameEffect but before r (Run.body x m) := by
  unfold Run.body
  revert h
  generalize x m = r'
  rintro (⟨hvalue, hconsole, hvariables⟩ | ⟨e, hconsole, hvariables⟩)
  · exact .ok hvalue hconsole hvariables
  · exact .error e hconsole hvariables

theorem Value.Linked.alike {L : Link} {v w : Value} (h : v.Linked L w) : v.Alike w :=
  ⟨h.datatype, (h.printed.mono fun _ _ hst => hst.1).eq⟩

theorem Console.alike_of_states {L : Link} {self self' : Option Payload} {m m' : Machine}
    (h : L.correspondence.States self self' m m') : m.console.Alike m'.console := by
  have hlines : List.Forall₂ Eq m.console.lines m'.console.lines := by
    refine List.rel_map (fun a b hab => ?_) h.record
    cases hab <;> rfl
  have houtput : List.Forall₂ Eq m.console.output m'.console.output := by
    refine List.rel_filterMap (fun a b hab => ?_) h.record
    cases hab with
    | printed line => exact .some rfl
    | prompted _ line => exact .none
  have hprompts : List.Forall₂ (fun p q => p.plain = q.plain) m.console.prompts
      m'.console.prompts := by
    refine List.rel_filterMap (fun a b hab => ?_) h.record
    cases hab with
    | printed line => exact .none
    | prompted hp line =>
      rcases hp with rfl | hp
      · exact .some rfl
      · exact .some hp.plain
  have htexts : List.Forall₂ Eq (m.console.prompts.map Payload.plain)
      (m'.console.prompts.map Payload.plain) :=
    List.forall₂_map_left_iff.2 (List.forall₂_map_right_iff.2 hprompts)
  rw [List.forall₂_eq_eq_eq] at hlines houtput htexts
  exact ⟨h.pending, hlines, houtput, htexts⟩

/-! ## One more variable -/

/-- Makes room for one more cell. The second run knows a name for it that nobody mentions. -/
def Link.inserting (name : String) (n : Nat) : Link where
  cells a b := (a < n ∧ b = a) ∨ (n ≤ a ∧ b = a + 1)
  spare := some name
  left := n
  right := n + 1
  one_to_one := by
    intro a b a' b' h h'
    omega
  fresh k := .inr ⟨by omega, by omega⟩

namespace Machine

/-- The state after instructions were stored in a new variable. -/
def holding (m : Machine) (name : String) (v : Value) (trace : Trace) : Machine :=
  { m with
    scope := ⟨.proper name, m.store.size⟩ :: m.scope
    store := m.store.push v
    trace := trace }

variable {m : Machine} {self : Option Payload} {name : String}

/-- A variable that nobody mentions makes no difference. -/
theorem linked_holding (hm : m.Grounded self)
    (hstore : ∀ cell, (m.store.get cell).payload.mentions name = false) (v : Value)
    (trace : Trace) :
    (Link.inserting name m.store.size).correspondence.States self self m
      (m.holding name v trace) := by
  have hcells : ∀ cell, cell < m.store.size →
      (Link.inserting name m.store.size).cells cell cell := fun cell h => .inl ⟨h, rfl⟩
  refine ⟨.spare rfl _ (Scope.linked_self fun cell h => hcells cell (hm.scope cell h)), ?_,
    ⟨0, rfl, ?_⟩, rfl, fun _ _ _ _ => trivial, Link.record_self _ _, rfl, trivial⟩
  · rintro a b ⟨⟨ha, rfl⟩ | ⟨ha, rfl⟩, -⟩
    · show (m.store.get _).Linked _ ((m.store.push v).get _)
      rw [Store.get_push, if_neg (by omega)]
      refine Value.linked_self (fun cell h => hcells cell (hm.store _ cell h)) ?_
      intro x hx
      cases hx
      exact hstore _
    · show (m.store.get a).Linked _ ((m.store.push v).get (a + 1))
      rw [Store.get_push, if_neg (by omega), Store.get_of_le _ ha,
        Store.get_of_le _ (Nat.le_succ_of_le ha)]
      exact Value.linked_unset _
  · show (m.store.push v).size = _
    rw [Store.size_push]
    rfl

end Machine

/-! ## Storing -/

/-- What is made for another value can be made with that value. -/
theorem Store.set_push (s : Store) (u v : Value) : (s.push u).set s.size v = s.push v := by
  have hcells : (s.cells.push u).setIfInBounds s.cells.size v = s.cells.push v := by
    apply Array.toList_inj.1
    simp
  exact congrArg Store.mk hcells

/-- Whether a node is an instruction that can be run: `print`, an assignment, `eval`, `if` or
`while`. -/
def Node.isStep : Node → Bool
  | .print .. | .assign .. | .eval .. | .branch .. | .loop .. => true
  | _ => false

/-- Instructions as payloads. -/
abbrev steps (ns : List Node) : List Payload := ns.map Payload.node

/-- The value of an array of instructions. -/
def stepsValue (ns : List Node) (o : Origin) : Value :=
  ⟨.list (steps ns), Datatype.array Datatype.instruction, o⟩

/-- `name <- [I1, .., In]` -/
def storing (name : String) (ns : List Node) (target array whole : Span) : Node :=
  .assign (.nameTarget (.proper name) target) (.array (.proper ns) array) whole

/-- `if true then name` -/
def runningIfTrue (name : String) (condition body whole : Span) : Node :=
  .branch (.boolean true condition) (.name (.proper name) body) .absent whole

section

variable {name : String} {ns : List Node} (fuel : Nat) (self : Option Payload) (m : Machine)

/-- The value of an instruction is the instruction. -/
theorem compute_step {n : Node} (hn : n.isStep = true) :
    ∃ o, (engine (fuel + 1)).compute self n m = .ok ⟨.node n, Datatype.instruction, o⟩ m := by
  cases n with
  | print _ o | assign _ _ o | eval _ o | branch _ _ _ o | loop _ _ o => exact ⟨o, rfl⟩
  | _ => cases hn

theorem furtherElements_steps (hns : ∀ n ∈ ns, n.isStep = true) :
    Semantics.furtherElements (engine (fuel + 1)) self Datatype.instruction ns m =
      .ok (steps ns) m := by
  induction ns with
  | nil => rfl
  | cons n ns ih =>
    obtain ⟨o, ho⟩ := compute_step fuel self m (hns n (by simp))
    have hexpect : (engine (fuel + 1)).computeAs self Datatype.instruction n m =
        .ok ⟨.node n, Datatype.instruction, o⟩ m := by
      unfold Engine.computeAs
      rw [Run.bind_of_ok ho]
      rfl
    unfold Semantics.furtherElements
    rw [Run.bind_of_ok hexpect, Run.bind_of_ok (ih fun k hk => hns k (by simp [hk]))]
    rfl

theorem array_steps (hne : ns ≠ []) (hns : ∀ n ∈ ns, n.isStep = true) (o : Origin) :
    Semantics.array (engine (fuel + 1)) self (.proper ns) o m = .ok (stepsValue ns o) m := by
  cases ns with
  | nil => exact absurd rfl hne
  | cons n ns =>
    obtain ⟨o', ho⟩ := compute_step fuel self m (hns n (by simp))
    have hrest := furtherElements_steps fuel self m
      fun k hk => hns k (List.mem_cons_of_mem n hk)
    have harray : Semantics.array (engine (fuel + 1)) self (.proper (n :: ns)) o = (do
        let first ← (engine (fuel + 1)).compute self n
        let rest ← Semantics.furtherElements (engine (fuel + 1)) self first.datatype ns
        return ⟨.list (first.payload :: rest), Datatype.array first.datatype, o⟩) := rfl
    rw [harray, Run.bind_of_ok ho, Run.bind_of_ok hrest]
    rfl

/-- Running an instruction notes it and does it. -/
theorem perform_step {n : Node} (hn : n.isStep = true) {s : Span}
    (hs : n.origin? = some (.proper s)) (o : Origin) :
    (engine (fuel + 2)).perform self (.node n) o m =
      Semantics.execute (engine (fuel + 1)) self n
        { m with
          trace := m.trace.push ⟨3, Text.ofString ("run " ++ n.label ++ " at " ++ s.text)⟩ } := by
  cases n with
  | print | assign | eval | branch | loop =>
    cases hs
    rfl
  | _ => cases hn

/-- A new variable takes what is assigned to it. -/
theorem assign_steps (hname : m.scope.cell? (.proper name) = none) (hne : ns ≠ [])
    (hns : ∀ n ∈ ns, n.isStep = true) (target array : Span) :
    Semantics.assign (engine (fuel + 2)) self (.nameTarget (.proper name) target)
      (.array (.proper ns) array) m = .ok () (m.holding name (stepsValue ns array) m.trace) := by
  have hplace : Semantics.place (engine (fuel + 2)) self (.nameTarget (.proper name) target) m =
      .ok (.cell m.store.size)
        (m.holding name (Value.unset target) m.trace) := by
    unfold Semantics.place
    rw [Run.bind_of_ok (Run.cellFor_of_none hname)]
    rfl
  have hread : Run.read (.cell m.store.size) (m.holding name (Value.unset target) m.trace) =
      .ok (Value.unset target) (m.holding name (Value.unset target) m.trace) := by
    have hget := Store.get_push_self m.store (Value.unset target)
    show EStateM.Result.ok ((m.store.push (Value.unset target)).get m.store.size) _ = _
    rw [hget]
  have hvalue : (engine (fuel + 2)).computeAs self (Value.unset target).datatype
      (.array (.proper ns) array) (m.holding name (Value.unset target) m.trace) =
      .ok (stepsValue ns array) (m.holding name (Value.unset target) m.trace) := by
    have harray : (engine (fuel + 2)).compute self (.array (.proper ns) array)
        (m.holding name (Value.unset target) m.trace) =
        .ok (stepsValue ns array) (m.holding name (Value.unset target) m.trace) :=
      array_steps fuel self _ hne hns array
    unfold Engine.computeAs
    rw [Run.bind_of_ok harray]
    rfl
  unfold Semantics.assign
  rw [Run.bind_of_ok hplace, Run.bind_of_ok hread, Run.bind_of_ok hvalue, Run.write_of_ok rfl]
  show EStateM.Result.ok () { m.holding name (Value.unset target) m.trace with
    store := (m.store.push (Value.unset target)).set m.store.size (stepsValue ns array) } = _
  rw [Store.set_push]
  rfl

/-- Storing instructions in a variable that is not there makes the variable. -/
theorem perform_storing (hname : m.scope.cell? (.proper name) = none) (hne : ns ≠ [])
    (hns : ∀ n ∈ ns, n.isStep = true) (target array whole : Span) (o : Origin) :
    ∃ trace, (engine (fuel + 3)).perform self (.node (storing name ns target array whole)) o m =
      .ok none (m.holding name (stepsValue ns array) trace) := by
  let trace := m.trace.push ⟨3, Text.ofString ("run Assign at " ++ whole.text)⟩
  refine ⟨trace, ?_⟩
  rw [perform_step (fuel + 1) self m rfl rfl]
  unfold storing
  rw [Semantics.execute]
  have hassign := assign_steps fuel self { m with trace := trace } hname hne hns target array
  exact Run.bind_of_ok hassign _

/-- Running the variable runs the instructions. -/
theorem perform_stored (hname : name ≠ "self") {o : Origin}
    (hlookup : m.store.lookup? m.scope (.proper name) = some (stepsValue ns o)) (s : Span)
    (o' : Origin) :
    (engine (fuel + 2)).perform self (.node (.name (.proper name) s)) o' m =
      Semantics.sequence (engine (fuel + 1)) self s (steps ns) m := by
  have hnamed : (engine (fuel + 1)).evaluate self .hold (.name (.proper name) s) m =
      .ok ((stepsValue ns o).withOrigin s) m := by
    have hvariable : Run.lookup (.proper name) m = .ok (some (stepsValue ns o)) m :=
      congrArg (EStateM.Result.ok · m) hlookup
    show Semantics.named self (.proper name) s m = _
    rw [Semantics.named_eq self fun h => hname (Slot.proper.inj h), Run.bind_of_ok hvariable]
    rfl
  have hexpect : Run.expect Datatype.instruction ((stepsValue ns o).withOrigin s) m =
      .ok ((stepsValue ns o).withOrigin s) m := rfl
  show Semantics.instruction (engine (fuel + 1)) self (.node (.name (.proper name) s)) o' m = _
  unfold Semantics.instruction
  refine (Run.bind_of_ok hnamed _).trans ?_
  exact Run.bind_of_ok hexpect _

end

/-! ## Sequences -/

section

variable (E : Engine) (self : Option Payload) (o : Origin) {m m₁ : Machine}

theorem sequence_of_none {p : Payload} (h : E.perform self p o m = .ok none m₁)
    (ps : List Payload) :
    Semantics.sequence E self o (p :: ps) m = Semantics.sequence E self o ps m₁ := by
  rw [Semantics.sequence, Run.bind_of_ok h]

theorem sequence_single (p : Payload) (m : Machine) :
    Semantics.sequence E self o [p] m = E.perform self p o m := by
  unfold Semantics.sequence
  cases h : E.perform self p o m with
  | error e m₁ => rw [Run.bind_of_error h]
  | ok r m₁ =>
    rw [Run.bind_of_ok h]
    cases r <;> rfl

/-- Instructions come from themselves, not from the array they are in. -/
theorem sequence_steps_origin (fuel : Nat) (o' : Origin) (ns : List Node) :
    Semantics.sequence (engine fuel) self o (steps ns) =
      Semantics.sequence (engine fuel) self o' (steps ns) := by
  induction ns with
  | nil => rfl
  | cons n ns ih =>
    have hperform : (engine fuel).perform self (.node n) o =
        (engine fuel).perform self (.node n) o' := by
      cases fuel <;> rfl
    show Semantics.sequence _ _ _ (.node n :: steps ns) =
      Semantics.sequence _ _ _ (.node n :: steps ns)
    rw [Semantics.sequence, Semantics.sequence, hperform, ih]

end

/-! ## Storing makes no difference -/

section

variable {name : String} {m : Machine} {self : Option Payload}

/-- What linked runs come to has the same effect. -/
theorem SameEffect.of_outcomes (hm : m.Grounded self)
    {r r' : EStateM.Result Halt Machine (Option Value)}
    (h : (Link.inserting name m.store.size).correspondence.pairing.Outcomes self self
      (Link.inserting name m.store.size).correspondence.relation.Results m r r') :
    SameEffect name m.scope r r' := by
  cases h with
  | short h => exact h.elim
  | @ok _ _ m₁ m₁' hvalue hlinked _ =>
    refine .ok ?_ (Console.alike_of_states hlinked) fun x hx => ?_
    · cases hvalue with
      | some hv => exact .some (Value.Linked.alike hv)
      | none => exact .none
    · have hspare : ∀ y ∈ (Link.inserting name m.store.size).spare,
          Name.same (.proper y) x = false := by
        rintro y ⟨⟩
        exact hx
      have hcell := Scope.Linked.known (n := m₁.store.size) hlinked.scope hspare
      unfold Store.lookup?
      revert hcell
      generalize m₁.scope.cell? x = a?, m₁'.scope.cell? x = b?
      rintro (hab | _)
      · exact .some (Value.Linked.alike (hlinked.store _ _ hab))
      · exact .none
  | error _ hlinked _ =>
    refine .error _ (Console.alike_of_states hlinked) fun x => ?_
    unfold Store.lookup?
    cases hcell : m.scope.cell? x with
    | none => exact .none
    | some cell =>
      have hlt : cell < m.store.size := hm.scope cell (Scope.mem_cells_of_cell? hcell)
      exact .some (Value.Linked.alike (hlinked.store cell cell ⟨.inl ⟨hlt, rfl⟩, .inr trivial⟩))

/-- Instructions do the same if there is one more variable that nobody mentions. -/
theorem sequence_holding (hm : m.Grounded self) {ns : List Node}
    (hns : ∀ n ∈ ns, n.mentions name = false)
    (hstore : ∀ cell, (m.store.get cell).payload.mentions name = false)
    (hown : ∀ p ∈ self, p.mentions name = false) (fuel : Nat) (o o' : Origin) (v : Value)
    (trace : Trace) :
    SameEffect name m.scope (Semantics.sequence (engine fuel) self o (steps ns) m)
      (Semantics.sequence (engine fuel) self o' (steps ns) (m.holding name v trace)) := by
  have hself : (Link.inserting name m.store.size).correspondence.relation.Selves m self self := by
    cases self with
    | none => exact .none
    | some p =>
      refine .some (Payload.linked_self p (fun cell h => .inl ⟨hm.own p rfl cell h, rfl⟩) ?_)
      rintro x ⟨⟩
      exact hown p rfl
  have hsteps : List.Forall₂ (Payload.Linked (Link.inserting name m.store.size)) (steps ns)
      (steps ns) := by
    refine List.forall₂_same.2 fun p hp => ?_
    obtain ⟨n, hn, rfl⟩ := List.mem_map.1 hp
    refine .atom rfl ?_
    rintro x ⟨⟩
    exact hns n hn
  have hengines := (Link.inserting name m.store.size).correspondence.relation.engine
    (.inl (rfl : fuel = fuel))
  rw [sequence_steps_origin self o' fuel o]
  exact .of_outcomes hm (hengines.sequence hself trivial hsteps _
    (Machine.linked_holding hm hstore v trace))

/-- The new variable holds the instructions. -/
theorem Machine.lookup?_holding (m : Machine) (name : String) (v : Value) (trace : Trace) :
    (m.holding name v trace).store.lookup? (m.holding name v trace).scope (.proper name) =
      some v := by
  have hcell : (m.holding name v trace).scope.cell? (.proper name) = some m.store.size :=
    Scope.cell?_cons_of_same (by simp) m.scope
  unfold Store.lookup?
  rw [hcell]
  exact congrArg some (Store.get_push_self m.store v)

/-- Code is data: instructions that are stored in a new variable and run from there, directly or
by an `if`, do what they do inline. Nobody who can be asked may mention the variable: neither the
instructions nor what is stored, nor the function or closure that is running. The stored
instructions are run one level deeper, and two by an `if`, so the runs have that much more
fuel. All states of runs are grounded (`DataInvariant.grounded`), and so is the one afterwards. -/
theorem stored_steps (hname : name ≠ "self") (hm : m.Grounded self)
    (hunbound : m.scope.cell? (.proper name) = none) {ns : List Node} (hne : ns ≠ [])
    (hsteps : ∀ n ∈ ns, n.isStep = true) (hns : ∀ n ∈ ns, n.mentions name = false)
    (hstore : ∀ cell, (m.store.get cell).payload.mentions name = false)
    (hown : ∀ p ∈ self, p.mentions name = false) (fuel : Nat) (o : Origin)
    (target array whole body condition branch : Span) :
    SameEffect name m.scope (Semantics.sequence (engine (fuel + 2)) self o (steps ns) m)
      (Semantics.sequence (engine (fuel + 3)) self o
        [.node (storing name ns target array whole), .node (.name (.proper name) body)] m) ∧
    SameEffect name m.scope (Semantics.sequence (engine (fuel + 2)) self o (steps ns) m)
      (Semantics.sequence (engine (fuel + 4)) self o
        [.node (storing name ns target array whole),
         .node (runningIfTrue name condition body branch)] m) ∧
    (Run.final (Semantics.sequence (engine (fuel + 2)) self o (steps ns) m)).Grounded self := by
  refine ⟨?_, ?_, ?_⟩
  · obtain ⟨trace, htrace⟩ :=
      perform_storing fuel self m hunbound hne hsteps target array whole o
    rw [sequence_of_none _ _ _ htrace, sequence_single,
      perform_stored (fuel + 1) self _ hname (m.lookup?_holding name _ trace)]
    exact sequence_holding hm hns hstore hown _ _ _ _ _
  · obtain ⟨trace, htrace⟩ :=
      perform_storing (fuel + 1) self m hunbound hne hsteps target array whole o
    rw [sequence_of_none _ _ _ htrace, sequence_single,
      perform_step (fuel + 2) self _ rfl rfl]
    -- The condition holds, and the body is the variable.
    show SameEffect _ _ _ (Run.body ((engine (fuel + 3)).perform self
      (.node (.name (.proper name) body)) Origin.none) (m.holding name (stepsValue ns array) _))
    refine SameEffect.body ?_
    rw [perform_stored (fuel + 1) self _ hname (m.lookup?_holding name _ _)]
    exact sequence_holding hm hns hstore hown _ _ _ _ _
  · refine sequence_grounded hm _ o fun p hp => ?_
    obtain ⟨n, -, rfl⟩ := List.mem_map.1 hp
    exact .of_cells_eq_nil rfl

end

/-- `x <- 2` and `print x`. -/
def countingSteps : List Node :=
  [.assign (.nameTarget (.proper "x") Origin.none) (.number 2 Span.none) Origin.none,
   .print (.proper [.name (.proper "x") Origin.none]) Origin.none]

/-- A variable and its instructions, stored under another name. -/
theorem stored_countingSteps :
    let m : Machine :=
      { scope := [⟨.proper "x", 0⟩]
        store := ⟨#[Value.mk (.number 1) Datatype.number Origin.none]⟩ }
    SameEffect "p" m.scope (Semantics.sequence (engine 7) none Origin.none (steps countingSteps) m)
      (Semantics.sequence (engine 8) none Origin.none
        [.node (storing "p" countingSteps Span.none Span.none Span.none),
         .node (.name (.proper "p") Span.none)] m) := by
  intro m
  have hnumber : ∀ cell, ∃ q, (m.store.get cell).payload = q ∧ q.cells = [] ∧
      q.mentions "p" = false := by
    intro cell
    cases cell <;> exact ⟨_, rfl, rfl, rfl⟩
  refine (stored_steps (by decide) ⟨by decide, fun cell next hnext => ?_, by simp⟩ rfl (by decide)
    (by decide) (by decide) (fun cell => ?_) (by simp) 5 Origin.none _ _ _ _ Span.none
    Span.none).1
  · obtain ⟨q, hq, hcells, -⟩ := hnumber cell
    rw [hq, hcells] at hnext
    cases hnext
  · obtain ⟨q, hq, -, hmentions⟩ := hnumber cell
    rw [hq]
    exact hmentions

/-! ## The running function -/

/-- A function that comes to an instruction about a variable of its caller:
`|| -> Any [eval [print p]]`. -/
def borrower : Node :=
  .lambda .function (.proper []) (.proper Datatype.any)
    (.array (.proper [.eval (.array (.proper
      [.print (.proper [.name (.proper "p") Origin.none]) Origin.none]) Origin.none)
        Origin.none]) Origin.none) Origin.none

/-- `if true then self()` -/
def callingSelf : Node :=
  .branch (.boolean true Span.none)
    (.call (.name (.proper "self") Origin.none) (.proper []) Origin.none) .absent Origin.none

/-- Whether a run comes to its end. -/
def comesToEnd {α : Type} : EStateM.Result Halt Machine α → Bool
  | .ok _ _ => true
  | .error _ _ => false

theorem SameEffect.comesToEnd_eq {but : String} {before : Scope}
    {r r' : EStateM.Result Halt Machine (Option Value)} (h : SameEffect but before r r') :
    comesToEnd r = comesToEnd r' := by
  cases h <;> rfl

/-- The function that is running can be asked through `self`. If it mentions the variable,
storing makes a difference: the run that stored the instructions prints them, and the other
one does not know the variable. -/
theorem borrowed_not_sameEffect :
    let m : Machine := {}
    let self := some (Payload.node borrower)
    m.Grounded self ∧ m.scope.cell? (.proper "p") = none ∧ callingSelf.isStep = true ∧
      callingSelf.mentions "p" = false ∧
      (∀ cell, (m.store.get cell).payload.mentions "p" = false) ∧
      ¬SameEffect "p" m.scope
        (Semantics.sequence (engine 12) self Origin.none (steps [callingSelf]) m)
        (Semantics.sequence (engine 13) self Origin.none
          [.node (storing "p" [callingSelf] Span.none Span.none Span.none),
           .node (.name (.proper "p") Span.none)] m) := by
  intro m self
  have hdirect : comesToEnd (Semantics.sequence (engine 12) self Origin.none
      (steps [callingSelf]) m) = false := by
    decide +kernel
  have hstored : comesToEnd (Semantics.sequence (engine 13) self Origin.none
      [.node (storing "p" [callingSelf] Span.none Span.none Span.none),
       .node (.name (.proper "p") Span.none)] m) = true := by
    decide +kernel
  have hnothing : ∀ cell, (m.store.get cell).payload = .null := fun cell => by
    rw [Store.get_of_le _ (Nat.zero_le cell)]
    rfl
  refine ⟨⟨by decide, fun cell next hnext => ?_, ?_⟩, rfl, rfl, by decide, fun cell => ?_, ?_⟩
  · rw [hnothing cell] at hnext
    cases hnext
  · intro p hp cell hcell
    obtain rfl : Payload.node borrower = p := Option.some.inj hp
    cases hcell
  · rw [hnothing cell]
    rfl
  · intro h
    have hend := h.comesToEnd_eq
    rw [hdirect, hstored] at hend
    cases hend

end Mandate
