/-
  Mandate.Proofs.Correspondences

  Two runs whose variables correspond.

  A `Correspondence` says which cells and which scopes of two runs correspond, what may
  occur in values and which trees may be run. Steps are related if they lead from states
  that correspond to such states, and `Correspondence.relation` has all it takes for the
  rules. The runs may be the same run: then it says what holds of every state on the way.

    * `Correspondence.States` relates states: corresponding cells hold values that are
      equal up to objects, and both runs have read and written the same.
    * `Correspondence.Leads` says what a step leaves as it was: the variables that
      correspond to nothing, and how deep in arrays each variable is nested.
    * `Place.Match` relates places in corresponding variables. What is read there is
      related, and so is what is there after an assignment.
-/

import Mandate.Proofs.ArrayNesting
import Mandate.Proofs.PairedRuns
import Mandate.Proofs.RunRelations

namespace Mandate

/-- New names in front of a scope, in cells one after the other. -/
def Scope.bound (cell : Nat) (s : Scope) : List Name → Scope
  | [] => s
  | name :: names => Scope.bound (cell + 1) (⟨name, cell⟩ :: s) names

/-- Messages with the same line, whose prompts may be related. -/
inductive Message.Match (prompts : Payload → Payload → Prop) : Message → Message → Prop where
  | printed (line : Text) : Match prompts (.printed line) (.printed line)
  | prompted {p q : Payload} (h : prompts p q) (line : Text) :
      Match prompts (.prompted p line) (.prompted q line)

/-- Records with the same prompts are the same. -/
theorem Message.record_eq {c d : Array Message}
    (h : List.Forall₂ (Message.Match fun p q => q = p) c.toList d.toList) : c = d := by
  refine Array.ext' ?_
  have hrecord : List.Forall₂ Eq c.toList d.toList := by
    refine h.imp fun a b hab => ?_
    cases hab with
    | printed line => rfl
    | prompted hpq line => rw [hpq]
  rwa [List.forall₂_eq_eq_eq] at hrecord

/-- Which traces correspond. They still do when both get the same line. -/
structure TraceMatch where
  rel : Trace → Trace → Prop
  push : ∀ {t t'} e, rel t t' → rel (t.push e) (t'.push e)

/-- Traces that are the same. -/
def TraceMatch.same : TraceMatch where
  rel t t' := t' = t
  push := by
    rintro t _ e rfl
    rfl

/-- All traces. -/
def TraceMatch.any : TraceMatch := ⟨fun _ _ => True, fun _ _ => trivial⟩

/-! ## Correspondences -/

/-- How two runs correspond. What is said of scopes and closures may depend on how many cells
there are in the first run. -/
structure Correspondence extends Code where
  /-- Which cells of the two runs correspond. -/
  cells : Nat → Nat → Prop
  /-- The number of cells from which on new ones correspond, in the first run. -/
  left : Nat
  /-- The same in the second run. -/
  right : Nat
  /-- Whether a closure of the first run corresponds to that with another scope. -/
  closures : Nat → Closure → Scope → Prop
  /-- Which scopes correspond, given what `self` stands for in both runs. -/
  scopes : Nat → Option Payload → Option Payload → Scope → Scope → Prop
  /-- Which prompts may have been written. -/
  prompts : Payload → Payload → Prop
  traces : TraceMatch
  /-- Whether the first run may be short of fuel where the second is not. -/
  lenient : Prop
  one_to_one : ∀ {a b a' b'}, cells a b → cells a' b' → (a = a' ↔ b = b')
  fresh : ∀ k, cells (left + k) (right + k)
  closures_mono : ∀ {n k c s}, n ≤ k → closures n c s → closures k c s
  scopes_mono : ∀ {n k self self' s t}, n ≤ k → scopes n self self' s t → scopes k self self' s t
  asked : ∀ {n p q}, p.EqUpTo vocabulary (.numbered (closures n)) q → prompts p q
  body_runs : ∀ {n c s}, closures n c s → nodes c.body
  /-- A name that is evaluated leads to corresponding cells, if to any. -/
  visible : ∀ {n self self' s t x o}, nodes (.name x o) → x ≠ .proper "self" →
    scopes n self self' s t →
      Option.Rel (fun a b => cells a b ∧ (a < n ∨ vocabulary.origins Origin.none))
        (s.cell? x) (t.cell? x)
  /-- So does one that is assigned to. -/
  assigned : ∀ {n self self' s t x o}, targets (.nameTarget x o) → scopes n self self' s t →
    Option.Rel (fun a b => cells a b ∧ (a < n ∨ vocabulary.origins Origin.none))
      (s.cell? x) (t.cell? x)
  /-- If it leads to none, scopes still correspond when it leads to a new one. -/
  declared : ∀ {n k self self' s t x o}, targets (.nameTarget x o) → scopes n self self' s t →
    s.cell? x = none → cells n k → scopes (n + 1) self self' (⟨x, n⟩ :: s) (⟨x, k⟩ :: t)
  closure : ∀ {n self self' s t id ps r b o}, nodes (.lambda .closure ps r b o) →
    scopes n self self' s t → closures n ⟨id, ps, r, b, o, s⟩ t
  /-- In a call, scopes correspond once names of parameters lead to new cells. -/
  called : ∀ {n k p q c d params names bound}, p.EqUpTo vocabulary (.numbered (closures n)) q →
    p.Called c → q.Called d → takes c params →
      Param.names params = .ok names → List.IsPrefix bound names →
        (∀ i, cells (n + i) (k + i)) →
          scopes (n + bound.length) (some p) (some q) (c.scope.bound n bound)
            (d.scope.bound k bound)

namespace Correspondence

variable (C : Correspondence)

/-- Which objects correspond when the first run has a number of cells. -/
abbrev objects (n : Nat) : ObjectMatch := .numbered (C.closures n)

/-- Corresponding cells, of which something is known. -/
def Known (n a b : Nat) : Prop := C.cells a b ∧ (a < n ∨ C.vocabulary.origins Origin.none)

/-- Values that are equal up to objects. -/
abbrev Values (n : Nat) (v w : Value) : Prop := v.EqUpTo C.vocabulary (C.objects n) w

/-- States that correspond, given what `self` stands for. -/
structure States (own own' : Option Payload) (m m' : Machine) : Prop where
  scope : C.scopes m.store.size own own' m.scope m'.scope
  store : ∀ a b, C.Known m.store.size a b →
    C.Values m.store.size (m.store.get a) (m'.store.get b)
  size : ∃ k, m.store.size = C.left + k ∧ m'.store.size = C.right + k
  pending : m.console.pending = m'.console.pending
  lines : ∀ line ∈ m.console.pending, C.vocabulary.Admits line
  record : List.Forall₂ (Message.Match C.prompts) m.console.record.toList
    m'.console.record.toList
  objects : m.objects = m'.objects
  trace : C.traces.rel m.trace m'.trace

/-- What a run leaves as it was: each variable that corresponds to nothing, and the arrays that
each variable is nested in. -/
structure Leads (m m₁ : Machine) : Prop where
  size : m.store.size ≤ m₁.store.size
  kept : ∀ a, (∀ b, ¬C.cells a b) → m₁.store.get a = m.store.get a
  grows : m.Grows m₁

/-- Errors are made of what may occur. -/
def Halts : Halt → Prop
  | .error e => e.cause.Admitted C.vocabulary ∧ C.vocabulary.origins e.origin
  | _ => True

variable {C} {self self' : Option Payload} {m m' m₁ m₂ : Machine}

namespace Leads

theorem of_store (h : m₁.store = m.store) : C.Leads m m₁ := by
  have hget : ∀ cell, m₁.store.get cell = m.store.get cell := fun cell => by rw [h]
  refine ⟨Nat.le_of_eq (congrArg Store.size h.symm), fun a _ => hget a, fun cell => ?_⟩
  exact Nat.le_of_eq (congrArg (fun v => v.datatype.rank) (hget cell).symm)

theorem trans (h : C.Leads m m₁) (h' : C.Leads m₁ m₂) : C.Leads m m₂ :=
  ⟨Nat.le_trans h.size h'.size, fun a ha => (h'.kept a ha).trans (h.kept a ha),
    h.grows.trans h'.grows⟩

end Leads

theorem objects_mono {n k : Nat} (h : n ≤ k) : (C.objects n).Le (C.objects k) :=
  .numbered fun _ _ => C.closures_mono h

/-- The next cells correspond. -/
theorem States.next (h : C.States self self' m m') (i : Nat) :
    C.cells (m.store.size + i) (m'.store.size + i) := by
  obtain ⟨k, hk, hk'⟩ := h.size
  rw [hk, hk', Nat.add_assoc, Nat.add_assoc]
  exact C.fresh (k + i)

/-- Of corresponding cells both are there or none is. -/
theorem States.lt_size_iff (h : C.States self self' m m') {a b : Nat} (hab : C.cells a b) :
    a < m.store.size ↔ b < m'.store.size := by
  obtain ⟨k, hk, hk'⟩ := h.size
  rw [hk, hk']
  constructor
  · intro ha
    by_contra hb
    have hnew := (C.one_to_one hab (C.fresh (b - C.right))).2 (by omega)
    omega
  · intro hb
    by_contra ha
    have hnew := (C.one_to_one hab (C.fresh (a - C.left))).1 (by omega)
    omega

/-- Corresponding states, with other scopes that correspond. -/
theorem States.rescoped {other other' : Option Payload} {s t : Scope}
    (h : C.States self self' m m') (hst : C.scopes m.store.size other other' s t) :
    C.States other other' { m with scope := s } { m' with scope := t } :=
  ⟨hst, h.store, h.size, h.pending, h.lines, h.record, h.objects, h.trace⟩

/-- A new variable on both sides. -/
theorem States.push (h : C.States self self' m m') {v w : Value}
    (hv : C.Values m.store.size v w) :
    C.States self self' { m with store := m.store.push v } { m' with store := m'.store.push w } ∧
      C.Leads m { m with store := m.store.push v } := by
  have hnew : C.cells m.store.size m'.store.size := h.next 0
  have hle : m.store.size ≤ (m.store.push v).size := by
    rw [Store.size_push]
    exact Nat.le_succ _
  obtain ⟨k, hk, hk'⟩ := h.size
  refine ⟨⟨C.scopes_mono hle h.scope, fun a b hab => ?_, ⟨k + 1, ?_, ?_⟩, h.pending, h.lines,
    h.record, h.objects, h.trace⟩, hle, fun a ha => ?_, .push rfl⟩
  · show C.Values (m.store.push v).size ((m.store.push v).get a) ((m'.store.push w).get b)
    rw [Store.get_push, Store.get_push]
    have hiff := C.one_to_one hab.1 hnew
    by_cases ha : a = m.store.size
    · rw [if_pos ha, if_pos (hiff.1 ha)]
      exact hv.mono (objects_mono hle)
    · rw [if_neg ha, if_neg fun hb => ha (hiff.2 hb)]
      have hknown : C.Known m.store.size a b := by
        refine ⟨hab.1, hab.2.imp_left fun hlt => ?_⟩
        have hsucc : a < m.store.size + 1 := (Store.size_push m.store v) ▸ hlt
        omega
      exact (h.store a b hknown).mono (objects_mono hle)
  · show (m.store.push v).size = _
    rw [Store.size_push, hk, Nat.add_assoc]
  · show (m'.store.push w).size = _
    rw [Store.size_push, hk', Nat.add_assoc]
  · show (m.store.push v).get a = m.store.get a
    rw [Store.get_push, if_neg]
    rintro rfl
    exact ha _ hnew

/-- Other values in corresponding cells. -/
theorem States.set (h : C.States self self' m m') {a b : Nat} (hab : C.cells a b) {v w : Value}
    (hv : C.Values m.store.size v w) :
    C.States self self' { m with store := m.store.set a v }
      { m' with store := m'.store.set b w } := by
  have hsize : (m.store.set a v).size = m.store.size := Store.size_set ..
  refine ⟨?_, fun c d hcd => ?_, ?_, h.pending, h.lines, h.record, h.objects, h.trace⟩
  · show C.scopes (m.store.set a v).size _ _ _ _
    rw [hsize]
    exact h.scope
  · show C.Values (m.store.set a v).size ((m.store.set a v).get c) ((m'.store.set b w).get d)
    replace hcd : C.Known (m.store.set a v).size c d := hcd
    rw [hsize] at hcd ⊢
    rw [Store.get_set, Store.get_set]
    have hsame : c = a ∧ a < m.store.size ↔ d = b ∧ b < m'.store.size :=
      and_congr (C.one_to_one hcd.1 hab) (h.lt_size_iff hab)
    by_cases hc : c = a ∧ a < m.store.size
    · rw [if_pos hc, if_pos (hsame.1 hc)]
      exact hv
    · rw [if_neg hc, if_neg fun hd => hc (hsame.2 hd)]
      exact h.store c d hcd
  · obtain ⟨k, hk, hk'⟩ := h.size
    exact ⟨k, hsize.trans hk, (Store.size_set ..).trans hk'⟩

variable (C)

/-- The states of the two runs, paired. -/
def pairing : Pairing where
  states := C.States
  leads := C.Leads
  halts := C.Halts
  lenient := C.lenient
  refl _ := .of_store rfl
  trans := .trans

/-! ## Steps of evaluations -/

/-- Steps that lead from corresponding states to corresponding states. -/
def steps : StepRelation where
  vocabulary := C.vocabulary
  objects m := C.objects m.store.size
  leads := C.Leads
  halts := C.Halts
  nodes := C.nodes
  rel := Run.Paired C.pairing
  leads_refl _ := .of_store rfl
  leads_trans := .trans
  objects_mono h := objects_mono h.size
  fault _ := trivial
  error hcause ho := ⟨hcause, ho⟩
  literal := C.literal
  held := C.held
  placed := C.placed
  operand h hk := C.part h hk.2
  pure := .pure
  throw he := Run.Paired.throw (P := C.pairing) he
  bind := .bind
  freshObject := by
    intro self self' m m' hm
    refine .ok (congrArg NanObject.made hm.objects) ?_ (.of_store rfl)
    exact { hm with objects := congrArg (· + 1) hm.objects }
  lookup := by
    intro self self' m x o hn hx m' hm
    refine .ok ?_ hm (.of_store rfl)
    have hcell := C.visible hn hx hm.scope
    show Option.Rel _ (m.store.lookup? m.scope x) (m'.store.lookup? m'.scope x)
    unfold Store.lookup?
    revert hcell
    generalize m.scope.cell? x = a?, m'.scope.cell? x = b?
    rintro (hab | _)
    · have hv := hm.store _ _ hab
      exact .some ⟨hv.payload, hv.datatype⟩
    · exact .none
  makeClosure := by
    intro self self' m ps r b o hn m' hm
    refine .ok ?_ { hm with objects := congrArg (· + 1) hm.objects } (.of_store rfl)
    exact .closure ⟨m.objects, ps, r, b, o, m.scope⟩ ⟨hm.objects.symm, C.closure hn hm.scope⟩

end Correspondence

/-! ## Places -/

namespace StepRelation

variable (R : StepRelation)

/-- Both computations have related results, or stop for the same reason, for which they may. -/
inductive Ends {α β : Type} (Q : α → β → Prop) : Except Halt α → Except Halt β → Prop where
  | ok {a : α} {b : β} (h : Q a b) : Ends Q (.ok a) (.ok b)
  | error {e : Halt} (he : R.halts e) : Ends Q (.error e) (.error e)

variable {R}

theorem Ends.bind {α β γ δ : Type} {Q : α → β → Prop} {S : γ → δ → Prop} {x : Except Halt α}
    {y : Except Halt β} (h : R.Ends Q x y) {f : α → Except Halt γ} {g : β → Except Halt δ}
    (hf : ∀ a b, Q a b → R.Ends S (f a) (g b)) : R.Ends S (x >>= f) (y >>= g) := by
  cases h with
  | ok h => exact hf _ _ h
  | error he => exact .error he

theorem Ends.of_matches {α β : Type} {Q : α → β → Prop} {x : Except Fault α} {y : Except Fault β}
    (h : Matches Q x y) : R.Ends Q (liftM x) (liftM y) := by
  cases h with
  | ok h => exact .ok h
  | error f => exact .error (R.fault f)

theorem Ends.self {α : Type} (x : Except Fault α) : R.Ends Eq (liftM x) (liftM x) :=
  .of_matches (.self fun _ _ => rfl)

theorem Ends.position {v w : Value} {m : Machine} (h : R.Values v w m) (length : Nat) :
    R.Ends Eq (v.position length) (w.position length) := by
  rw [← h.position length]
  cases hposition : v.position length with
  | ok i => exact .ok rfl
  | error e => exact .error (R.halts_position h hposition)

end StepRelation

/-- Places in corresponding variables, with related indices. -/
inductive Place.Match (R : StepRelation) (m : Machine) (cells : Nat → Nat → Prop) :
    Place → Place → Prop where
  | cell {a b : Nat} (h : cells a b) : Match R m cells (.cell a) (.cell b)
  | element {p q : Place} (hbase : Match R m cells p q) {v w : Value} (hindex : R.Values v w m) :
      Match R m cells (.element p v) (.element q w)

namespace Place.Match

variable {R : StepRelation} {m m₁ : Machine} {cells : Nat → Nat → Prop} {p q : Place}
  {s t : Store} {v w : Value}

theorem root (h : p.Match R m cells q) : cells p.root q.root := by
  induction h with
  | cell h => exact h
  | element _ _ ih => exact ih

theorem mono {cells' : Nat → Nat → Prop} (h : p.Match R m cells q) (hm : R.leads m m₁)
    (hcells : ∀ a b, cells a b → cells' a b) : p.Match R m₁ cells' q := by
  induction h with
  | cell h => exact .cell (hcells _ _ h)
  | element _ hindex ih => exact .element ih (hindex.mono hm)

section

variable (hstore : ∀ a b, cells a b → R.Values (s.get a) (t.get b) m)

include hstore

theorem get (h : p.Match R m cells q) :
    R.Ends (fun v w => R.Values v w m) (p.get s) (q.get t) := by
  induction h with
  | cell h => exact .ok (hstore _ _ h)
  | @element p q hbase v w hindex ih =>
    refine ih.bind fun array array' harray => ?_
    rw [harray.payload.length, ← harray.datatype, ← harray.origin]
    refine (StepRelation.Ends.self _).bind ?_
    rintro length _ rfl
    refine (StepRelation.Ends.position hindex length).bind ?_
    rintro position _ rfl
    refine (StepRelation.Ends.of_matches (harray.payload.item position)).bind fun e e' he => ?_
    refine (StepRelation.Ends.self _).bind ?_
    rintro t _ rfl
    exact .ok ⟨he, rfl, rfl, harray.placed⟩

theorem updated (h : p.Match R m cells q) (hv : R.Values v w m) :
    R.Ends (fun v w => R.Values v w m) (p.updated s v) (q.updated t w) := by
  induction h generalizing v w with
  | cell h => exact .ok hv
  | @element p q hbase i j hindex ih =>
    refine (hbase.get hstore).bind fun array array' harray => ?_
    rw [harray.payload.length, ← harray.origin, ← hv.datatype]
    refine (StepRelation.Ends.self _).bind ?_
    rintro length _ rfl
    refine (StepRelation.Ends.position hindex length).bind ?_
    rintro position _ rfl
    refine (StepRelation.Ends.of_matches (harray.payload.withItem position hv.payload)).bind
      fun e e' he => ?_
    exact ih ⟨he, rfl, rfl, harray.placed⟩

end

end Place.Match

namespace Correspondence

variable (C : Correspondence)

/-- Places in corresponding variables, which are nested in as many arrays as there are indices. -/
structure Places (m : Machine) (p q : Place) : Prop where
  isMatch : p.Match C.steps m (C.Known m.store.size) q
  depth_le : p.depth ≤ (m.store.get p.root).datatype.rank

/-- A value of the datatype is in the place. -/
def Reads (m : Machine) (p : Place) (t : Datatype) : Prop :=
  ∃ v, p.get m.store = .ok v ∧ v.datatype = t

variable {C} {self self' : Option Payload} {m m' m₁ : Machine} {p q : Place}

theorem Places.mono (hm : C.Leads m m₁) (h : C.Places m p q) : C.Places m₁ p q := by
  refine ⟨h.isMatch.mono hm fun a b hab => ⟨hab.1, hab.2.imp_left fun hlt => ?_⟩, ?_⟩
  · exact Nat.lt_of_lt_of_le hlt hm.size
  · exact Nat.le_trans h.depth_le (hm.grows _)

/-- An array has one more level of nesting to index. -/
theorem Places.element {t : Datatype} {v w : Value} (h : C.Places m p q) (hreads : Reads m p t)
    (harray : Datatype.anyArray.accepts t = .ok true) (hm : C.Leads m m₁)
    (hv : C.steps.Values v w m₁) : C.Places m₁ (.element p v) (.element q w) := by
  refine ⟨.element (h.mono hm).isMatch hv, ?_⟩
  obtain ⟨array, hget, rfl⟩ := hreads
  have hrank := Place.get_rank hget h.depth_le
  have hnested : 1 ≤ array.datatype.rank := Datatype.rank_le_of_accepts _ _ harray
  have hgrows := hm.grows p.root
  show p.depth + 1 ≤ (m₁.store.get p.root).datatype.rank
  omega

theorem Places.read (h : C.Places m p q) :
    Run.Paired C.pairing self self' m
      (fun v w m => C.steps.Values v w m ∧ Reads m p v.datatype) (Run.read p) (Run.read q) := by
  intro m' hm
  have hends := h.isMatch.get hm.store
  generalize hp : p.get m.store = r at hends
  generalize hq : q.get m'.store = r' at hends
  cases hends with
  | ok hv =>
    rw [Run.read_of_ok hp, Run.read_of_ok hq]
    exact .ok ⟨hv, _, hp, rfl⟩ hm (.of_store rfl)
  | error he =>
    rw [Run.read_of_error hp, Run.read_of_error hq]
    exact .error he hm (.of_store rfl)

/-- An assignment keeps a variable in its arrays, as they were when the place was read. -/
theorem Leads.written {t : Datatype} {v w : Value} (hm : C.Leads m m₁) (h : C.Places m p q)
    (hreads : Reads m p t) (haccepts : t.accepts v.datatype = .ok true)
    (hw : p.updated m₁.store v = .ok w) :
    C.Leads m { m₁ with store := m₁.store.set p.root w } := by
  obtain ⟨old, hget, rfl⟩ := hreads
  have hsize : (m₁.store.set p.root w).size = m₁.store.size := Store.size_set ..
  refine ⟨Nat.le_trans hm.size (Nat.le_of_eq hsize.symm), fun a ha => ?_, fun cell => ?_⟩
  · show (m₁.store.set p.root w).get a = m.store.get a
    rw [Store.get_set, if_neg]
    · exact hm.kept a ha
    · rintro ⟨rfl, -⟩
      exact ha _ h.isMatch.root.1
  · show _ ≤ ((m₁.store.set p.root w).get cell).datatype.rank
    rw [Store.get_set]
    split
    · next hcell =>
      rw [hcell.1, Place.updated_datatype hw]
      exact Datatype.rank_le_of_accepts _ _ (Place.accepts_wrapped hget h.depth_le haccepts)
    · exact hm.grows cell

theorem Places.write {t : Datatype} (h : C.Places m p q) (hreads : Reads m p t) {x y : Run Value}
    (hxy : Run.Paired C.pairing self self' m
      (fun v w m => C.steps.Values v w m ∧ t.accepts v.datatype = .ok true) x y) :
    Run.Paired C.pairing self self' m (fun _ _ _ => True) (x >>= Run.write p)
      (y >>= Run.write q) := by
  intro m' hm
  have houtcomes := hxy m' hm
  generalize hx : x m = r at houtcomes
  generalize hy : y m' = r' at houtcomes
  cases houtcomes with
  | error he hm₁ hleads =>
    rw [Run.bind_of_error hx, Run.bind_of_error hy]
    exact .error he hm₁ hleads
  | short hlenient m₁ =>
    rw [Run.bind_of_error hx]
    exact .short hlenient m₁ _
  | @ok v w m₁ m₁' hv hm₁ hleads =>
    rw [Run.bind_of_ok hx, Run.bind_of_ok hy]
    have hplaces := (h.mono hleads).isMatch
    have hends := hplaces.updated hm₁.store hv.1
    generalize hp : p.updated m₁.store v = s at hends
    generalize hq : q.updated m₁'.store w = s' at hends
    cases hends with
    | ok hwhole =>
      rw [Run.write_of_ok hp, Run.write_of_ok hq]
      exact .ok trivial (hm₁.set hplaces.root.1 hwhole) (hleads.written h hreads hv.2 hp)
    | error he =>
      rw [Run.write_of_error hp, Run.write_of_error hq]
      exact .error he hm₁ hleads

/-! ## Variables and scopes -/

/-- The cell of a variable that is assigned to, which may have to be made. -/
theorem cellFor {name : Name} {o : Origin} (ht : C.targets (.nameTarget name o)) :
    Run.Paired C.pairing self self' m (fun a b m => C.Places m (.cell a) (.cell b))
      (Run.cellFor name o) (Run.cellFor name o) := by
  intro m' hm
  have hcell := C.assigned ht hm.scope
  generalize ha : m.scope.cell? name = a? at hcell
  generalize hb : m'.scope.cell? name = b? at hcell
  cases hcell with
  | some hab =>
    rw [Run.cellFor_of_some ha, Run.cellFor_of_some hb]
    exact .ok ⟨.cell hab, Nat.zero_le _⟩ hm (.of_store rfl)
  | none =>
    rw [Run.cellFor_of_none ha, Run.cellFor_of_none hb]
    have hunset : C.Values m.store.size (Value.unset o) (Value.unset o) :=
      ⟨.atom rfl trivial, rfl, rfl, C.target_placed ht rfl⟩
    obtain ⟨hm₁, hleads⟩ := hm.push hunset
    have hnext : C.cells m.store.size m'.store.size := hm.next 0
    have hsize : (m.store.push (Value.unset o)).size = m.store.size + 1 := Store.size_push ..
    refine .ok ⟨.cell ?_, Nat.zero_le _⟩ (hm₁.rescoped ?_) ⟨hleads.size, hleads.kept, hleads.grows⟩
    · show C.Known (m.store.push (Value.unset o)).size _ _
      rw [hsize]
      exact ⟨hnext, .inl (Nat.lt_succ_self _)⟩
    · show C.scopes (m.store.push (Value.unset o)).size _ _ _ _
      rw [hsize]
      exact C.declared ht hm.scope ha hnext

theorem fst_zip_isPrefix {α β : Type} (as : List α) (bs : List β) :
    List.IsPrefix ((as.zip bs).map Prod.fst) as := by
  induction as generalizing bs with
  | nil => exact List.nil_prefix
  | cons a as ih =>
    cases bs with
    | nil => exact List.nil_prefix
    | cons b bs => exact List.cons_prefix_cons.2 ⟨rfl, ih bs⟩

theorem forall₂_zip {α β γ : Type} {R : β → γ → Prop} (as : List α) {bs : List β} {cs : List γ}
    (h : List.Forall₂ R bs cs) :
    List.Forall₂ (fun b c => b.1 = c.1 ∧ R b.2 c.2) (as.zip bs) (as.zip cs) := by
  induction h generalizing as with
  | nil => cases as <;> exact .nil
  | cons hbc _ ih =>
    cases as with
    | nil => exact .nil
    | cons a as => exact .cons ⟨rfl, hbc⟩ (ih as)

/-- New variables on both sides, in cells one after the other. -/
theorem bindAll {s t : Scope} {bs cs : List (Name × Value)}
    (h : List.Forall₂ (fun b c => b.1 = c.1 ∧ C.Values m.store.size b.2 c.2) bs cs)
    (hm : C.States self self' m m') :
    C.pairing.Outcomes self self'
      (fun s' t' m₁ => s' = s.bound m.store.size (bs.map Prod.fst) ∧
        t' = t.bound m'.store.size (bs.map Prod.fst) ∧ m₁.store.size = m.store.size + bs.length)
      m (Run.bindAll s bs m) (Run.bindAll t cs m') := by
  induction bs generalizing m m' s t cs with
  | nil =>
    cases h
    exact .ok ⟨rfl, rfl, rfl⟩ hm (.of_store rfl)
  | cons b bs ih =>
    obtain ⟨⟨name', w⟩, cs, ⟨hname, hv⟩, hrest, rfl⟩ := List.forall₂_cons_left_iff.1 h
    obtain ⟨name, v⟩ := b
    obtain rfl : name = name' := hname
    obtain ⟨hm₁, hleads⟩ := hm.push hv
    have hlater := hrest.imp fun _ _ hbc =>
      And.intro hbc.1 (hbc.2.mono (objects_mono hleads.size))
    have houtcomes := ih (s := ⟨name, m.store.size⟩ :: s) (t := ⟨name, m'.store.size⟩ :: t)
      hlater hm₁
    have hsize : (m.store.push v).size = m.store.size + 1 := Store.size_push ..
    have hsize' : (m'.store.push w).size = m'.store.size + 1 := Store.size_push ..
    unfold Run.bindAll
    rw [Run.bind_of_ok (Run.bind_eq ..), Run.bind_of_ok (Run.bind_eq ..)]
    refine Pairing.Outcomes.after hleads (houtcomes.imp ?_)
    rintro s' t' m₂ ⟨rfl, rfl, hcount⟩
    refine ⟨?_, ?_, ?_⟩
    · show Scope.bound (m.store.push v).size _ _ = _
      rw [hsize]
      rfl
    · show Scope.bound (m'.store.push w).size _ _ = _
      rw [hsize']
      rfl
    · rw [hcount, List.length_cons]
      show (m.store.push v).size + _ = _
      rw [hsize]
      omega

/-- Steps in scopes of their own. -/
theorem within {α β : Type} {Q : α → β → Machine → Prop} {x : Run α} {y : Run β} {p q : Payload}
    {s t : Scope} (hst : C.scopes m.store.size (some p) (some q) s t)
    (hQ : ∀ a b m m₁, C.Leads m m₁ → Q a b m → Q a b m₁)
    (h : ∀ m₁, C.Leads m m₁ → Run.Paired C.pairing (some p) (some q) m₁ Q x y) :
    Run.Paired C.pairing self self' m Q (Run.within s x) (Run.within t y) := by
  intro m' hm
  have hinner := h { m with scope := s } (.of_store rfl) _ (hm.rescoped hst)
  unfold Run.within
  revert hinner
  dsimp only
  generalize x { m with scope := s } = r, y { m' with scope := t } = r'
  intro hinner
  cases hinner with
  | @ok _ _ m₁ _ hQ₁ hm₁ hleads =>
    refine .ok (hQ _ _ m₁ _ (.of_store rfl) hQ₁) ?_ ⟨hleads.size, hleads.kept, hleads.grows⟩
    exact hm₁.rescoped (C.scopes_mono hleads.size hm.scope)
  | error he hm₁ hleads =>
    refine .error he ?_ ⟨hleads.size, hleads.kept, hleads.grows⟩
    exact hm₁.rescoped (C.scopes_mono hleads.size hm.scope)
  | short hlenient m₁ => exact .short hlenient _ _

/-- Steps whose scope stays if they come to their end. -/
theorem body {α β : Type} {Q : α → β → Machine → Prop} {x : Run α} {y : Run β}
    (h : Run.Paired C.pairing self self' m Q x y) :
    Run.Paired C.pairing self self' m Q (Run.body x) (Run.body y) := by
  intro m' hm
  have hinner := h m' hm
  unfold Run.body
  revert hinner
  dsimp only
  generalize x m = r, y m' = r'
  intro hinner
  cases hinner with
  | ok hQ hm₁ hleads => exact .ok hQ hm₁ hleads
  | error he hm₁ hleads =>
    refine .error he ?_ ⟨hleads.size, hleads.kept, hleads.grows⟩
    exact hm₁.rescoped (C.scopes_mono hleads.size hm.scope)
  | short hlenient m₁ => exact .short hlenient _ _

/-! ## Runs -/

theorem States.record_push {c d : Array Message} {a b : Message}
    (h : List.Forall₂ (Message.Match C.prompts) c.toList d.toList)
    (hab : a.Match C.prompts b) :
    List.Forall₂ (Message.Match C.prompts) (c.push a).toList (d.push b).toList := by
  rw [Array.toList_push, Array.toList_push]
  exact List.rel_append h (.cons hab .nil)

variable (C)

/-- Runs that lead from corresponding states to corresponding states. -/
def relation : RunRelation where
  toStepRelation := C.steps
  __ := C.toCode
  places := C.Places
  reads := Reads
  scopes m p q s t := C.scopes m.store.size (some p) (some q) s t
  lenient := C.lenient
  body_runs h := C.body_runs h.2
  places_mono := Places.mono
  scopes_mono h := C.scopes_mono h.size
  element := Places.element
  exhausted := trivial
  short h := Run.Paired.short (P := C.pairing) h
  note level line := fun _ hm =>
    .ok trivial { hm with trace := C.traces.push ⟨level, line⟩ hm.trace } (.of_store rfl)
  print := by
    intro self self' m line _ m' hm
    have hrecord := States.record_push hm.record (.printed line)
    exact .ok trivial { hm with record := hrecord } (.of_store rfl)
  prompt := by
    intro self self' m p q line hpq _ m' hm
    have hrecord := States.record_push hm.record (.prompted (C.asked hpq) line)
    exact .ok trivial { hm with record := hrecord } (.of_store rfl)
  readLine := by
    intro self self' m m' hm
    have hline : m.console.pending.headD [] = m'.console.pending.headD [] := by rw [hm.pending]
    have hadmits : C.vocabulary.Admits (m.console.pending.headD []) := by
      cases hpending : m.console.pending with
      | nil => exact fun _ h => absurd h List.not_mem_nil
      | cons line lines =>
        exact hm.lines line (by rw [hpending]; exact List.mem_cons_self)
    refine .ok ⟨hline, hadmits⟩ { hm with pending := ?_, lines := ?_ } (.of_store rfl)
    · exact congrArg List.tail hm.pending
    · exact fun line hline => hm.lines line (List.mem_of_mem_tail hline)
  cellFor := cellFor
  read := Places.read
  write h hreads := h.write hreads
  bindAll := by
    intro self self' m p q c d params names vs ws hpq hc hd hparams hnames hvs m' hm
    refine (bindAll (forall₂_zip names hvs) hm).imp ?_
    rintro _ _ m₁ ⟨rfl, rfl, hsize⟩
    rw [hsize, ← List.length_map]
    exact C.called hpq hc hd hparams hnames (fst_zip_isPrefix names vs) fun i => hm.next i
  within := within
  body := body

end Correspondence

end Mandate
