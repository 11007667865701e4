/-
  Mandate.Proofs.ScopeHistory

  Scopes and what was done with them. Scopes keep chains of names and cells; a history knows only
  which scope was made in which other one and what was given to which variable.

    * `History.path`, `History.nearest?` and `History.latest?` are the way from a scope to its
      root, the nearest scope on it whose variable has a name, and the value that the variable of
      a scope was given last.
    * `Reflects`: chains and cells are those of a history. One action keeps this
      (`Reflects.perform`), so it holds of every history (`reflects`).
    * `lookups_follow_history`: lookups find the latest value of the nearest variable, and a
      change is seen by the lookups that find the same variable and by no others.
-/

import Mathlib.Data.List.Forall2
import Mandate.Scopes

namespace Mandate.Scopes

/-! ## Histories -/

/-- What was done with scopes, the last action first. -/
abbrev History := List Action

namespace History

/-- The scopes that come of a history. -/
def scopes : History → Scopes
  | [] => {}
  | action :: earlier => ((scopes earlier).perform action).2

/-- What comes of an action after a history. -/
def answer (h : History) (action : Action) : Except Halt Answer := (h.scopes.perform action).1

/-- How many scopes were made. -/
def made : History → Nat
  | [] => 0
  | .push _ _ _ :: earlier => made earlier + 1
  | _ :: earlier => made earlier

/-- The way from a scope to its root, by the scopes they were made in. A scope that was never made
has none. -/
def path : History → Nat → List Nat
  | [], _ => []
  | .push parent? _ _ :: earlier, node =>
    if node = made earlier then node :: (parent?.map (path earlier)).getD [] else path earlier node
  | _ :: earlier, node => path earlier node

/-- The name of the variable that a scope was made with. -/
def nameOf? : History → Nat → Option Name
  | [], _ => none
  | .push _ name _ :: earlier, node =>
    if node = made earlier then some name else nameOf? earlier node
  | _ :: earlier, node => nameOf? earlier node

/-- Whether the variable of a scope has a name. -/
def hasName (h : History) (name : Name) (node : Nat) : Bool := (h.nameOf? node).any (·.same name)

/-- The nearest scope whose variable has a name, on the way from a scope to its root. -/
def nearest? (h : History) (node : Nat) (name : Name) : Option Nat :=
  (h.path node).find? (h.hasName name)

/-- The value that the variable of a scope was given last, or else was made with. -/
def latest? : History → Nat → Option Value
  | [], _ => none
  | .push _ _ v :: earlier, node => if node = made earlier then some v else latest? earlier node
  | .set start name v _ :: earlier, node =>
    if nearest? earlier start name = some node then some v else latest? earlier node
  | _ :: earlier, node => latest? earlier node

/-- Two lookups that find the same variable. -/
def Meet (h : History) (node : Nat) (name : Name) (other : Nat) (called : Name) : Prop :=
  ∃ i, h.nearest? node name = some i ∧ h.nearest? other called = some i

theorem lt_made_of_nameOf? {h : History} {node : Nat} {name : Name}
    (hname : h.nameOf? node = some name) : node < h.made := by
  induction h with
  | nil => cases hname
  | cons action earlier ih =>
    cases action with
    | push parent? called v =>
      rw [nameOf?] at hname
      rw [made]
      split at hname
      · omega
      · exact Nat.lt_succ_of_lt (ih hname)
    | set start called v origin => exact ih hname
    | get start called origin => exact ih hname
    | has start called => exact ih hname

theorem lt_made_of_nearest? {h : History} {node : Nat} {name : Name} {i : Nat}
    (hnearest : h.nearest? node name = some i) : i < h.made := by
  have hhas : h.hasName name i = true := List.find?_some hnearest
  rw [hasName, Option.any_eq_true] at hhas
  obtain ⟨called, hcalled, -⟩ := hhas
  exact lt_made_of_nameOf? hcalled

end History

/-! ## Chains and cells -/

/-- A name that leads to the cell of a scope's own variable. Cells and scopes are made together and
so have the same numbers. -/
def History.Binds (h : History) (b : Binding) (node : Nat) : Prop :=
  b.cell = node ∧ h.nameOf? node = some b.name

/-- What leads to the cell of a scope still does when another scope is made. -/
theorem History.Binds.push {h : History} {b : Binding} {node : Nat} (hb : h.Binds b node)
    (parent? : Option Nat) (name : Name) (v : Value) :
    History.Binds (.push parent? name v :: h) b node := by
  have hmade : node ≠ h.made := Nat.ne_of_lt (lt_made_of_nameOf? hb.2)
  refine ⟨hb.1, ?_⟩
  rw [nameOf?, if_neg hmade]
  exact hb.2

theorem History.cell?_eq_find? {h : History} {scope : Scope} {nodes : List Nat}
    (hscope : List.Forall₂ h.Binds scope nodes) (name : Name) :
    scope.cell? name = nodes.find? (h.hasName name) := by
  induction hscope with
  | nil => rfl
  | @cons b node scope nodes hb _ ih =>
    obtain ⟨rfl, hname⟩ := hb
    have hhas : h.hasName name b.cell = b.name.same name := by
      rw [hasName, hname]
      rfl
    cases hsame : b.name.same name with
    | true => rw [Scope.cell?_cons_of_same hsame, List.find?_cons_of_pos (hhas.trans hsame)]
    | false =>
      rw [Scope.cell?_cons_of_not_same hsame, ih,
        List.find?_cons_of_neg (by rw [hhas, hsame]; exact Bool.false_ne_true)]

/-- Chains and cells are those of a history. -/
structure Reflects (s : Scopes) (h : History) : Prop where
  chains : ∀ node, List.Forall₂ h.Binds (s.chain node) (h.path node)
  next : s.next = h.made
  cells : s.store.size = h.made
  values : ∀ node < h.made, h.latest? node = some (s.store.get node)

namespace Reflects

variable {s : Scopes} {h : History}

theorem cell? (hs : s.Reflects h) (node : Nat) (name : Name) :
    (s.chain node).cell? name = h.nearest? node name :=
  History.cell?_eq_find? (hs.chains node) name

/-- A scope is made behind those there are, with a cell behind those there are. -/
theorem push (hs : s.Reflects h) (parent? : Option Nat) (name : Name) (v : Value) :
    (s.push parent? name v).Reflects (.push parent? name v :: h) := by
  -- The scopes there are go on seeing what they saw, so the new one sees its parent's chain.
  have hold : ∀ node, List.Forall₂ (History.Binds (.push parent? name v :: h)) (s.chain node)
      (h.path node) := fun node => (hs.chains node).imp fun _ _ hb => hb.push parent? name v
  constructor
  case chains =>
    intro node
    rw [chain_push, History.path, hs.next]
    split
    case isTrue hnode =>
      refine .cons ⟨hs.cells.trans hnode.symm, ?_⟩ ?_
      · rw [History.nameOf?, if_pos hnode]
      · cases parent? with
        | none => exact .nil
        | some parent => exact hold parent
    case isFalse => exact hold node
  case next =>
    show (s.chains.push _).size = h.made + 1
    rw [Array.size_push]
    exact congrArg (· + 1) hs.next
  case cells =>
    show (s.store.push v).size = h.made + 1
    rw [Store.size_push, hs.cells]
  case values =>
    intro node hnode
    show (if node = h.made then some v else h.latest? node) = some ((s.store.push v).get node)
    split
    case isTrue hnew => rw [hnew, ← hs.cells, Store.get_push_self]
    case isFalse hne =>
      have hlt : node < h.made := Nat.lt_of_le_of_ne (Nat.le_of_lt_succ hnode) hne
      rw [hs.values node hlt, Store.get_push_of_lt _ (hs.cells ▸ hlt)]

/-- A change goes to the cell of the nearest variable, if there is one. -/
theorem set (hs : s.Reflects h) (node : Nat) (name : Name) (v : Value) (origin : Origin) :
    (s.perform (.set node name v origin)).2.Reflects (.set node name v origin :: h) := by
  have hcell := hs.cell? node name
  cases hnearest : h.nearest? node name with
  | none =>
    have hsame : (s.perform (.set node name v origin)).2 = s := by
      simp [Scopes.perform, Scopes.set?, Store.assign?, hcell, hnearest]
    rw [hsame]
    refine ⟨hs.chains, hs.next, hs.cells, fun i hi => ?_⟩
    rw [History.latest?, hnearest, if_neg (by simp)]
    exact hs.values i hi
  | some target =>
    have hstore : (s.perform (.set node name v origin)).2
        = { s with store := s.store.set target v } := by
      simp [Scopes.perform, Scopes.set?, Store.assign?, hcell, hnearest]
    rw [hstore]
    refine ⟨hs.chains, hs.next, (Store.size_set _ _ _).trans hs.cells, fun i hi => ?_⟩
    rw [History.latest?, hnearest]
    split
    case isTrue htarget =>
      obtain rfl := Option.some.inj htarget
      have hi : target < s.store.size := hs.cells ▸ hi
      exact congrArg some (Store.get_set_self _ hi v).symm
    case isFalse hne =>
      have hne : target ≠ i := fun heq => hne (congrArg some heq)
      exact (hs.values i hi).trans (congrArg some (Store.get_set_of_ne _ hne v).symm)

/-- Every action keeps chains and cells those of the history. -/
theorem perform (hs : s.Reflects h) (action : Action) :
    (s.perform action).2.Reflects (action :: h) := by
  cases action with
  | push parent? name v => exact hs.push parent? name v
  | set node name v origin => exact hs.set node name v origin
  | get node name origin =>
    have hsame : (s.perform (.get node name origin)).2 = s := by
      unfold Scopes.perform
      dsimp only
      split <;> rfl
    rw [hsame]
    exact ⟨hs.chains, hs.next, hs.cells, hs.values⟩
  | has node name => exact ⟨hs.chains, hs.next, hs.cells, hs.values⟩

end Reflects

theorem reflects : ∀ h : History, h.scopes.Reflects h
  | [] => ⟨fun _ => .nil, rfl, rfl, fun _ hnode => absurd hnode (Nat.not_lt_zero _)⟩
  | action :: earlier => (reflects earlier).perform action

/-! ## Lookups -/

namespace History

variable {h : History} {node : Nat} {name : Name}

theorem answer_has (h : History) (node : Nat) (name : Name) :
    h.answer (.has node name) = .ok (.truth (h.nearest? node name).isSome) := by
  show Except.ok (Answer.truth ((h.scopes.chain node).cell? name).isSome) = _
  rw [(reflects h).cell?]

theorem get?_eq (h : History) (node : Nat) (name : Name) :
    h.scopes.get? node name = (h.nearest? node name).map h.scopes.store.get := by
  rw [Scopes.get?, Store.lookup?, (reflects h).cell?]

theorem answer_get_of_none (hnearest : h.nearest? node name = none) (origin : Origin) :
    h.answer (.get node name origin) = .error (undefined name origin) := by
  have hget : h.scopes.get? node name = none := by rw [get?_eq, hnearest]; rfl
  simp only [answer, perform, hget]

/-- A lookup that finds a variable has its latest value for an answer. -/
theorem answer_get_of_some {i : Nat} {v : Value} (hnearest : h.nearest? node name = some i)
    (hlatest : h.latest? i = some v) (origin : Origin) :
    h.answer (.get node name origin) = .ok (.value v) := by
  have hvalue := (reflects h).values i (lt_made_of_nearest? hnearest)
  have hget : h.scopes.get? node name = some v := by
    rw [get?_eq, hnearest, ← hlatest, hvalue]
    rfl
  simp only [answer, perform, hget]

theorem exists_latest? {i : Nat} (hnearest : h.nearest? node name = some i) :
    ∃ v, h.latest? i = some v :=
  ⟨_, (reflects h).values i (lt_made_of_nearest? hnearest)⟩

/-- The two ways to look for a variable agree: one fails where the other finds nothing. -/
theorem answer_get_eq_undefined_iff (origin : Origin) :
    h.answer (.get node name origin) = .error (undefined name origin) ↔
      h.nearest? node name = none := by
  constructor
  · intro hundefined
    cases hnearest : h.nearest? node name with
    | none => rfl
    | some i =>
      obtain ⟨v, hv⟩ := exists_latest? hnearest
      rw [answer_get_of_some hnearest hv] at hundefined
      cases hundefined
  · intro hnearest
    exact answer_get_of_none hnearest origin

theorem answer_has_eq_false_iff :
    h.answer (.has node name) = .ok (.truth false) ↔ h.nearest? node name = none := by
  rw [answer_has]
  cases h.nearest? node name with
  | none => exact iff_of_true rfl rfl
  | some i => exact iff_of_false (fun heq => by cases heq) (fun heq => by cases heq)

/-! ## Changes -/

theorem answer_get_set_of_meet {other : Nat} {called : Name}
    (hmeet : h.Meet node name other called) (v : Value) (o origin : Origin) :
    answer (.set node name v o :: h) (.get other called origin) = .ok (.value v) := by
  obtain ⟨i, hnode, hother⟩ := hmeet
  have hlatest : latest? (.set node name v o :: h) i = some v := if_pos hnode
  exact answer_get_of_some (h := .set node name v o :: h) hother hlatest origin

/-- A lookup that finds another variable than the one changed, or none, has the answer it had. -/
theorem answer_get_set_of_not_meet {other : Nat} {called : Name}
    (hmeet : ¬ h.Meet node name other called) (v : Value) (o origin : Origin) :
    answer (.set node name v o :: h) (.get other called origin)
      = h.answer (.get other called origin) := by
  cases hother : h.nearest? other called with
  | none =>
    rw [answer_get_of_none hother]
    exact answer_get_of_none (h := .set node name v o :: h) hother origin
  | some i =>
    obtain ⟨w, hw⟩ := exists_latest? hother
    have hne : h.nearest? node name ≠ some i := fun hnode => hmeet ⟨i, hnode, hother⟩
    have hlatest : latest? (.set node name v o :: h) i = some w := (if_neg hne).trans hw
    rw [answer_get_of_some hother hw]
    exact answer_get_of_some (h := .set node name v o :: h) hother hlatest origin

/-- A change is seen wherever the same variable is found, and nowhere else. -/
theorem answer_get_set_iff {other : Nat} {called : Name} :
    (∀ v o origin, answer (.set node name v o :: h) (.get other called origin) = .ok (.value v)) ↔
      h.Meet node name other called := by
  constructor
  · intro hseen
    by_contra hmeet
    -- Otherwise the lookup would have had two answers already.
    have hfirst := hseen ⟨.bool true, Datatype.boolean, Span.none⟩ Span.none Span.none
    have hsecond := hseen ⟨.bool false, Datatype.boolean, Span.none⟩ Span.none Span.none
    rw [answer_get_set_of_not_meet hmeet] at hfirst hsecond
    rw [hfirst] at hsecond
    cases hsecond
  · exact answer_get_set_of_meet

end History

/-- Scopes are what their history says. A lookup finds the nearest variable of a name on the way to
the root and has the value it was given last for an answer. It fails where there is none on the
way, and this is also when the name is not there. A change through one scope is seen through another
exactly if both find the same variable. All other lookups have the answers they had. -/
theorem lookups_follow_history (h : History) (node : Nat) (name : Name) :
    (∀ i, h.nearest? node name = some i →
      ∃ v, h.latest? i = some v ∧ ∀ origin, h.answer (.get node name origin) = .ok (.value v)) ∧
    (∀ origin, h.answer (.get node name origin) = .error (undefined name origin) ↔
      h.answer (.has node name) = .ok (.truth false)) ∧
    (h.answer (.has node name) = .ok (.truth false) ↔
      ∀ i ∈ h.path node, h.hasName name i = false) ∧
    ∀ (other : Nat) (called : Name),
      ((∀ v o origin,
          History.answer (.set node name v o :: h) (.get other called origin) = .ok (.value v)) ↔
        h.Meet node name other called) ∧
      ∀ v o,
        (¬ h.Meet node name other called → ∀ origin,
          History.answer (.set node name v o :: h) (.get other called origin)
            = h.answer (.get other called origin)) ∧
        History.answer (.set node name v o :: h) (.has other called)
          = h.answer (.has other called) := by
  refine ⟨fun i hnearest => ?_, fun origin => ?_, ?_, fun other called =>
    ⟨History.answer_get_set_iff, fun v o => ⟨fun hmeet => ?_, ?_⟩⟩⟩
  · obtain ⟨v, hv⟩ := History.exists_latest? hnearest
    exact ⟨v, hv, History.answer_get_of_some hnearest hv⟩
  · rw [History.answer_get_eq_undefined_iff, History.answer_has_eq_false_iff]
  · rw [History.answer_has_eq_false_iff, History.nearest?, List.find?_eq_none]
    simp only [Bool.not_eq_true]
  · exact History.answer_get_set_of_not_meet hmeet v o
  · -- A change makes no scope and gives none another name.
    rw [History.answer_has, History.answer_has]
    rfl

/-- A string from nowhere. -/
def word (s : String) : Value := ⟨.text s, Datatype.string, Span.none⟩

/-- A root with an `x`, and two scopes in it: the first has a `y`, the second an `x` of its own. -/
def forked : History :=
  [.push (some 0) (.proper "x") (word "inner"), .push (some 0) (.proper "y") (word "other"),
    .push none (.proper "x") (word "outer")]

/-- A change through the scope with the `y` is seen at the root. In the other scope it is hidden by
the `x` there. -/
theorem forked_lookups_follow_history :
    (forked.path 1 = [1, 0] ∧ forked.nearest? 1 (.proper "x") = some 0) ∧
    forked.answer (.get 1 (.proper "x") Span.none) = .ok (.value (word "outer")) ∧
    History.answer (.set 1 (.proper "x") (word "new") Span.none :: forked)
      (.get 0 (.proper "x") Span.none) = .ok (.value (word "new")) ∧
    History.answer (.set 1 (.proper "x") (word "new") Span.none :: forked)
      (.get 2 (.proper "x") Span.none) = forked.answer (.get 2 (.proper "x") Span.none) ∧
    forked.answer (.get 2 (.proper "y") (⟨3, 4⟩ : Span))
      = .error (.error ⟨.undefinedVariable "y", (⟨3, 4⟩ : Span)⟩) := by
  have hroot : forked.nearest? 0 (.proper "x") = some 0 := by decide
  have hfirst : forked.nearest? 1 (.proper "x") = some 0 := by decide
  have hsecond : forked.nearest? 2 (.proper "x") = some 2 := by decide
  obtain ⟨hget, -, -, hset⟩ := lookups_follow_history forked 1 (.proper "x")
  obtain ⟨-, hundefined, hhas, -⟩ := lookups_follow_history forked 2 (.proper "y")
  refine ⟨⟨by decide, hfirst⟩, ?_, ?_, ?_, ?_⟩
  · obtain ⟨v, hv, hvalue⟩ := hget 0 hfirst
    have houter : v = word "outer" := Option.some.inj hv.symm
    rw [hvalue, houter]
  · exact (hset 0 (.proper "x")).1.2 ⟨0, hfirst, hroot⟩ _ _ _
  · refine ((hset 2 (.proper "x")).2 _ _).1 ?_ _
    rintro ⟨i, hi, hi'⟩
    rw [hfirst] at hi
    rw [hsecond, ← hi] at hi'
    cases hi'
  · rw [← undefined_proper]
    exact (hundefined _).2 (hhas.2 (by decide))

end Mandate.Scopes
