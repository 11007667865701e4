/-
  Mandate.Proofs.ElementAssignment

  Assigning to an element of a variable, at any depth.

  The place `x[i][j]` is a way into the value of `x`. Reading goes along the way and
  writing builds new arrays around what was put in, from the inside out, with the
  way looked up again at each level.

    * `Payload.along` follows positions into a payload, and `Payload.Positions` says
      which positions some indices stand for.
    * `Payload.Replaced` says what a payload is with another one at the end of a
      way. Its laws are those of a lens: what was put in is there
      (`Replaced.along_self`), the arrays on the way keep their lengths
      (`Replaced.length`), and all that is off the way stays (`Replaced.elsewhere`).
    * `Place.updated_replaced`: writing replaces what is at the end of the way.
    * `element_assignment_lawful`: what an assignment to an element does to the
      variables, and what one that fails leaves behind.
-/

import Mandate.Proofs.EffectFree

namespace Mandate

/-! ## Ways into a payload -/

namespace Payload

/-- What is at the end of a way of positions into a payload. -/
def along : Payload → List Nat → Except Fault Payload
  | p, [] => .ok p
  | p, i :: rest => do (← p.item i).along rest

/-- The positions that indices stand for, each in the array that the ones before lead to. -/
inductive Positions : Payload → List Value → List Nat → Prop where
  | nil (p : Payload) : Positions p [] []
  | cons {p e : Payload} {index : Value} {indices : List Value} {n i : Nat} {rest : List Nat}
      (hlength : p.length = .ok n) (hposition : index.position n = .ok i)
      (hitem : p.item i = .ok e) (hrest : Positions e indices rest) :
      Positions p (index :: indices) (i :: rest)

/-- What a payload is with another one in it at the end of a way. -/
inductive Replaced (v : Payload) : List Nat → Payload → Payload → Prop where
  | here (old : Payload) : Replaced v [] old v
  | inside {old e e' : Payload} {items : List Payload} {i : Nat} {rest : List Nat}
      (hitems : old.elements = .ok items) (hi : items[i]? = some e) (h : Replaced v rest e e') :
      Replaced v (i :: rest) old (.list (items.set i e'))

variable {p q e old new v : Payload} {items : List Payload} {index : Value} {indices : List Value}
  {n i : Nat} {ps qs : List Nat}

theorem item_of_elements (h : p.elements = .ok items) (hi : items[i]? = some e) :
    p.item i = .ok e := by
  rw [item, h, ok_bind, hi]
  rfl

theorem item_congr (hp : p.elements = .ok items) {others : List Payload}
    (hq : q.elements = .ok others) (hi : items[i]? = others[i]?) : p.item i = q.item i := by
  rw [item, item, hp, hq, ok_bind, ok_bind, hi]

theorem length_of_elements (h : p.elements = .ok items) : p.length = .ok items.length := by
  cases p with
  | text s =>
    cases h
    rw [length, List.length_map]
  | list items =>
    cases h
    rfl
  | _ => cases h

theorem along_cons (hitem : p.item i = .ok e) (rest : List Nat) :
    p.along (i :: rest) = e.along rest := by
  rw [along, hitem]
  rfl

theorem along_concat (h : p.along ps = .ok q) (hitem : q.item i = .ok e) :
    p.along (ps ++ [i]) = .ok e := by
  induction ps generalizing p with
  | nil =>
    cases h
    rw [List.nil_append, along_cons hitem]
    rfl
  | cons j ps ih =>
    obtain ⟨e', he', h⟩ := exists_of_bind_eq_ok h
    rw [List.cons_append, along_cons he']
    exact ih h

namespace Positions

theorem length_eq (h : p.Positions indices ps) : ps.length = indices.length := by
  induction h with
  | nil => rfl
  | cons hlength hposition hitem hrest ih => rw [List.length_cons, List.length_cons, ih]

/-- Indices stand for the same positions each time they are looked up. -/
theorem unique (h : p.Positions indices ps) (h' : p.Positions indices qs) : ps = qs := by
  induction h generalizing qs with
  | nil =>
    cases h'
    rfl
  | cons hlength hposition hitem hrest ih =>
    cases h' with
    | cons hlength' hposition' hitem' hrest' =>
      cases hlength.symm.trans hlength'
      cases hposition.symm.trans hposition'
      cases hitem.symm.trans hitem'
      rw [ih hrest']

/-- One more index. -/
theorem concat (h : p.Positions indices ps) (hq : p.along ps = .ok q) (hlength : q.length = .ok n)
    (hposition : index.position n = .ok i) (hitem : q.item i = .ok e) :
    p.Positions (indices ++ [index]) (ps ++ [i]) := by
  induction h with
  | nil p =>
    cases hq
    exact .cons hlength hposition hitem (.nil e)
  | cons hlength' hposition' hitem' hrest ih =>
    rw [along_cons hitem'] at hq
    exact .cons hlength' hposition' hitem' (ih hq)

end Positions

namespace Replaced

/-- What was put in is found at the end of the way. -/
theorem along_self (h : v.Replaced ps old new) : new.along ps = .ok v := by
  induction h with
  | here => rfl
  | @inside old e e' items i rest hitems hi h ih =>
    obtain ⟨hlt, -⟩ := List.getElem?_eq_some_iff.1 hi
    have hnew : (items.set i e')[i]? = some e' := List.getElem?_set_self hlt
    rw [along_cons (item_of_elements rfl hnew)]
    exact ih

/-- Every array on the way keeps its length. -/
theorem length (h : v.Replaced ps old new) (hfront : qs <+: ps) (hne : qs ≠ ps) :
    ∃ a b n, old.along qs = .ok a ∧ new.along qs = .ok b ∧ a.length = .ok n ∧
      b.length = .ok n := by
  induction h generalizing qs with
  | here => exact absurd (List.prefix_nil.1 hfront) hne
  | @inside old e e' items i rest hitems hi h ih =>
    cases qs with
    | nil =>
      refine ⟨old, _, items.length, rfl, rfl, length_of_elements hitems, ?_⟩
      rw [Payload.length, List.length_set]
    | cons j js =>
      obtain ⟨rfl, hjs⟩ := List.cons_prefix_cons.1 hfront
      obtain ⟨hlt, -⟩ := List.getElem?_eq_some_iff.1 hi
      have hnew : (items.set j e')[j]? = some e' := List.getElem?_set_self hlt
      rw [along_cons (item_of_elements hitems hi), along_cons (item_of_elements rfl hnew)]
      exact ih hjs fun heq => hne (by rw [heq])

/-- What is off the way stays as it is. -/
theorem elsewhere (h : v.Replaced ps old new) (hqs : ¬qs <+: ps) (hps : ¬ps <+: qs) :
    new.along qs = old.along qs := by
  induction h generalizing qs with
  | here => exact absurd List.nil_prefix hps
  | @inside old e e' items i rest hitems hi h ih =>
    cases qs with
    | nil => exact absurd List.nil_prefix hqs
    | cons j js =>
      by_cases hij : i = j
      · subst hij
        obtain ⟨hlt, -⟩ := List.getElem?_eq_some_iff.1 hi
        have hnew : (items.set i e')[i]? = some e' := List.getElem?_set_self hlt
        rw [along_cons (item_of_elements hitems hi), along_cons (item_of_elements rfl hnew)]
        exact ih (fun hjs => hqs (List.cons_prefix_cons.2 ⟨rfl, hjs⟩))
          fun hrest => hps (List.cons_prefix_cons.2 ⟨rfl, hrest⟩)
      · have hsame : (Payload.list (items.set i e')).item j = old.item j :=
          item_congr rfl hitems (List.getElem?_set_ne hij)
        rw [along, along, hsame]

/-- Replacing an array by itself with another element goes one step further. -/
theorem concat {a b : Payload} (h : b.Replaced qs old new) (ha : old.along qs = .ok a)
    (hb : v.Replaced [i] a b) : v.Replaced (qs ++ [i]) old new := by
  induction h with
  | here old =>
    cases ha
    exact hb
  | inside hitems hi h ih =>
    rw [along_cons (item_of_elements hitems hi)] at ha
    exact .inside hitems hi (ih ha)

end Replaced

end Payload

/-- A position is one in the array. -/
theorem Value.position_lt {index : Value} {n i : Nat} (h : index.position n = .ok i) : i < n := by
  obtain ⟨whole, -, h⟩ := exists_of_bind_eq_ok h
  split at h
  · next j hj =>
    cases h
    have hbounds := (Option.filter_eq_some_iff.1 hj).2
    rw [Bool.and_eq_true, decide_eq_true_eq, decide_eq_true_eq] at hbounds
    omega
  · cases h

/-! ## Reading and writing places -/

/-- Arrays of arrays, to a depth. -/
def Datatype.nested : Nat → Datatype → Datatype
  | 0, t => t
  | n + 1, t => nested n (Datatype.array t)

namespace Place

variable {p : Place} {s : Store} {v w : Value}

/-- The indices on the way to a place. -/
def indices : Place → List Value
  | .cell _ => []
  | .element base index => base.indices ++ [index]

theorem wrapped_eq_nested (p : Place) (t : Datatype) :
    p.wrapped t = Datatype.nested p.indices.length t := by
  induction p generalizing t with
  | cell n => rfl
  | element base index ih =>
    rw [wrapped, ih, indices, List.length_append]
    rfl

/-- What is read is at the end of the way. -/
theorem get_along (h : p.get s = .ok v) :
    ∃ ps, (s.get p.root).payload.Positions p.indices ps ∧
      (s.get p.root).payload.along ps = .ok v.payload := by
  induction p generalizing v with
  | cell n =>
    cases h
    exact ⟨[], .nil _, rfl⟩
  | element base index ih =>
    obtain ⟨array, harray, h⟩ := exists_of_bind_eq_ok h
    obtain ⟨length, hlength, h⟩ := exists_of_bind_eq_ok h
    obtain ⟨position, hposition, h⟩ := exists_of_bind_eq_ok h
    obtain ⟨item, hitem, h⟩ := exists_of_bind_eq_ok h
    obtain ⟨t, -, h⟩ := exists_of_bind_eq_ok h
    cases h
    obtain ⟨ps, hps, halong⟩ := ih harray
    have hitem := eq_ok_of_lift hitem
    exact ⟨ps ++ [position], hps.concat halong (eq_ok_of_lift hlength) hposition hitem,
      Payload.along_concat halong hitem⟩

/-- What is written replaces what is at the end of the way. -/
theorem updated_replaced (h : p.updated s v = .ok w) :
    ∃ ps, (s.get p.root).payload.Positions p.indices ps ∧
      v.payload.Replaced ps (s.get p.root).payload w.payload := by
  induction p generalizing v with
  | cell n =>
    cases h
    exact ⟨[], .nil _, .here _⟩
  | element base index ih =>
    obtain ⟨array, harray, h⟩ := exists_of_bind_eq_ok h
    obtain ⟨length, hlength, h⟩ := exists_of_bind_eq_ok h
    obtain ⟨position, hposition, h⟩ := exists_of_bind_eq_ok h
    obtain ⟨whole, hwhole, h⟩ := exists_of_bind_eq_ok h
    obtain ⟨items, hitems, hset⟩ := exists_of_bind_eq_ok (eq_ok_of_lift hwhole)
    cases hset
    -- The array is found and put back along the same way.
    obtain ⟨ps, hps, halong⟩ := get_along harray
    obtain ⟨qs, hqs, hreplaced⟩ := ih h
    obtain rfl := hps.unique hqs
    have hlength := eq_ok_of_lift hlength
    have hlt : position < items.length := by
      cases hlength.symm.trans (Payload.length_of_elements hitems)
      exact Value.position_lt hposition
    have hitem := List.getElem?_eq_getElem hlt
    exact ⟨ps ++ [position],
      hps.concat halong hlength hposition (Payload.item_of_elements hitems hitem),
      hreplaced.concat halong (.inside hitems hitem (.here _))⟩

end Place

/-! ## Targets -/

/-- The variable of a target, and the indices on the way to its element. -/
def Node.targetPath? : Node → Option (Name × List Node)
  | .nameTarget x _ => some (x, [])
  | .indexTarget target i _ => target.targetPath?.map fun path => (path.1, path.2 ++ [i])
  | _ => none

/-- A value that an expression comes to from a state, whatever was traced and however many
objects were made before. -/
def Engine.Computes (E : Engine) (self : Option Payload) (m : Machine) (n : Node) (v : Value) :
    Prop :=
  ∃ trace objects m', E.compute self n { m with trace := trace, objects := objects } = .ok v m'

/-- The variable of a name was made, without a value. -/
def Machine.Declares (m : Machine) (x : Name) (m' : Machine) : Prop :=
  m.scope.cell? x = none ∧ ∃ o, m' =
    { m with scope := ⟨x, m.store.size⟩ :: m.scope, store := m.store.push (Value.unset o) }

section Steps

variable {α β : Type} {m m' m₁ : Machine} {e : Halt}

theorem Run.lift_ok {x : Except Fault α} {a : α} (h : (liftM x : Run α) m = .ok a m') :
    x = .ok a ∧ m' = m := by
  cases x with
  | ok b =>
    cases h
    exact ⟨rfl, rfl⟩
  | error f => cases h

theorem Run.lift_error {x : Except Fault α} (h : (liftM x : Run α) m = .error e m') : m' = m := by
  cases x with
  | ok b => cases h
  | error f =>
    cases h
    rfl

theorem Run.read_ok {p : Place} {v : Value} (h : Run.read p m = .ok v m') :
    p.get m.store = .ok v ∧ m' = m := by
  rw [Run.read, Run.get_bind] at h
  cases hget : p.get m.store with
  | ok w =>
    rw [hget] at h
    cases h
    exact ⟨rfl, rfl⟩
  | error e =>
    rw [hget] at h
    cases h

theorem Run.read_error {p : Place} (h : Run.read p m = .error e m') : m' = m := by
  rw [Run.read, Run.get_bind] at h
  cases hget : p.get m.store with
  | ok w =>
    rw [hget] at h
    cases h
  | error e =>
    rw [hget] at h
    cases h
    rfl

theorem Run.expect_ok {t : Datatype} {v w : Value} (h : Run.expect t v m = .ok w m') :
    w = v ∧ m' = m := by
  obtain ⟨u, m₁, hrequire, h⟩ := Run.exists_of_bind_ok h
  cases h
  obtain ⟨accepted, m₂, hlift, hchecked⟩ := Run.exists_of_bind_ok hrequire
  obtain ⟨-, rfl⟩ := Run.lift_ok hlift
  cases accepted with
  | true =>
    cases hchecked
    exact ⟨rfl, rfl⟩
  | false => cases hchecked

theorem Run.computeAs_ok {E : Engine} {self : Option Payload} {t : Datatype} {n : Node} {v : Value}
    (h : E.computeAs self t n m = .ok v m') : E.compute self n m = .ok v m' := by
  obtain ⟨w, m₁, hcompute, h⟩ := Run.exists_of_bind_ok h
  obtain ⟨rfl, rfl⟩ := Run.expect_ok h
  exact hcompute

/-- Comparing datatypes leaves the state as it is. -/
theorem Run.final_expect (t : Datatype) (v : Value) (m : Machine) :
    Run.final (Run.expect t v m) = m := by
  unfold Run.expect Run.require
  cases t.accepts v.datatype with
  | error f => rfl
  | ok accepted => cases accepted <;> rfl

theorem Run.final_computeAs {E : Engine} {self : Option Payload} (t : Datatype) (n : Node)
    (m : Machine) :
    Run.final (E.computeAs self t n m) = Run.final (E.compute self n m) := by
  cases hcompute : E.compute self n m with
  | ok v m₁ =>
    rw [Engine.computeAs, Run.bind_of_ok hcompute]
    exact Run.final_expect t v m₁
  | error e m₁ =>
    rw [Engine.computeAs, Run.bind_of_error hcompute]

namespace Machine.EqUpToObjects

variable {x : Run α} (h : m.EqUpToObjects (Run.final (x m)))

include h

theorem of_ok {a : α} (hx : x m = .ok a m') : m.EqUpToObjects m' := by
  rwa [hx] at h

theorem of_error (hx : x m = .error e m') : m.EqUpToObjects m' := by
  rwa [hx] at h

end Machine.EqUpToObjects

/-- The variable of a name is there or is made. -/
theorem Run.cellFor_cases (x : Name) (o : Origin) (m : Machine) :
    (∃ cell, m.scope.cell? x = some cell ∧ Run.cellFor x o m = .ok cell m) ∨
      ∃ m', m.Declares x m' ∧ Run.cellFor x o m = .ok m.store.size m' := by
  cases hcell : m.scope.cell? x with
  | some cell => exact .inl ⟨cell, rfl, Run.cellFor_of_some hcell⟩
  | none =>
    rw [Run.cellFor_of_none hcell]
    exact .inr ⟨_, ⟨hcell, o, rfl⟩, rfl⟩

end Steps

/-! ## Finding the place -/

section Assigning

variable {E : Engine} {self : Option Payload} {m m' : Machine} {target value : Node} {x : Name}
  {is : List Node} {h : Halt}

theorem Place.eq_cell {p : Place} (hp : p.indices = []) : p = .cell p.root := by
  cases p with
  | cell n => rfl
  | element base index =>
    exact absurd hp (List.append_ne_nil_of_right_ne_nil _ (List.cons_ne_nil _ _))

theorem Engine.Computes.of_eqUpToObjects {n : Node} {v : Value} {m₁ : Machine}
    (hm : m.EqUpToObjects m₁) (hv : E.compute self n m₁ = .ok v m') : E.Computes self m n v := by
  obtain ⟨k, rfl⟩ := hm
  exact ⟨m.trace, k, m', hv⟩

/-- What is known once the place of a target whose indices have no effects is found. -/
structure PlaceFound (E : Engine) (callee : Option Payload) (m : Machine) (x : Name)
    (is : List Node) (p : Place) (m' : Machine) : Prop where
  indices : List.Forall₂ (E.Computes callee m) is p.indices
  /-- An element can only be found in a variable that is there. -/
  state : m.EqUpToObjects m' ∧ m.scope.cell? x = some p.root ∨
    is = [] ∧ m.Declares x m' ∧ p.root = m.store.size

/-- A variable that was just made holds no array. -/
theorem PlaceFound.unchanged {p : Place} (hp : PlaceFound E self m x is p m') {array : Value}
    (hget : p.get m'.store = .ok array)
    (haccepts : Datatype.anyArray.accepts array.datatype = .ok true) :
    m.EqUpToObjects m' ∧ m.scope.cell? x = some p.root := by
  rcases hp.state with hkept | ⟨rfl, hmade, hroot⟩
  · exact hkept
  · obtain ⟨-, o, rfl⟩ := hmade
    have hunset : (m.store.push (Value.unset o)).get m.store.size = Value.unset o :=
      Store.get_push_self _ _
    rw [Place.eq_cell (List.forall₂_nil_left_iff.1 hp.indices), hroot, Place.get, hunset] at hget
    cases hget
    cases haccepts

variable (hE : ∀ n : Node, n.EffectFree →
  ∀ m : Machine, m.EqUpToObjects (Run.final (E.compute self n m)))

include hE

theorem place_ok (hpath : target.targetPath? = some (x, is)) (hfree : ∀ i ∈ is, i.EffectFree)
    {p : Place} (hplace : Semantics.place E self target m = .ok p m') :
    PlaceFound E self m x is p m' := by
  induction target using Node.targetPath?.induct generalizing is p m' with
  | case1 name o =>
    cases hpath
    obtain ⟨cell, m₁, hcell, hp⟩ := Run.exists_of_bind_ok hplace
    cases hp
    refine ⟨.nil, ?_⟩
    rcases Run.cellFor_cases x o m with ⟨c, hc, hfound⟩ | ⟨m₂, hm₂, hmade⟩
    · cases hfound.symm.trans hcell
      exact .inl ⟨.refl m, hc⟩
    · cases hmade.symm.trans hcell
      exact .inr ⟨rfl, hm₂, rfl⟩
  | case2 target i o ih =>
    obtain ⟨⟨y, js⟩, hjs, hpair⟩ := Option.map_eq_some_iff.1 hpath
    cases hpair
    obtain ⟨base, m₁, hbase, hinside⟩ := Run.exists_of_bind_ok hplace
    obtain ⟨array, m₂, hread, hcheck⟩ := Run.exists_of_bind_ok hinside
    obtain ⟨hget, rfl⟩ := Run.read_ok hread
    obtain ⟨accepted, m₃, hlift, hrest⟩ := Run.exists_of_bind_ok hcheck
    obtain ⟨haccepts, rfl⟩ := Run.lift_ok hlift
    have hfound := ih hjs (fun j hj => hfree j (List.mem_append_left _ hj)) hbase
    cases accepted with
    | false =>
      obtain ⟨origin, m₄, -, hthrow⟩ := Run.exists_of_bind_ok hrest
      cases hthrow
    | true =>
      obtain ⟨index, m₄, hindex, hp⟩ := Run.exists_of_bind_ok hrest
      cases hp
      -- The base holds an array, so its variable was there and nothing has changed so far.
      obtain ⟨hkept, hroot⟩ := hfound.unchanged hget haccepts
      have hi := hE i (hfree i (List.mem_append_right _ List.mem_cons_self))
      have hcompute := Run.computeAs_ok hindex
      refine ⟨?_, .inl ⟨hkept.trans ((hi _).of_ok hcompute), hroot⟩⟩
      exact List.rel_append hfound.indices (.cons (.of_eqUpToObjects hkept hcompute) .nil)
  | case3 n hname hindex =>
    rw [Node.targetPath?] at hpath
    · cases hpath
    · exact hname
    · exact hindex

/-- Where no place is found, at most a variable was made. -/
theorem place_error (hpath : target.targetPath? = some (x, is)) (hfree : ∀ i ∈ is, i.EffectFree)
    (hplace : Semantics.place E self target m = .error h m') :
    m.EqUpToObjects m' ∨ m.Declares x m' := by
  induction target using Node.targetPath?.induct generalizing is m' with
  | case1 name o =>
    cases hpath
    rcases Run.exists_of_bind_error hplace with hcell | ⟨cell, m₁, -, hp⟩
    · rcases Run.cellFor_cases x o m with ⟨c, -, hfound⟩ | ⟨m₂, -, hmade⟩
      · cases hfound.symm.trans hcell
      · cases hmade.symm.trans hcell
    · cases hp
  | case2 target i o ih =>
    obtain ⟨⟨y, js⟩, hjs, hpair⟩ := Option.map_eq_some_iff.1 hpath
    cases hpair
    have hjsfree : ∀ j ∈ js, j.EffectFree := fun j hj => hfree j (List.mem_append_left _ hj)
    rcases Run.exists_of_bind_error hplace with hbase | ⟨base, m₁, hbase, hinside⟩
    · exact ih hjs hjsfree hbase
    have hfound := place_ok hE hjs hjsfree hbase
    -- From here on nothing is declared, so whatever stops, the state is the one after the base.
    have hmade : m.EqUpToObjects m₁ ∨ m.Declares y m₁ :=
      hfound.state.imp And.left fun hstate => hstate.2.1
    rcases Run.exists_of_bind_error hinside with hread | ⟨array, m₂, hread, hcheck⟩
    · rwa [Run.read_error hread]
    obtain ⟨hget, rfl⟩ := Run.read_ok hread
    rcases Run.exists_of_bind_error hcheck with hlift | ⟨accepted, m₃, hlift, hrest⟩
    · rwa [Run.lift_error hlift]
    obtain ⟨haccepts, rfl⟩ := Run.lift_ok hlift
    cases accepted with
    | false =>
      rcases Run.exists_of_bind_error hrest with hlift' | ⟨origin, m₄, hlift', hthrow⟩
      · rwa [Run.lift_error hlift']
      · obtain ⟨-, rfl⟩ := Run.lift_ok hlift'
        cases hthrow
        exact hmade
    | true =>
      rcases Run.exists_of_bind_error hrest with hindex | ⟨index, m₄, -, hp⟩
      · have hi := hE i (hfree i (List.mem_append_right _ List.mem_cons_self))
        have hm' := hi m₃
        rw [← Run.final_computeAs Datatype.number] at hm'
        exact .inl ((hfound.unchanged hget haccepts).1.trans (hm'.of_error hindex))
      · cases hp
  | case3 n hname hindex =>
    rw [Node.targetPath?] at hpath
    · cases hpath
    · exact hname
    · exact hindex

/-! ## Assigning -/

/-- An assignment to an element that comes to its end puts a value into a variable that was there
before. -/
theorem assign_ok (hpath : target.targetPath? = some (x, is)) (hne : is ≠ [])
    (hfree : ∀ i ∈ is, i.EffectFree) (hvalue : value.EffectFree)
    (hassign : Semantics.assign E self target value m = .ok () m') :
    ∃ (p : Place) (v w : Value) (k : Nat), m.scope.cell? x = some p.root ∧
      List.Forall₂ (E.Computes self m) is p.indices ∧
      E.Computes self m value v ∧ p.updated m.store v = .ok w ∧
      m' = { m with store := m.store.set p.root w, objects := k } := by
  obtain ⟨p, m₁, hplace, hwriting⟩ := Run.exists_of_bind_ok hassign
  obtain ⟨old, m₂, hread, hcomputing⟩ := Run.exists_of_bind_ok hwriting
  obtain ⟨-, rfl⟩ := Run.read_ok hread
  obtain ⟨v, m₃, hcompute, hwrite⟩ := Run.exists_of_bind_ok hcomputing
  have hfound := place_ok hE hpath hfree hplace
  obtain ⟨hkept, hroot⟩ | ⟨hnil, -⟩ := hfound.state
  · have hv := Run.computeAs_ok hcompute
    obtain ⟨k, rfl⟩ := hkept.trans ((hE value hvalue m₂).of_ok hv)
    cases hw : p.updated m.store v with
    | error e => cases hwrite.symm.trans (Run.write_of_error hw)
    | ok w =>
      cases hwrite.symm.trans (Run.write_of_ok hw)
      exact ⟨p, v, w, k, hroot, hfound.indices, .of_eqUpToObjects hkept hv, hw, rfl⟩
  · exact absurd hnil hne

/-- One that does not leaves at most a variable without a value behind. -/
theorem assign_error (hpath : target.targetPath? = some (x, is)) (hne : is ≠ [])
    (hfree : ∀ i ∈ is, i.EffectFree) (hvalue : value.EffectFree)
    (hassign : Semantics.assign E self target value m = .error h m') :
    m.EqUpToObjects m' ∨ m.Declares x m' := by
  rcases Run.exists_of_bind_error hassign with hplace | ⟨p, m₁, hplace, hwriting⟩
  · exact place_error hE hpath hfree hplace
  -- A place with indices is only found in a variable that was there.
  obtain ⟨hkept, -⟩ | ⟨hnil, -⟩ := (place_ok hE hpath hfree hplace).state
  · left
    rcases Run.exists_of_bind_error hwriting with hread | ⟨old, m₂, hread, hcomputing⟩
    · rwa [Run.read_error hread]
    obtain ⟨-, rfl⟩ := Run.read_ok hread
    have hv := hE value hvalue m₂
    rw [← Run.final_computeAs old.datatype] at hv
    rcases Run.exists_of_bind_error hcomputing with hcompute | ⟨v, m₃, hcompute, hwrite⟩
    · exact hkept.trans (hv.of_error hcompute)
    · have hm₃ := hkept.trans (hv.of_ok hcompute)
      cases hw : p.updated m₃.store v with
      | error e =>
        cases hwrite.symm.trans (Run.write_of_error hw)
        exact hm₃
      | ok w => cases hwrite.symm.trans (Run.write_of_ok hw)
  · exact absurd hnil hne

end Assigning

/-! ## Running an assignment -/

/-- Before an assignment is made it is noted. -/
theorem run_assign (fuel : Nat) (self : Option Payload) (target value : Node) (o : Origin)
    (m : Machine) :
    (∃ h, (engine fuel).run self (.assign target value o) m = .error h m) ∨
      ∃ event, (engine fuel).run self (.assign target value o) m =
        (do Semantics.assign (engine (fuel - 1)) self target value; return none : Run _)
          { m with trace := m.trace.push event } := by
  cases fuel with
  | zero => exact .inl ⟨_, rfl⟩
  | succ fuel =>
    cases fuel with
    | zero => exact .inl ⟨_, rfl⟩
    | succ fuel =>
      have hrun : (engine (fuel + 2)).run self (.assign target value o) m = (do
            Run.note 3 ("run " ++ Payload.label (.node (.assign target value o)) ++ " at " ++
              (← o.shown))
            Semantics.execute (engine (fuel + 1)) self (.assign target value o) : Run _) m := rfl
      cases ho : o.shown with
      | error f =>
        rw [hrun, ho]
        exact .inl ⟨.fault f, rfl⟩
      | ok s =>
        rw [hrun, ho]
        exact .inr ⟨_, rfl⟩

/-- What is known of the value of a variable after another value was put into it. -/
structure Value.AssignedAt (path : List Nat) (v old new : Value) : Prop where
  readBack : new.payload.along path = .ok v.payload
  datatype : new.datatype = Datatype.nested path.length v.datatype
  /-- Every array on the way has its old length. -/
  lengths : ∀ qs, qs <+: path → qs ≠ path → ∃ a b n, old.payload.along qs = .ok a ∧
    new.payload.along qs = .ok b ∧ a.length = .ok n ∧ b.length = .ok n
  /-- What is off the way is what it was. -/
  elsewhere : ∀ qs, ¬qs <+: path → ¬path <+: qs → new.payload.along qs = old.payload.along qs

theorem Place.updated_assignedAt {p : Place} {s : Store} {v w : Value}
    (h : p.updated s v = .ok w) :
    ∃ path, (s.get p.root).payload.Positions p.indices path ∧
      Value.AssignedAt path v (s.get p.root) w := by
  obtain ⟨path, hpath, hreplaced⟩ := Place.updated_replaced h
  refine ⟨path, hpath, hreplaced.along_self, ?_, fun _ => hreplaced.length,
    fun _ => hreplaced.elsewhere⟩
  rw [Place.updated_datatype h, Place.wrapped_eq_nested, hpath.length_eq]

/-- Nothing can be put into a variable that was never made. -/
theorem Payload.Positions.root_lt {s : Store} {cell : Nat} {indices : List Value} {path : List Nat}
    (h : (s.get cell).payload.Positions indices path) (hne : indices ≠ []) : cell < s.size := by
  refine Nat.lt_of_not_le fun hle => ?_
  rw [Store.get_of_le s hle] at h
  cases h with
  | nil => exact hne rfl
  | cons hlength hposition hitem hrest => cases hlength

/-- Assigning to an element, where nothing is called, run or read on the way. If it comes to its
end, the value is in the element, the arrays around it take its datatype and keep their lengths
and their other elements, and no other variable changes. If not, every variable keeps its value,
and at most the variable itself was made, without a value. -/
theorem element_assignment_lawful {fuel : Nat} {self : Option Payload} {m : Machine}
    {target value : Node} {x : Name} {is : List Node} (o : Origin)
    (hpath : target.targetPath? = some (x, is)) (hne : is ≠ []) (hfree : ∀ i ∈ is, i.EffectFree)
    (hvalue : value.EffectFree) :
    (∀ r m', (engine fuel).run self (.assign target value o) m = .ok r m' →
      r = none ∧ ∃ cell v indices path, m.scope.cell? x = some cell ∧
        List.Forall₂ ((engine (fuel - 1)).Computes self m) is indices ∧
        (engine (fuel - 1)).Computes self m value v ∧
        (m.store.get cell).payload.Positions indices path ∧
        Value.AssignedAt path v (m.store.get cell) (m'.store.get cell) ∧
        (∀ other, other ≠ cell → m'.store.get other = m.store.get other) ∧
        m'.store.size = m.store.size ∧ m'.scope = m.scope ∧ m'.console = m.console) ∧
    ∀ h m', (engine fuel).run self (.assign target value o) m = .error h m' →
      (∀ cell, cell < m.store.size → m'.store.get cell = m.store.get cell) ∧
        m'.console = m.console ∧
        (m'.scope = m.scope ∧ m'.store = m.store ∨
          m.scope.cell? x = none ∧ m'.scope = ⟨x, m.store.size⟩ :: m.scope ∧
            ∃ origin, m'.store = m.store.push (Value.unset origin)) := by
  have hE : ∀ n : Node, n.EffectFree →
      ∀ m : Machine, m.EqUpToObjects (Run.final ((engine (fuel - 1)).compute self n m)) :=
    fun _ hn => hn.final_compute (fuel - 1) self
  rcases run_assign fuel self target value o m with ⟨e, hrun⟩ | ⟨event, hrun⟩
  · refine ⟨fun r m' hok => ?_, fun h m' herror => ?_⟩
    · cases hrun.symm.trans hok
    · cases hrun.symm.trans herror
      exact ⟨fun _ _ => rfl, rfl, .inl ⟨rfl, rfl⟩⟩
  refine ⟨fun r m' hok => ?_, fun h m' herror => ?_⟩
  · obtain ⟨u, m₁, hassign, hreturn⟩ := Run.exists_of_bind_ok (hrun.symm.trans hok)
    cases hreturn
    obtain ⟨p, v, w, k, hcell, hindices, hv, hw, rfl⟩ :=
      assign_ok hE hpath hne hfree hvalue hassign
    obtain ⟨path, hpositions, hassigned⟩ := Place.updated_assignedAt hw
    have hpne : p.indices ≠ [] := fun hnil => by
      rw [hnil, List.forall₂_nil_right_iff] at hindices
      exact hne hindices
    have hget : ((m.store.set p.root w).get p.root) = w :=
      Store.get_set_self _ (hpositions.root_lt hpne) w
    refine ⟨rfl, p.root, v, p.indices, path, hcell, hindices, hv, hpositions, ?_, ?_, ?_, rfl, rfl⟩
    · rw [hget]
      exact hassigned
    · exact fun other hother => Store.get_set_of_ne _ hother.symm w
    · exact Store.size_set _ _ _
  · rcases Run.exists_of_bind_error (hrun.symm.trans herror) with hassign | ⟨u, m₁, -, hreturn⟩
    · rcases assign_error hE hpath hne hfree hvalue hassign with ⟨k, rfl⟩ | ⟨hnone, origin, rfl⟩
      · exact ⟨fun _ _ => rfl, rfl, .inl ⟨rfl, rfl⟩⟩
      · exact ⟨fun _ hlt => Store.get_push_of_lt _ hlt _, rfl,
          .inr ⟨hnone, rfl, origin, rfl⟩⟩
    · cases hreturn

/-- A variable `x` with two arrays in it, and an index `i` of one. -/
def nestedArrays : Machine where
  scope := [⟨.proper "x", 0⟩, ⟨.proper "i", 1⟩]
  store := ⟨#[
    ⟨.list [.list [.bool false], .list [.bool false, .bool false]],
      Datatype.array (Datatype.array Datatype.boolean), Origin.none⟩,
    ⟨.int 1, Datatype.number, Origin.none⟩]⟩

/-- `x[i][i]` -/
def innerElement : Node :=
  .indexTarget (.indexTarget (.nameTarget (.proper "x") Origin.none)
    (.name (.proper "i") Origin.none) Origin.none) (.name (.proper "i") Origin.none) Origin.none

/-- An assignment to an element of an element comes to its end. -/
theorem innerElement_assigned : ∃ m' v path,
    (engine 5).run none (.assign innerElement (.boolean true Span.none) Origin.none) nestedArrays
      = .ok none m' ∧
    path.length = 2 ∧ Value.AssignedAt path v (nestedArrays.store.get 0) (m'.store.get 0) ∧
    m'.store.get 1 = nestedArrays.store.get 1 ∧ m'.scope = nestedArrays.scope := by
  have hends : ∃ r m', (engine 5).run none
      (.assign innerElement (.boolean true Span.none) Origin.none) nestedArrays = .ok r m' :=
    ⟨_, _, rfl⟩
  obtain ⟨r, m', hrun⟩ := hends
  have hpath : innerElement.targetPath? =
      some (.proper "x", [.name (.proper "i") Origin.none, .name (.proper "i") Origin.none]) := rfl
  have hfree : ∀ i ∈ [Node.name (.proper "i") Origin.none, .name (.proper "i") Origin.none],
      i.EffectFree := by
    intro i hi
    obtain rfl : i = .name (.proper "i") Origin.none := by simpa using hi
    exact .of_leaf rfl rfl
  obtain ⟨rfl, cell, v, indices, path, hcell, hindices, -, hpositions, hassigned, hother, -,
    hscope, -⟩ := (element_assignment_lawful Origin.none hpath (List.cons_ne_nil _ _)
      hfree (.of_leaf rfl rfl)).1 r m' hrun
  cases hcell
  have hlength : path.length = 2 := by
    rw [hpositions.length_eq, ← hindices.length_eq]
    rfl
  exact ⟨m', v, path, hrun, hlength, hassigned, hother 1 (by decide), hscope⟩

end Mandate
