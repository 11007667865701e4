/-
  Mandate.Proofs.ArrayNesting

  How deep in arrays variables are nested, and what assignments do to that.

    * `Machine.Grows`: no variable leaves the arrays it is nested in.
    * `Place.get_rank`: each index of a place takes one array away.
    * `Place.accepts_wrapped`: where an element accepts a datatype, its variable
      accepts the arrays that an assignment puts around it.
-/

import Mandate.Proofs.Acceptance
import Mandate.Proofs.BasicSteps

namespace Mandate

namespace Machine

/-- No variable leaves the arrays it is nested in. -/
def Grows (m m' : Machine) : Prop :=
  ∀ cell, (m.store.get cell).datatype.rank ≤ (m'.store.get cell).datatype.rank

theorem Grows.refl (m : Machine) : m.Grows m := fun _ => Nat.le_refl _

theorem Grows.trans {a b c : Machine} (hab : a.Grows b) (hbc : b.Grows c) : a.Grows c :=
  fun cell => Nat.le_trans (hab cell) (hbc cell)

/-- A new variable was in no array before. -/
theorem Grows.push {m m' : Machine} {v : Value} (h : m'.store = m.store.push v) :
    m.Grows m' := by
  intro cell
  rw [h, Store.get_push]
  split
  · next heq =>
    rw [heq, Store.get_of_le _ (Nat.le_refl _)]
    exact Nat.zero_le _
  · exact Nat.le_refl _

end Machine

namespace Place

variable {p : Place} {s : Store} {v w : Value}

/-- How many indices a place has. -/
def depth : Place → Nat
  | .cell _ => 0
  | .element base _ => base.depth + 1

/-- A datatype with an array around it for each index of a place. -/
def wrapped : Place → Datatype → Datatype
  | .cell _, t => t
  | .element base _, t => base.wrapped (Datatype.array t)

theorem get_element {base : Place} {index : Value} (h : (element base index).get s = .ok v) :
    ∃ array, base.get s = .ok array ∧ array.datatype.element = .ok v.datatype := by
  obtain ⟨array, harray, h⟩ := exists_of_bind_eq_ok h
  obtain ⟨length, -, h⟩ := exists_of_bind_eq_ok h
  obtain ⟨position, -, h⟩ := exists_of_bind_eq_ok h
  obtain ⟨item, -, h⟩ := exists_of_bind_eq_ok h
  obtain ⟨t, ht, h⟩ := exists_of_bind_eq_ok h
  cases h
  exact ⟨array, harray, eq_ok_of_lift ht⟩

theorem updated_element {base : Place} {index : Value}
    (h : (element base index).updated s v = .ok w) :
    ∃ items o, base.updated s ⟨items, Datatype.array v.datatype, o⟩ = .ok w := by
  obtain ⟨array, -, h⟩ := exists_of_bind_eq_ok h
  obtain ⟨length, -, h⟩ := exists_of_bind_eq_ok h
  obtain ⟨position, -, h⟩ := exists_of_bind_eq_ok h
  obtain ⟨items, -, h⟩ := exists_of_bind_eq_ok h
  exact ⟨items, array.origin, h⟩

/-- What an assignment to a place makes of the datatype of its variable. -/
theorem updated_datatype (h : p.updated s v = .ok w) : w.datatype = p.wrapped v.datatype := by
  induction p generalizing v with
  | cell n =>
    cases h
    rfl
  | element base index ih =>
    obtain ⟨items, o, h⟩ := updated_element h
    exact ih h

/-- Each index takes one array away. -/
theorem get_rank (h : p.get s = .ok v) (hdepth : p.depth ≤ (s.get p.root).datatype.rank) :
    v.datatype.rank + p.depth = (s.get p.root).datatype.rank := by
  induction p generalizing v with
  | cell n =>
    cases h
    rfl
  | element base index ih =>
    obtain ⟨array, harray, helement⟩ := get_element h
    have hbasedepth : base.depth + 1 ≤ (s.get base.root).datatype.rank := hdepth
    have hrank := ih harray (by omega)
    obtain ⟨e, es, r, ht⟩ := Datatype.exists_of_rank_pos (t := array.datatype) (by omega)
    rw [ht] at helement hrank
    cases helement
    rw [Datatype.rank] at hrank
    show v.datatype.rank + (base.depth + 1) = (s.get base.root).datatype.rank
    omega

/-- What a place accepts its variable accepts, with the arrays around it. -/
theorem accepts_wrapped {t : Datatype} (h : p.get s = .ok v)
    (hdepth : p.depth ≤ (s.get p.root).datatype.rank) (hacc : v.datatype.accepts t = .ok true) :
    (s.get p.root).datatype.accepts (p.wrapped t) = .ok true := by
  induction p generalizing v t with
  | cell n =>
    cases h
    exact hacc
  | element base index ih =>
    obtain ⟨array, harray, helement⟩ := get_element h
    have hbasedepth : base.depth + 1 ≤ (s.get base.root).datatype.rank := hdepth
    have hrank := get_rank harray (by omega)
    obtain ⟨e, es, r, ht⟩ := Datatype.exists_of_rank_pos (t := array.datatype) (by omega)
    refine ih harray (by omega) ?_
    rw [ht] at helement ⊢
    cases helement
    exact Datatype.array_accepts_iff.2 ⟨t, [], none, rfl, hacc⟩

end Place

end Mandate
