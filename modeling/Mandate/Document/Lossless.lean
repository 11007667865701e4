/-
  Mandate.Document.Lossless

  Loading loses nothing: the data of a loaded tree is the data it was loaded from.

    * `Slot.toDatum_ofDatum` is the law of one slot, given that of what belongs
      there.
    * `Node.toDatum_ofDatum` is the law of trees.
-/

import Mandate.Document.Tree

namespace Mandate

/-! ## Slots -/

theorem Slot.toDatum_ofDatum {α : Type} {store : α → Datum} {load? : Datum → Option α}
    (law : ∀ d a, load? d = some a → store a = d) (d : Datum) :
    (Slot.ofDatum load? d).toDatum store = d := by
  unfold Slot.ofDatum
  split
  · next a h => exact law d a h
  · rfl

theorem Name.toDatum_ofDatum (d : Datum) : (Name.ofDatum d).toDatum = d := by
  cases d <;> rfl

theorem Origin.toDatum_ofDatum (d : Datum) : (Origin.ofDatum d).toDatum = d := by
  unfold Origin.ofDatum
  split <;> rfl

theorem Kind.name_of_ofName? {s : String} {k : Kind} (h : Kind.ofName? s = some k) :
    k.name = s := by
  have found := List.find?_some h
  simpa using found

theorem Kind.text_of_ofDatum? (d : Datum) (k : Kind) (h : Kind.ofDatum? d = some k) :
    Datum.text k.name = d := by
  unfold Kind.ofDatum? at h
  split at h
  · rw [Kind.name_of_ofName? h]
  · cases h

theorem BinaryOp.text_of_ofDatum? (d : Datum) (op : BinaryOp)
    (h : BinaryOp.ofDatum? d = some op) : Datum.text op.text = d := by
  unfold BinaryOp.ofDatum? at h
  split at h
  · have found := List.find?_some h
    rw [of_decide_eq_true found]
  · cases h

theorem UnaryOp.text_of_ofDatum? (d : Datum) (op : UnaryOp) (h : UnaryOp.ofDatum? d = some op) :
    Datum.text op.text = d := by
  unfold UnaryOp.ofDatum? at h
  split at h
  · split at h
    · next hs => cases h; rw [hs]; rfl
    · split at h
      · next hs => cases h; rw [hs]; rfl
      · cases h
  · cases h

/-! ## Datatypes -/

mutual

theorem Datatype.toDatum_of_ofDatum? :
    (t : TypeDatum) → (u : Datatype) → Datatype.ofDatum? t = some u → u.toDatum = t
  | .mk (.text k) as r, u, h => by
    unfold Datatype.ofDatum? at h
    split at h
    · next k' as' r' hk has hr =>
      cases h
      rw [Datatype.toDatum, Kind.name_of_ofName? hk, Datatype.toDatumAll_of_ofDatumAll? as as' has,
        Datatype.toDatumReturn_of_ofDatumReturn? r r' hr]
    · cases h
  | .mk .null .., _, h | .mk (.bool _) .., _, h | .mk (.int _) .., _, h
  | .mk (.number _) .., _, h | .mk (.list _) .., _, h | .mk (.object _) .., _, h => by
    cases h

theorem Datatype.toDatumAll_of_ofDatumAll? :
    (ts : List TypeDatum) → (us : List Datatype) → Datatype.ofDatumAll? ts = some us →
      Datatype.toDatumAll us = ts
  | [], us, h => by
    cases h
    rfl
  | t :: ts, us, h => by
    unfold Datatype.ofDatumAll? at h
    split at h
    · next u' us' ht hts =>
      cases h
      rw [Datatype.toDatumAll, Datatype.toDatum_of_ofDatum? t u' ht,
        Datatype.toDatumAll_of_ofDatumAll? ts us' hts]
    · cases h

theorem Datatype.toDatumReturn_of_ofDatumReturn? :
    (r : Option TypeDatum) → (u : Option Datatype) → Datatype.ofDatumReturn? r = some u →
      Datatype.toDatumReturn u = r
  | none, u, h => by
    cases h
    rfl
  | some t, u, h => by
    unfold Datatype.ofDatumReturn? at h
    cases ht : Datatype.ofDatum? t with
    | none =>
      rw [ht] at h
      cases h
    | some u' =>
      rw [ht] at h
      cases h
      rw [Datatype.toDatumReturn, Datatype.toDatum_of_ofDatum? t u' ht]

end

theorem Datatype.slotToDatum_slotOfDatum (d : Datum) :
    Datatype.slotToDatum (Datatype.slotOfDatum d) = d := by
  unfold Datatype.slotOfDatum
  split
  · next t =>
    unfold Slot.ofDatum
    split
    · next u h =>
      show Datum.datatype u.toDatum = Datum.datatype t
      rw [Datatype.toDatum_of_ofDatum? t u h]
    · rfl
  · rfl

/-! ## Parameters -/

theorem Param.toDatum_of_ofDatum? {d : Datum} {p : Param} (h : Param.ofDatum? d = some p) :
    p.toDatum = d := by
  unfold Param.ofDatum? at h
  split at h
  · cases h
    simp only [Param.toDatum, Name.toDatum_ofDatum, Origin.toDatum_ofDatum,
      Datatype.slotToDatum_slotOfDatum]
  · cases h

theorem Param.map_toDatum_of_mapM (ds : List Datum) :
    ∀ ps, ds.mapM Param.ofDatum? = some ps → ps.map Param.toDatum = ds := by
  induction ds with
  | nil =>
    intro ps h
    cases h
    rfl
  | cons d ds ih =>
    intro ps h
    rw [List.mapM_cons] at h
    cases hp : Param.ofDatum? d with
    | none => simp [hp] at h
    | some p =>
      cases hq : ds.mapM Param.ofDatum? with
      | none => simp [hp, hq] at h
      | some qs =>
        simp only [hp, hq, Option.pure_def, Option.bind_eq_bind, Option.bind_some,
          Option.some.injEq] at h
        subst h
        rw [List.map_cons, Param.toDatum_of_ofDatum? hp, ih qs hq]

theorem Param.list_of_listOfDatum? (d : Datum) (ps : List Param)
    (h : Param.listOfDatum? d = some ps) : Datum.list (ps.map Param.toDatum) = d := by
  unfold Param.listOfDatum? at h
  split at h
  · rw [Param.map_toDatum_of_mapM _ _ h]
  · cases h

/-! ## Trees -/

namespace Node

/-- A node keeps its fields if each of them is kept, as a tree and as a list of trees. -/
theorem toDatum_of_ofFields {label : Label} {fields : List Datum} {o : Origin} {n : Node}
    (law : ∀ d ∈ fields, (ofDatum d).toDatum = d ∧ slotToDatum (slotOfDatum d) = d)
    (h : ofFields label fields o = some n) : n.toDatum = .node label fields o.toDatum := by
  unfold ofFields at h
  split at h <;> cases h <;>
    simp_all [toDatum, Name.toDatum_ofDatum, Datatype.slotToDatum_slotOfDatum,
      Slot.toDatum_ofDatum Kind.text_of_ofDatum?, Slot.toDatum_ofDatum BinaryOp.text_of_ofDatum?,
      Slot.toDatum_ofDatum UnaryOp.text_of_ofDatum?,
      Slot.toDatum_ofDatum Param.list_of_listOfDatum?, LambdaStyle.label, Builtin.label]

mutual

/-- The data of a loaded tree is what it was loaded from. -/
theorem toDatum_ofDatum : (d : Datum) → (ofDatum d).toDatum = d
  | .node label fields place => by
    unfold ofDatum
    cases h : ofFields label fields (Origin.ofDatum place) with
    | none => rfl
    | some n =>
      have kept := toDatum_of_ofFields (toDatum_ofDatum_mem fields) h
      rw [Origin.toDatum_ofDatum] at kept
      exact kept
  | .null | .bool _ | .int _ | .number _ | .text _ | .list _ | .span .. | .datatype _ => rfl

theorem toDatum_ofDatum_mem : (ds : List Datum) →
    ∀ d ∈ ds, (ofDatum d).toDatum = d ∧ slotToDatum (slotOfDatum d) = d
  | [] => by
    intro d hd
    cases hd
  | d :: ds => by
    have first := toDatum_ofDatum d
    have slot := slotToDatum_slotOfDatum d
    intro e he
    rcases List.mem_cons.mp he with rfl | he
    · exact ⟨first, slot⟩
    · exact toDatum_ofDatum_mem ds e he

theorem slotToDatum_slotOfDatum : (d : Datum) → slotToDatum (slotOfDatum d) = d
  | .list ds => by
    rw [slotOfDatum, slotToDatum, toDatumAll_ofDatumAll ds]
  | .node .. | .null | .bool _ | .int _ | .number _ | .text _ | .span .. | .datatype _ => rfl

theorem toDatumAll_ofDatumAll : (ds : List Datum) → toDatumAll (ofDatumAll ds) = ds
  | [] => rfl
  | d :: ds => by
    rw [ofDatumAll, toDatumAll, toDatum_ofDatum d, toDatumAll_ofDatumAll ds]

end

end Node

end Mandate
