/-
  Mandate.Proofs.StoredTrees

  The program of a source in a document.

    * `Node.Regular.ofDatum_toDatum`: a regular tree is the tree that its data
      stands for.
    * `Datum.Placed.storable`: placed data can be written, as long as the offsets
      have no more digits than can be read.
    * `read_stored` and `load_stored`: what is read from the text of a stored
      program is the program.
-/

import Mandate.Proofs.DocumentText
import Mandate.Proofs.Placement
import Mandate.Proofs.StoredData

namespace Mandate

/-! ## Slots -/

theorem Slot.ofDatum_of_eq_some {α : Type} {load? : Datum → Option α} {d : Datum} {a : α}
    (h : load? d = some a) : Slot.ofDatum load? d = .proper a := by
  rw [Slot.ofDatum, h]

theorem Kind.ofName?_name (k : Kind) : Kind.ofName? k.name = some k := by
  cases k <;> decide

theorem BinaryOp.ofDatum?_text (op : BinaryOp) : ofDatum? (.text op.text) = some op := by
  cases op <;> decide

theorem UnaryOp.ofDatum?_text (op : UnaryOp) : ofDatum? (.text op.text) = some op := by
  cases op <;> decide

/-! ## Datatypes -/

namespace Datatype

theorem ofDatumAll?_toDatumAll {ts : List Datatype} (h : ∀ t ∈ ts, ofDatum? t.toDatum = some t) :
    ofDatumAll? (toDatumAll ts) = some ts := by
  induction ts with
  | nil => rfl
  | cons t ts ih =>
    rw [toDatumAll, ofDatumAll?, h t List.mem_cons_self,
      ih fun u hu => h u (List.mem_cons_of_mem t hu)]

/-- A datatype loads if its arguments and its result do. -/
theorem ofDatum?_mk (k : Kind) {as : List Datatype} {r : Option Datatype}
    (has : ∀ t ∈ as, ofDatum? t.toDatum = some t) (hr : ∀ t ∈ r, ofDatum? t.toDatum = some t) :
    ofDatum? (mk k as r).toDatum = some (mk k as r) := by
  have hreturn : ofDatumReturn? (toDatumReturn r) = some r := by
    cases r with
    | none => rfl
    | some t => rw [toDatumReturn, ofDatumReturn?, hr t rfl, Option.map_some]
  rw [toDatum, ofDatum?, Kind.ofName?_name, ofDatumAll?_toDatumAll has, hreturn]

theorem WellFormed.ofDatum?_toDatum {t : Datatype} (h : t.WellFormed) :
    ofDatum? t.toDatum = some t := by
  induction h using WellFormed.induct with
  | any | string | number | boolean | instruction =>
    exact ofDatum?_mk _ (by simp) (by simp)
  | array e he ih => exact ofDatum?_mk .array (List.forall_mem_singleton.2 ih) (by simp)
  | function ps r hps hr ihps ihr => exact ofDatum?_mk .function ihps (by simpa using ihr)
  | closure ps r hps hr ihps ihr => exact ofDatum?_mk .closure ihps (by simpa using ihr)

theorem slotOfDatum_slotToDatum {t : Datatype} (h : t.WellFormed) :
    slotOfDatum (slotToDatum (.proper t)) = .proper t := by
  rw [slotToDatum, Slot.toDatum, slotOfDatum]
  exact Slot.ofDatum_of_eq_some h.ofDatum?_toDatum

end Datatype

/-! ## Parameters -/

namespace Param

theorem Regular.ofDatum?_toDatum {p : Param} (h : p.Regular) : ofDatum? p.toDatum = some p := by
  cases h with
  | mk name span ht =>
    rw [toDatum, ofDatum?, Datatype.slotOfDatum_slotToDatum ht]
    rfl

theorem listOfDatum?_list {ps : List Param} (h : ∀ p ∈ ps, p.Regular) :
    listOfDatum? (.list (ps.map toDatum)) = some ps := by
  rw [listOfDatum?]
  induction ps with
  | nil => rfl
  | cons p ps ih =>
    rw [List.map_cons, List.mapM_cons, (h p List.mem_cons_self).ofDatum?_toDatum,
      ih fun q hq => h q (List.mem_cons_of_mem p hq)]
    rfl

end Param

/-! ## Trees -/

namespace Node

theorem ofDatumAll_toDatumAll {es : List Node} (h : ∀ e ∈ es, ofDatum e.toDatum = e) :
    ofDatumAll (toDatumAll es) = es := by
  induction es with
  | nil => rfl
  | cons e es ih =>
    rw [toDatumAll, ofDatumAll, h e List.mem_cons_self,
      ih fun d hd => h d (List.mem_cons_of_mem e hd)]

theorem slotOfDatum_slotToDatum {es : List Node} (h : ∀ e ∈ es, ofDatum e.toDatum = e) :
    slotOfDatum (slotToDatum (.proper es)) = .proper es := by
  rw [slotToDatum, slotOfDatum, ofDatumAll_toDatumAll h]

/-- A node with a span loads if its fields do. -/
theorem ofDatum_node {label : Label} {fields : List Datum} {o : Span} {n : Node}
    (h : ofFields label fields (.proper o) = some n) :
    ofDatum (.node label fields (Origin.toDatum (.proper o))) = n := by
  have horigin : Origin.ofDatum (Origin.toDatum (.proper o)) = .proper o := rfl
  rw [ofDatum, horigin, h, Option.getD_some]

theorem ofDatum_literal {d : Datum} (k : Kind) (o : Span) :
    ofDatum (Node.literal d (.proper k) (.proper o)).toDatum =
      .literal d (.proper k) (.proper o) := by
  refine ofDatum_node ?_
  rw [ofFields, Slot.toDatum, Slot.ofDatum_of_eq_some (Kind.ofName?_name k)]

mutual

/-- A regular tree is the tree that its data stands for. -/
theorem Regular.ofDatum_toDatum {elements : Bool} : {n : Node} → n.Regular elements →
    ofDatum n.toDatum = n
  | _, .string s o => ofDatum_literal .string o
  | _, .number x o => ofDatum_literal .number o
  | _, .boolean b o => ofDatum_literal .boolean o
  | _, .lambda style o hps hr hb => by
    have hparams := Slot.ofDatum_of_eq_some (Param.listOfDatum?_list hps.regular)
    have hreturns := Datatype.slotOfDatum_slotToDatum hr
    have hbody := hb.ofDatum_toDatum
    refine ofDatum_node ?_
    cases style <;> rw [LambdaStyle.label, ofFields, Slot.toDatum, hparams, hreturns, hbody]
  | _, .array o hes | _, .print o hes => by
    have hlist := slotOfDatum_slotToDatum fun e he => (hes e he).ofDatum_toDatum
    exact ofDatum_node (by rw [ofFields, hlist])
  | _, .name x o | _, .input o => ofDatum_node rfl
  | _, .group o he | _, .eval o he | _, .exec o he =>
    ofDatum_node (by rw [ofFields, he.ofDatum_toDatum])
  | _, .unary op o he => by
    have hop := Slot.ofDatum_of_eq_some (UnaryOp.ofDatum?_text op)
    exact ofDatum_node (by rw [ofFields, Slot.toDatum, hop, he.ofDatum_toDatum])
  | _, .binary op o hl hr => by
    have hop := Slot.ofDatum_of_eq_some (BinaryOp.ofDatum?_text op)
    exact ofDatum_node (by
      rw [ofFields, Slot.toDatum, hop, hl.ofDatum_toDatum, hr.ofDatum_toDatum])
  | _, .call o hf has => by
    have hargs := slotOfDatum_slotToDatum fun a ha => (has a ha).ofDatum_toDatum
    exact ofDatum_node (by rw [ofFields, hf.ofDatum_toDatum, hargs])
  | _, .index o ht hv | _, .assign o ht hv | _, .loop o ht hv =>
    ofDatum_node (by rw [ofFields, ht.ofDatum_toDatum, hv.ofDatum_toDatum])
  | _, .branch o hc ht he => ofDatum_node (by
      rw [ofFields, hc.ofDatum_toDatum, ht.ofDatum_toDatum, he.ofDatum_toDatum])
  | _, .branchThen o hc ht => by
    have habsent : ofDatum absent.toDatum = absent := rfl
    exact ofDatum_node (by rw [ofFields, hc.ofDatum_toDatum, ht.ofDatum_toDatum, habsent])
  | _, .builtin word o he => by
    refine ofDatum_node ?_
    cases word <;> rw [Builtin.label, ofFields, he.ofDatum_toDatum]

theorem Target.ofDatum_toDatum {elements : Bool} : {n : Node} → n.Target elements →
    ofDatum n.toDatum = n
  | _, .name x o => ofDatum_node rfl
  | _, .element o h ht hi =>
    ofDatum_node (by rw [ofFields, ht.ofDatum_toDatum, hi.ofDatum_toDatum])

end

end Node

/-! ## Data that can be written -/

/-- An object with names that are told apart can be written if its values can. -/
theorem Json.Storable.zip (names : List String) {values : List Json}
    (hlength : names.length = values.length) (hnames : names.Nodup)
    (hvalues : ∀ j ∈ values, j.Storable) : (Json.object (names.zip values)).Storable := by
  refine .object ?_ fun m hm => hvalues m.2 (List.of_mem_zip hm).2
  rw [List.map_fst_zip (Nat.le_of_eq hlength)]
  exact hnames

theorem TypeDatum.storable_mk {kind : Json} {args : List TypeDatum} {returns : Option TypeDatum}
    (hkind : kind.Storable) (hargs : ∀ j ∈ TypeDatum.toJsonAll args, j.Storable)
    (hreturns : (TypeDatum.toJsonReturn returns).Storable) :
    (TypeDatum.mk kind args returns).toJson.Storable := by
  have hvalues : ∀ j ∈ [kind, .list (toJsonAll args), toJsonReturn returns], j.Storable := by
    rintro j (_ | ⟨_, _ | ⟨_, _ | ⟨_, hj⟩⟩⟩)
    · exact hkind
    · exact .list hargs
    · exact hreturns
    · cases hj
  exact .zip ["kind", "args", "returns"] rfl (by decide) hvalues

mutual

/-- Every datatype can be written. -/
theorem Datatype.storable_toDatum : (t : Datatype) → t.toDatum.toJson.Storable
  | .mk k as r =>
    TypeDatum.storable_mk (.text k.name) (storable_toDatumAll as) (storable_toDatumReturn r)
  | .foreign _ => TypeDatum.storable_mk .null (fun j hj => by cases hj) .null

theorem Datatype.storable_toDatumAll : (ts : List Datatype) →
    ∀ j ∈ TypeDatum.toJsonAll (Datatype.toDatumAll ts), j.Storable
  | [] => by
    intro j hj
    cases hj
  | t :: ts => by
    intro j hj
    rcases List.mem_cons.1 hj with rfl | hj
    · exact storable_toDatum t
    · exact storable_toDatumAll ts j hj

theorem Datatype.storable_toDatumReturn : (r : Option Datatype) →
    (TypeDatum.toJsonReturn (Datatype.toDatumReturn r)).Storable
  | none => .null
  | some t => storable_toDatum t

end

namespace Datum

theorem storable_datatype (t : Datatype) : (Datum.datatype t.toDatum).toJson.Storable := by
  have hvalues : ∀ j ∈ [Json.text "DataType", t.toDatum.toJson], j.Storable := by
    rintro j (_ | ⟨_, _ | ⟨_, hj⟩⟩)
    · exact .text _
    · exact Datatype.storable_toDatum t
    · cases hj
  exact .zip ["__type__", "value"] rfl (by decide) hvalues

theorem storable_span {a b : Int} (ha : a.natAbs < 10 ^ Json.digitLimit)
    (hb : b.natAbs < 10 ^ Json.digitLimit) : (Datum.span (.int a) (.int b)).toJson.Storable := by
  have hvalues : ∀ j ∈ [Json.text "Span", .int a, .int b], j.Storable := by
    rintro j (_ | ⟨_, _ | ⟨_, _ | ⟨_, hj⟩⟩⟩)
    · exact .text _
    · exact .int ha
    · exact .int hb
    · cases hj
  exact .zip ["__type__", "start", "end"] rfl (by decide) hvalues

theorem storable_node {label : Label} {fields : List Datum} {place : Datum}
    (hcount : fields.length = label.fields.length) (hfields : ∀ d ∈ fields, d.toJson.Storable)
    (hplace : place.toJson.Storable) : (Datum.node label fields place).toJson.Storable := by
  obtain ⟨hnodup, -, htype, hspan⟩ := label.fields_distinct
  -- The label and the span are members like the fields, under names that no field has.
  have hlength : label.fields.length = (toJsonAll fields).length := by
    rw [toJsonAll_eq_map, List.length_map, hcount]
  have hzip : ("type", Json.text label.text) ::
      (label.fields.zip (toJsonAll fields) ++ [("span", place.toJson)]) =
      ("type" :: (label.fields ++ ["span"])).zip
        (.text label.text :: (toJsonAll fields ++ [place.toJson])) := by
    rw [List.zip_cons_cons, List.zip_append hlength]
    rfl
  rw [toJson, hzip]
  refine .zip _ ?_ ?_ ?_
  · simp only [List.length_cons, List.length_append, List.length_nil, hlength]
  · rw [List.nodup_cons, List.mem_append, List.mem_singleton, List.nodup_append]
    refine ⟨?_, hnodup, by decide, ?_⟩
    · rintro (h | h)
      · exact htype h
      · exact absurd h (by decide)
    · rintro name hname key hkey rfl
      exact hspan (List.mem_singleton.1 hkey ▸ hname)
  · intro j hj
    rcases List.mem_cons.1 hj with rfl | hj
    · exact .text _
    rcases List.mem_append.1 hj with hj | hj
    · rw [toJsonAll_eq_map] at hj
      obtain ⟨d, hd, rfl⟩ := List.mem_map.1 hj
      exact hfields d hd
    · rw [List.mem_singleton.1 hj]
      exact hplace

/-- What has no place can be written. -/
theorem Bare.storable {d : Datum} (h : d.Bare) : d.toJson.Storable := by
  cases h with
  | null => exact .null
  | bool b => exact .bool b
  | number x => exact .number x
  | text s => exact .text s
  | datatype t => exact storable_datatype t

mutual

/-- Placed data can be written as long as its offsets can be read. -/
theorem Placed.storable {n : Nat} (hn : n < 10 ^ Json.digitLimit) : {lo hi : Int} → {d : Datum} →
    d.Placed lo hi → 0 ≤ lo → hi ≤ n → d.toJson.Storable
  | _, _, _, .bare hd _, _, _ => hd.storable
  | _, _, _, .list h, hlo, hhi => by
    rw [toJson, toJsonAll_eq_map]
    refine .list fun j hj => ?_
    obtain ⟨d, hd, rfl⟩ := List.mem_map.1 hj
    exact h.storable hn hlo hhi d hd
  | _, _, _, .node label hcount hstart hcovers hstop h, hlo, hhi => by
    have hfields := h.storable hn (by omega) (by omega)
    exact storable_node hcount hfields
      (storable_span (Nat.lt_of_le_of_lt (by omega) hn) (Nat.lt_of_le_of_lt (by omega) hn))

theorem InOrder.storable {n : Nat} (hn : n < 10 ^ Json.digitLimit) : {lo hi : Int} →
    {ds : List Datum} → InOrder lo hi ds → 0 ≤ lo → hi ≤ n → ∀ d ∈ ds, d.toJson.Storable
  | _, _, _, .nil _, _, _ => List.forall_mem_nil _
  | _, _, _, .cons head tail, hlo, hhi => by
    have hmid := head.le
    have hmid' := tail.le
    exact List.forall_mem_cons.2
      ⟨head.storable hn hlo (by omega), tail.storable hn (by omega) hhi⟩

end

mutual

/-- Placed data has every field. -/
theorem Placed.complete : {lo hi : Int} → {d : Datum} → d.Placed lo hi → d.Complete
  | _, _, _, .bare hd _ => by cases hd <;> rfl
  | _, _, _, .list h => complete_list.2 h.complete
  | _, _, _, .node _ hcount _ _ _ h => complete_node.2 ⟨hcount, h.complete, rfl⟩

theorem InOrder.complete : {lo hi : Int} → {ds : List Datum} → InOrder lo hi ds →
    ∀ d ∈ ds, d.Complete
  | _, _, _, .nil _ => List.forall_mem_nil _
  | _, _, _, .cons head tail => List.forall_mem_cons.2 ⟨head.complete, tail.complete⟩

end

end Datum

/-! ## Stored programs -/

section Stored

variable {source : List Char} {program : Node}

theorem storable_of_parse (h : parse source = .ok program)
    (hlength : source.length < 10 ^ Json.digitLimit) : program.toDatum.toJson.Storable := by
  rcases parse_placed h with hplaced | rfl
  · exact hplaced.storable hlength (Int.le_refl 0) (Int.le_refl _)
  · -- Without a token there is only an empty list at the start.
    have hzero : (0 : Int).natAbs < 10 ^ Json.digitLimit :=
      Nat.lt_of_le_of_lt (Nat.zero_le _) hlength
    refine Datum.storable_node rfl (fun d hd => ?_) (Datum.storable_span hzero hzero)
    rw [List.mem_singleton.1 hd]
    exact .list (List.forall_mem_nil _)

theorem complete_of_parse (h : parse source = .ok program) : program.toDatum.Complete := by
  rcases parse_placed h with hplaced | rfl
  · exact hplaced.complete
  · rfl

/-- What is read from the text of a stored program is its JSON form. -/
theorem read_stored (h : parse source = .ok program)
    (hlength : source.length < 10 ^ Json.digitLimit) :
    Json.read (Text.unifyNewlines program.toDatum.toJson.write) = .ok program.toDatum.toJson := by
  have hstorable := storable_of_parse h hlength
  rw [Json.unifyNewlines_write hstorable, Json.read_write hstorable]

/-- What is loaded from the JSON form of a program is the program. -/
theorem load_stored (h : parse source = .ok program) :
    Datum.ofJson program.toDatum.toJson = .ok program.toDatum ∧
      Node.ofDatum program.toDatum = program :=
  ⟨Datum.ofJson_toJson _ (complete_of_parse h), (parse_regular h).ofDatum_toDatum⟩

end Stored

end Mandate
