/-
  Mandate.Document.Tree

  Program trees to and from the data of a document. Nothing is lost on the way
  in: data that is no node stays plain data in the tree, and data of the wrong
  sort in place of a name, an operator, a span, a datatype or a list stays a
  stray in its slot.

  `Node.same` compares trees without their spans; `Node.shown` writes one out.
  Both go by the data that the trees stand for.
-/

import Mandate.Node

namespace Mandate

/-! ## Storing -/

mutual

/-- A datatype as data. One that is not of the language has no form of its own. -/
def Datatype.toDatum : Datatype → TypeDatum
  | .mk k as r => .mk (.text k.name) (Datatype.toDatumAll as) (Datatype.toDatumReturn r)
  | .foreign _ => .mk .null [] none

/-- Datatypes as data, one by one. -/
def Datatype.toDatumAll : List Datatype → List TypeDatum
  | [] => []
  | t :: ts => t.toDatum :: Datatype.toDatumAll ts

/-- A result as data. -/
def Datatype.toDatumReturn : Option Datatype → Option TypeDatum
  | none => none
  | some t => some t.toDatum

end

/-- A datatype in a slot as data. -/
def Datatype.slotToDatum (t : Slot Datatype) : Datum :=
  t.toDatum fun t => .datatype t.toDatum

/-- A parameter as data. -/
def Param.toDatum (p : Param) : Datum :=
  .node .param [p.name.toDatum, Datatype.slotToDatum p.datatype] p.span.toDatum

namespace Node

mutual

/-- A tree as data. -/
def toDatum : Node → Datum
  | .literal v k s => .node .literal [v, k.toDatum fun k => .text k.name] s.toDatum
  | .lambda style ps r b s =>
    .node style.label
      [ps.toDatum fun ps => .list (ps.map Param.toDatum), Datatype.slotToDatum r, b.toDatum]
      s.toDatum
  | .array es s => .node .array [slotToDatum es] s.toDatum
  | .name n s => .node .name [n.toDatum] s.toDatum
  | .group e s => .node .group [e.toDatum] s.toDatum
  | .index t i s => .node .index [t.toDatum, i.toDatum] s.toDatum
  | .call f as s => .node .call [f.toDatum, slotToDatum as] s.toDatum
  | .unary o e s => .node .unary [o.toDatum fun o => .text o.text, e.toDatum] s.toDatum
  | .binary o l r s =>
    .node .binary [o.toDatum fun o => .text o.text, l.toDatum, r.toDatum] s.toDatum
  | .nameTarget n s => .node .nameTarget [n.toDatum] s.toDatum
  | .indexTarget t i s => .node .indexTarget [t.toDatum, i.toDatum] s.toDatum
  | .print es s => .node .print [slotToDatum es] s.toDatum
  | .assign t v s => .node .assign [t.toDatum, v.toDatum] s.toDatum
  | .eval e s => .node .eval [e.toDatum] s.toDatum
  | .exec e s => .node .exec [e.toDatum] s.toDatum
  | .branch c t e s => .node .branch [c.toDatum, t.toDatum, e.toDatum] s.toDatum
  | .loop c b s => .node .loop [c.toDatum, b.toDatum] s.toDatum
  | .builtin w e s => .node w.label [e.toDatum] s.toDatum
  | .data d => d

/-- A list of trees in a slot as data. -/
def slotToDatum : Slot (List Node) → Datum
  | .proper es => .list (toDatumAll es)
  | .stray d => d

/-- Trees as data, one by one. -/
def toDatumAll : List Node → List Datum
  | [] => []
  | e :: es => e.toDatum :: toDatumAll es

end

end Node

/-! ## Loading -/

mutual

/-- The datatype that data stands for, if all its kinds are those of the language. -/
def Datatype.ofDatum? : TypeDatum → Option Datatype
  | .mk (.text k) as r =>
    match Kind.ofName? k, Datatype.ofDatumAll? as, Datatype.ofDatumReturn? r with
    | some k, some as, some r => some (.mk k as r)
    | _, _, _ => none
  | .mk .. => none

/-- Datatypes from data, one by one. -/
def Datatype.ofDatumAll? : List TypeDatum → Option (List Datatype)
  | [] => some []
  | t :: ts =>
    match Datatype.ofDatum? t, Datatype.ofDatumAll? ts with
    | some t, some ts => some (t :: ts)
    | _, _ => none

/-- A result from data. -/
def Datatype.ofDatumReturn? : Option TypeDatum → Option (Option Datatype)
  | none => some none
  | some t => (Datatype.ofDatum? t).map some

end

/-- A datatype in a slot from data. -/
def Datatype.slotOfDatum : Datum → Slot Datatype
  | .datatype t => Slot.ofDatum (fun _ => Datatype.ofDatum? t) (.datatype t)
  | d => .stray d

/-- The kind that data stands for. -/
def Kind.ofDatum? : Datum → Option Kind
  | .text name => Kind.ofName? name
  | _ => none

/-- A parameter from data. -/
def Param.ofDatum? : Datum → Option Param
  | .node .param [name, t] place =>
    some ⟨Name.ofDatum name, Datatype.slotOfDatum t, Origin.ofDatum place⟩
  | _ => none

/-- The parameters that data stands for. -/
def Param.listOfDatum? : Datum → Option (List Param)
  | .list ds => ds.mapM Param.ofDatum?
  | _ => none

namespace Node

mutual

/-- A tree from data. -/
def ofDatum : Datum → Node
  | .node label fields place =>
    (ofFields label fields (Origin.ofDatum place)).getD (.data (.node label fields place))
  | d => .data d

/-- A node from its label, fields and origin. A parameter is none. -/
def ofFields : Label → List Datum → Origin → Option Node
  | .literal, [v, k], s => some (.literal v (Slot.ofDatum Kind.ofDatum? k) s)
  | .function, [ps, r, b], s =>
    some (.lambda .function (Slot.ofDatum Param.listOfDatum? ps) (Datatype.slotOfDatum r)
      (ofDatum b) s)
  | .closure, [ps, r, b], s =>
    some (.lambda .closure (Slot.ofDatum Param.listOfDatum? ps) (Datatype.slotOfDatum r)
      (ofDatum b) s)
  | .array, [es], s => some (.array (slotOfDatum es) s)
  | .name, [n], s => some (.name (Name.ofDatum n) s)
  | .group, [e], s => some (.group (ofDatum e) s)
  | .index, [t, i], s => some (.index (ofDatum t) (ofDatum i) s)
  | .call, [f, as], s => some (.call (ofDatum f) (slotOfDatum as) s)
  | .unary, [o, e], s => some (.unary (Slot.ofDatum UnaryOp.ofDatum? o) (ofDatum e) s)
  | .binary, [o, l, r], s =>
    some (.binary (Slot.ofDatum BinaryOp.ofDatum? o) (ofDatum l) (ofDatum r) s)
  | .nameTarget, [n], s => some (.nameTarget (Name.ofDatum n) s)
  | .indexTarget, [t, i], s => some (.indexTarget (ofDatum t) (ofDatum i) s)
  | .print, [es], s => some (.print (slotOfDatum es) s)
  | .assign, [t, v], s => some (.assign (ofDatum t) (ofDatum v) s)
  | .eval, [e], s => some (.eval (ofDatum e) s)
  | .exec, [e], s => some (.exec (ofDatum e) s)
  | .branch, [c, t, e], s => some (.branch (ofDatum c) (ofDatum t) (ofDatum e) s)
  | .loop, [c, b], s => some (.loop (ofDatum c) (ofDatum b) s)
  | .length, [e], s => some (.builtin .length (ofDatum e) s)
  | .input, [e], s => some (.builtin .input (ofDatum e) s)
  | .toString, [e], s => some (.builtin .toString (ofDatum e) s)
  | .toNumber, [e], s => some (.builtin .toNumber (ofDatum e) s)
  | .toBoolean, [e], s => some (.builtin .toBoolean (ofDatum e) s)
  | .isNumber, [e], s => some (.builtin .isNumber (ofDatum e) s)
  | .isBoolean, [e], s => some (.builtin .isBoolean (ofDatum e) s)
  | _, _, _ => none

/-- A list of trees in a slot from data. -/
def slotOfDatum : Datum → Slot (List Node)
  | .list ds => .proper (ofDatumAll ds)
  | d => .stray d

/-- Trees from data, one by one. -/
def ofDatumAll : List Datum → List Node
  | [] => []
  | d :: ds => ofDatum d :: ofDatumAll ds

end

/-! ## Trees as data -/

/-- What is in the place of a list of trees, one by one. -/
def series : Slot (List Node) → Except Fault (List Node)
  | .proper es => .ok es
  | .stray d => do return ofDatumAll (← d.series)

/-- Whether what is in the place of a list of trees counts as false. -/
def vacant : Slot (List Node) → Bool
  | .proper es => es.isEmpty
  | .stray d => !d.truth

/-- Whether two trees are equal, spans aside. -/
def same (m n : Node) : Bool := m.toDatum.same n.toDatum

/-- A tree written out with all its fields. -/
def shown (n : Node) : Except Fault String := n.toDatum.shown

end Node

end Mandate
