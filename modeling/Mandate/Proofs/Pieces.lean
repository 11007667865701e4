/-
  Mandate.Proofs.Pieces

  The nodes that a program tree is made of.

    * `Node.parts`: the trees right below a tree, in the order of the source.
    * `Piece`: a node, or a parameter of a literal. `Piece.children` are the pieces
      right below a piece, and `Node.pieces` are all those of a tree, itself first.
    * `Piece.Regular`: a piece of the kind that the parser makes, which has a span.
    * `Node.forall_pieces`: what is passed on to children holds of all pieces of a tree.
-/

import Mandate.Proofs.ProgramTree

namespace Mandate

/-! ## Parts -/

/-- The trees that a tree is made of. -/
def Node.parts : Node → List Node
  | .lambda _ _ _ b _ => [b]
  | .array (.proper es) _ | .print (.proper es) _ => es
  | .group e _ | .unary _ e _ | .eval e _ | .exec e _ | .builtin _ e _ => [e]
  | .index t i _ | .indexTarget t i _ => [t, i]
  | .call f (.proper args) _ => f :: args
  | .call f (.stray _) _ => [f]
  | .binary _ l r _ => [l, r]
  | .assign t v _ => [t, v]
  | .branch c t e _ => [c, t, e]
  | .loop c b _ => [c, b]
  | _ => []

namespace Node

/-- The parameters of a literal. -/
def params : Node → List Param
  | .lambda _ (.proper ps) _ _ _ => ps
  | _ => []

/-- Whether there is only data in the place of a tree. -/
def isData : Node → Bool
  | .data _ => true
  | _ => false

theorem sizeOf_parts {n k : Node} (h : k ∈ n.parts) : sizeOf k < sizeOf n := by
  cases n with
  | array es o | print es o =>
    cases es with
    | proper es =>
      have hk : sizeOf k < sizeOf es := List.sizeOf_lt_of_mem h
      simp only [array.sizeOf_spec, print.sizeOf_spec, Slot.proper.sizeOf_spec]
      omega
    | stray d => cases h
  | call f args o =>
    cases args with
    | proper args =>
      simp only [call.sizeOf_spec, Slot.proper.sizeOf_spec]
      rcases List.mem_cons.1 h with rfl | h
      · omega
      · have hk := List.sizeOf_lt_of_mem h
        omega
    | stray d =>
      rw [List.mem_singleton.1 h, call.sizeOf_spec]
      omega
  | _ =>
    simp only [parts, List.mem_cons, List.not_mem_nil, or_false] at h <;>
      rcases h with rfl | rfl | rfl <;> simp <;> omega

/-- Induction over a tree and the trees it is made of. -/
@[elab_as_elim]
theorem inductParts {motive : Node → Prop} (h : ∀ n, (∀ k ∈ n.parts, motive k) → motive n)
    (n : Node) : motive n :=
  h n fun k hk =>
    have := sizeOf_parts hk
    inductParts h k
termination_by sizeOf n

end Node

/-! ## Pieces -/

/-- A node of a program tree, or a parameter of one of its literals. -/
inductive Piece where
  | node (n : Node)
  | param (p : Param)

namespace Piece

/-- Where a piece comes from. -/
def origin? : Piece → Option Origin
  | .node n => n.origin?
  | .param p => some p.span

/-- The span of a piece, if it has one. -/
def span? (p : Piece) : Option Span :=
  match p.origin? with
  | some (.proper s) => some s
  | _ => none

theorem origin_of_span {p : Piece} {s : Span} (h : p.span? = some s) :
    p.origin? = some (.proper s) := by
  unfold span? at h
  split at h
  · next heq =>
    cases h
    exact heq
  · cases h

/-- The pieces right below a piece, in the order of the source. -/
def children : Piece → List Piece
  | .node n => n.params.map .param ++ (n.parts.filter fun k => !k.isData).map .node
  | .param _ => []

end Piece

namespace Node

mutual

/-- All pieces of a tree, itself first. -/
def pieces : Node → List Piece
  | .data _ => []
  | .lambda style ps r b o =>
    .node (.lambda style ps r b o) :: ((lambda style ps r b o).params.map .param ++ b.pieces)
  | .array es o => .node (.array es o) :: piecesSlot es
  | .print es o => .node (.print es o) :: piecesSlot es
  | .group e o => .node (.group e o) :: e.pieces
  | .unary op e o => .node (.unary op e o) :: e.pieces
  | .eval e o => .node (.eval e o) :: e.pieces
  | .exec e o => .node (.exec e o) :: e.pieces
  | .builtin w e o => .node (.builtin w e o) :: e.pieces
  | .index t i o => .node (.index t i o) :: (t.pieces ++ i.pieces)
  | .indexTarget t i o => .node (.indexTarget t i o) :: (t.pieces ++ i.pieces)
  | .call f args o => .node (.call f args o) :: (f.pieces ++ piecesSlot args)
  | .binary op l r o => .node (.binary op l r o) :: (l.pieces ++ r.pieces)
  | .assign t v o => .node (.assign t v o) :: (t.pieces ++ v.pieces)
  | .branch c t e o => .node (.branch c t e o) :: (c.pieces ++ (t.pieces ++ e.pieces))
  | .loop c b o => .node (.loop c b o) :: (c.pieces ++ b.pieces)
  | .literal v k o => [.node (.literal v k o)]
  | .name x o => [.node (.name x o)]
  | .nameTarget x o => [.node (.nameTarget x o)]

/-- The pieces of a list of trees in a slot. -/
def piecesSlot : Slot (List Node) → List Piece
  | .proper es => piecesAll es
  | .stray _ => []

/-- The pieces of some trees. -/
def piecesAll : List Node → List Piece
  | [] => []
  | e :: es => e.pieces ++ piecesAll es

end

theorem piecesAll_eq_flatMap (es : List Node) : piecesAll es = es.flatMap pieces := by
  induction es with
  | nil => rfl
  | cons e es ih => rw [piecesAll, ih, List.flatMap_cons]

/-- A tree has itself, its parameters and the pieces of its parts for pieces. -/
theorem pieces_eq {n : Node} (h : n.isData = false) :
    n.pieces = .node n :: (n.params.map .param ++ n.parts.flatMap pieces) := by
  cases n with
  | data d => cases h
  | array es o | print es o | call f es o =>
    cases es <;> simp [pieces, piecesSlot, piecesAll_eq_flatMap, params, parts]
  | _ => simp [pieces, params, parts]

theorem pieces_of_isData {n : Node} (h : n.isData = true) : n.pieces = [] := by
  cases n with
  | data d => rfl
  | _ => cases h

/-! ## Pieces of regular trees -/

/-- What a regular tree is made of is regular or a target, where it is not absent. -/
theorem Regular.part {n k : Node} (h : n.Regular true) (hk : k ∈ n.parts) :
    k = absent ∨ k.Regular true ∨ k.Target true := by
  cases h with
  | array o hes | print o hes => exact .inr (.inl (hes k hk))
  | call o hf has =>
    rcases List.mem_cons.1 hk with rfl | hk
    · exact .inr (.inl hf)
    · exact .inr (.inl (has k hk))
  | assign o ht hv =>
    rcases List.mem_cons.1 hk with rfl | hk
    · exact .inr (.inr ht)
    · rw [List.mem_singleton.1 hk]
      exact .inr (.inl hv)
  | branchThen o hc ht =>
    simp only [parts, List.mem_cons, List.not_mem_nil, or_false] at hk
    rcases hk with rfl | rfl | rfl
    · exact .inr (.inl hc)
    · exact .inr (.inl ht)
    · exact .inl rfl
  | input o => exact .inl (List.mem_singleton.1 hk)
  | _ =>
    simp only [parts, List.mem_cons, List.not_mem_nil, or_false] at hk <;>
      rcases hk with rfl | rfl | rfl <;> exact .inr (.inl ‹_›)

theorem Target.part {n k : Node} (h : n.Target true) (hk : k ∈ n.parts) :
    k.Regular true ∨ k.Target true := by
  cases h with
  | name x o => cases hk
  | element o _ ht hi =>
    rcases List.mem_cons.1 hk with rfl | hk
    · exact .inr ht
    · rw [List.mem_singleton.1 hk]
      exact .inl hi

theorem Regular.param {n : Node} {p : Param} (h : n.Regular true) (hp : p ∈ n.params) :
    p.Regular := by
  cases h with
  | lambda style o hps hr hb => exact hps.regular p hp
  | _ => cases hp

end Node

/-- A piece of the kind that the parser makes. -/
def Piece.Regular : Piece → Prop
  | .node n => n.Regular true ∨ n.Target true
  | .param p => p.Regular

namespace Piece.Regular

theorem span {p : Piece} (h : p.Regular) : ∃ s, p.span? = some s := by
  cases p with
  | node n =>
    obtain ⟨s, hs⟩ := h.elim Node.Regular.origin Node.Target.origin
    exact ⟨s, by rw [span?, origin?, hs]⟩
  | param p =>
    cases h with
    | mk name s ht => exact ⟨s, rfl⟩

theorem part {n k : Node} (h : (Piece.node n).Regular) (hk : k ∈ n.parts) :
    k = Node.absent ∨ (Piece.node k).Regular :=
  h.elim (fun h => h.part hk) fun h => .inr (h.part hk)

/-- What is right below a regular piece is regular. -/
theorem child {p c : Piece} (h : p.Regular) (hc : c ∈ p.children) : c.Regular := by
  cases p with
  | param p => cases hc
  | node n =>
    rcases List.mem_append.1 hc with hc | hc
    · obtain ⟨q, hq, rfl⟩ := List.mem_map.1 hc
      rcases h with h | h
      · exact h.param hq
      · cases h <;> cases hq
    · obtain ⟨k, hk, rfl⟩ := List.mem_map.1 hc
      obtain ⟨hpart, hdata⟩ := List.mem_filter.1 hk
      rcases h.part hpart with rfl | hregular
      · cases hdata
      · exact hregular

end Piece.Regular

/-! ## All pieces of a tree -/

namespace Node

theorem mem_children_of_part {n k : Node} (hk : k ∈ n.parts) (hdata : k.isData = false) :
    Piece.node k ∈ (Piece.node n).children :=
  List.mem_append_right _ (List.mem_map_of_mem (List.mem_filter.2 ⟨hk, by simp [hdata]⟩))

/-- What holds of a tree and is passed on to children holds of all its pieces. -/
theorem forall_pieces {P : Piece → Prop} (hchild : ∀ p c, P p → c ∈ p.children → P c) {n : Node}
    (h : P (.node n)) : ∀ p ∈ n.pieces, P p := by
  induction n using Node.inductParts with
  | h n ih =>
    cases hdata : n.isData with
    | true =>
      rw [pieces_of_isData hdata]
      intro p hp
      cases hp
    | false =>
      intro p hp
      rw [pieces_eq hdata] at hp
      simp only [List.mem_cons, List.mem_append, List.mem_flatMap] at hp
      rcases hp with rfl | hp | ⟨k, hk, hp⟩
      · exact h
      · exact hchild _ p h (List.mem_append_left _ hp)
      · cases hpart : k.isData with
        | true =>
          rw [pieces_of_isData hpart] at hp
          cases hp
        | false => exact ih k hk (hchild _ _ h (mem_children_of_part hk hpart)) p hp

theorem pieces_regular {n : Node} (h : n.Regular true) : ∀ p ∈ n.pieces, p.Regular :=
  forall_pieces (fun _ _ hp hc => hp.child hc) (.inl h)

theorem mem_pieces_self {n : Node} (h : n.isData = false) : .node n ∈ n.pieces := by
  rw [pieces_eq h]
  exact List.mem_cons_self

/-- The pieces of a tree inside another are pieces of the other. -/
theorem pieces_subset {n k : Node} (h : .node k ∈ n.pieces) : k.pieces ⊆ n.pieces := by
  induction n using Node.inductParts with
  | h n ih =>
    cases hdata : n.isData with
    | true =>
      rw [pieces_of_isData hdata] at h
      cases h
    | false =>
      rw [pieces_eq hdata] at h ⊢
      simp only [List.mem_cons, List.mem_append, List.mem_flatMap, List.mem_map, Piece.node.injEq,
        reduceCtorEq, and_false, exists_false, false_or] at h
      rcases h with rfl | ⟨j, hj, hk⟩
      · rw [pieces_eq hdata]
        exact List.Subset.refl _
      · intro p hp
        have hmem : p ∈ n.parts.flatMap pieces := List.mem_flatMap.2 ⟨j, hj, ih j hj hk hp⟩
        exact List.mem_cons_of_mem _ (List.mem_append_right _ hmem)

/-- The parts of a tree inside another are inside it, where they are trees. -/
theorem mem_pieces_of_part {n k j : Node} (h : .node k ∈ n.pieces) (hj : j ∈ k.parts)
    (hdata : j.isData = false) : .node j ∈ n.pieces := by
  apply pieces_subset h
  have hk : k.isData = false := by
    cases k with
    | data d => cases hj
    | _ => rfl
  rw [pieces_eq hk]
  have hmem : .node j ∈ k.parts.flatMap pieces := List.mem_flatMap.2 ⟨j, hj, mem_pieces_self hdata⟩
  exact List.mem_cons_of_mem _ (List.mem_append_right _ hmem)

/-- The spans of all nodes of a tree. -/
def spans (n : Node) : List Span := n.pieces.filterMap Piece.span?

theorem mem_spans {n : Node} {s : Span} : s ∈ n.spans ↔ ∃ p ∈ n.pieces, p.span? = some s :=
  List.mem_filterMap

end Node

end Mandate
