/-
  Mandate.Proofs.SpanNesting

  The spans of a program nest.

    * `Datum.InOrder.flatMap_members` and `Datum.InOrder.sublist`: data in order stays in
      order when lists are opened and when some of it is left out. The children of a
      node are found among its fields that way (`Piece.children_sublist`).
    * `Piece.Regular.nested`: what stands in a place has a span there, and its children
      follow each other inside it.
    * `pieces_placed`: with a tree, all its pieces are placed.
    * `parse_stands`: a program stands in its source, unless it has no token.
    * `parse_nested`: so it is with every node of a program, parameters and targets
      among them. Only the array of a program without a token covers nothing.
-/

import Mandate.Proofs.Pieces
import Mandate.Proofs.Placement
import Mandate.Proofs.TokenStream

namespace Mandate

/-! ## Fields in order -/

namespace Datum

/-- The fields of a node. -/
def fields : Datum → List Datum
  | .node _ fields _ => fields
  | _ => []

/-- The items of a list; other data by itself. -/
def members : Datum → List Datum
  | .list items => items
  | d => [d]

variable {lo hi : Int} {d e : Datum} {ds es : List Datum}

/-- What a node covers, and that its fields are inside it. -/
theorem Placed.of_node {label : Label} {start stop : Int}
    (h : (Datum.node label ds (.span (.int start) (.int stop))).Placed lo hi) :
    lo ≤ start ∧ start < stop ∧ stop ≤ hi ∧ InOrder start stop ds := by
  cases h with
  | bare hd hle => cases hd
  | node _ hcount hstart hcovers hstop h => exact ⟨hstart, hcovers, hstop, h⟩

theorem Placed.members (h : d.Placed lo hi) : InOrder lo hi d.members := by
  cases h with
  | bare hd hle =>
    have hmembers : d.members = [d] := by cases hd <;> rfl
    rw [hmembers]
    exact .singleton (.bare hd hle)
  | list h => exact h
  | node label hcount hstart hcovers hstop h =>
    exact .singleton (.node label hcount hstart hcovers hstop h)

/-- Lists among data in order can be opened. -/
theorem InOrder.flatMap_members (h : InOrder lo hi ds) : InOrder lo hi (ds.flatMap members) := by
  induction ds generalizing lo with
  | nil =>
    cases h with
    | nil hle => exact .nil hle
  | cons d ds ih =>
    cases h with
    | cons head tail =>
      rw [List.flatMap_cons]
      exact head.members.append (ih tail)

/-- Data in order can be left out. -/
theorem InOrder.sublist (h : InOrder lo hi ds) (hsub : es.Sublist ds) : InOrder lo hi es := by
  induction hsub generalizing lo with
  | slnil => exact h
  | cons d _ ih =>
    cases h with
    | cons head tail => exact ih (tail.after head.le)
  | cons_cons d _ ih =>
    cases h with
    | cons head tail => exact .cons head (ih tail)

theorem InOrder.placed (h : InOrder lo hi ds) (hd : d ∈ ds) : d.Placed lo hi := by
  induction ds generalizing lo with
  | nil => cases hd
  | cons e ds ih =>
    cases h with
    | cons head tail =>
      rcases List.mem_cons.1 hd with rfl | hd
      · exact head.widen (Int.le_refl lo) tail.le
      · exact (ih tail hd).widen head.le (Int.le_refl hi)

/-- Between two pieces of data in order there is an offset that separates them. -/
theorem InOrder.pairwise (h : InOrder lo hi ds) :
    ds.Pairwise fun d e => ∃ mid, d.Placed lo mid ∧ e.Placed mid hi := by
  induction ds generalizing lo with
  | nil => exact .nil
  | cons d ds ih =>
    cases h with
    | @cons _ mid _ _ _ head tail =>
      refine .cons (fun e he => ⟨mid, head, tail.placed he⟩) ?_
      refine (ih tail).imp ?_
      rintro d' e ⟨mid', hd', he⟩
      exact ⟨mid', hd'.widen head.le (Int.le_refl mid'), he⟩

end Datum

/-! ## Pieces as data -/

/-- A piece as data. -/
def Piece.toDatum : Piece → Datum
  | .node n => n.toDatum
  | .param p => p.toDatum

namespace Node

/-- The trees of a list as data, where they are trees. -/
def stored (ks : List Node) : List Datum := (ks.filter fun k => !k.isData).map toDatum

theorem stored_cons_of_isData {k : Node} (h : k.isData = true) (ks : List Node) :
    stored (k :: ks) = stored ks := by
  simp [stored, h]

theorem stored_cons_of_not {k : Node} (h : k.isData = false) (ks : List Node) :
    stored (k :: ks) = k.toDatum :: stored ks := by
  simp [stored, h]

theorem stored_append (ks ls : List Node) : stored (ks ++ ls) = stored ks ++ stored ls := by
  simp [stored]

theorem members_toDatum {k : Node} (h : k.isData = false) : k.toDatum.members = [k.toDatum] := by
  cases k with
  | data d => cases h
  | _ => rfl

theorem stored_sublist (ks : List Node) :
    (stored ks).Sublist ((ks.map toDatum).flatMap Datum.members) := by
  induction ks with
  | nil => exact .slnil
  | cons k ks ih =>
    rw [List.map_cons, List.flatMap_cons]
    cases hdata : k.isData with
    | true =>
      rw [stored_cons_of_isData hdata]
      exact ih.trans (List.sublist_append_right _ _)
    | false =>
      rw [stored_cons_of_not hdata, members_toDatum hdata]
      exact ih.cons_cons _

theorem stored_sublist_items (ks : List Node) :
    (stored ks).Sublist (slotToDatum (.proper ks)).members := by
  rw [slotToDatum, toDatumAll_eq_map]
  exact List.filter_sublist.map toDatum

/-- The parameters and parts of a tree are among its fields, in this order. -/
theorem parts_sublist (n : Node) :
    (n.params.map Param.toDatum ++ stored n.parts).Sublist
      (n.toDatum.fields.flatMap Datum.members) := by
  cases n with
  | literal | name | nameTarget | data => exact List.nil_sublist _
  | group | index | indexTarget | assign | eval | exec | branch | loop | builtin =>
    -- The fields of these are their parts, and nothing else.
    exact stored_sublist _
  | unary op e o => exact (stored_sublist [e]).trans (List.sublist_append_right _ _)
  | binary op l r o => exact (stored_sublist [l, r]).trans (List.sublist_append_right _ _)
  | array es o | print es o =>
    cases es with
    | proper es =>
      show (stored es).Sublist ((slotToDatum (.proper es)).members ++ [])
      rw [List.append_nil]
      exact stored_sublist_items es
    | stray d => exact List.nil_sublist _
  | call f args o =>
    have hcallee : (stored [f]).Sublist f.toDatum.members := by
      simpa using stored_sublist [f]
    cases args with
    | proper args =>
      show (stored ([f] ++ args)).Sublist
        (f.toDatum.members ++ ((slotToDatum (.proper args)).members ++ []))
      rw [stored_append, List.append_nil]
      exact hcallee.append (stored_sublist_items args)
    | stray d => exact hcallee.trans (List.sublist_append_left _ _)
  | lambda style ps r b o =>
    -- The result stands between the parameters and the body, and is no piece.
    have hbody : (stored [b]).Sublist
        ((Datatype.slotToDatum r).members ++ (b.toDatum.members ++ [])) :=
      (stored_sublist [b]).trans (List.sublist_append_right _ _)
    cases ps with
    | proper ps => exact (List.Sublist.refl _).append hbody
    | stray d => exact hbody.trans (List.sublist_append_right _ _)

end Node

/-- The children of a piece are among its fields, in order. -/
theorem Piece.children_sublist (p : Piece) :
    (p.children.map Piece.toDatum).Sublist (p.toDatum.fields.flatMap Datum.members) := by
  cases p with
  | param p => exact List.nil_sublist _
  | node n =>
    have hchildren : (Piece.node n).children.map Piece.toDatum =
        n.params.map Param.toDatum ++ Node.stored n.parts := by
      rw [children, List.map_append, List.map_map, List.map_map]
      rfl
    rw [hchildren]
    exact n.parts_sublist

/-! ## Nesting -/

namespace Piece

variable {p : Piece} {s : Span} {lo hi : Int}

/-- A regular piece is stored as a node with its span. -/
theorem Regular.toDatum_eq (h : p.Regular) (hs : p.span? = some s) :
    ∃ label, p.toDatum = .node label p.toDatum.fields (.span (.int s.start) (.int s.stop)) := by
  have hplace := origin_of_span hs
  cases p with
  | param p =>
    cases h with
    | mk name s' ht =>
      cases hplace
      exact ⟨_, rfl⟩
  | node n =>
    cases n with
    | data d => rcases h with h | h <;> cases h
    | _ =>
      cases hplace
      exact ⟨_, rfl⟩

/-- A piece that stands somewhere covers something there, and its children follow each other
inside it. -/
theorem Regular.placed (h : p.Regular) (hs : p.span? = some s) (hp : p.toDatum.Placed lo hi) :
    lo ≤ s.start ∧ s.start < s.stop ∧ s.stop ≤ hi ∧
      Datum.InOrder s.start s.stop (p.children.map Piece.toDatum) := by
  have hchildren := p.children_sublist
  obtain ⟨label, hdatum⟩ := h.toDatum_eq hs
  rw [hdatum] at hp
  obtain ⟨hstart, hcovers, hstop, hfields⟩ := hp.of_node
  exact ⟨hstart, hcovers, hstop, hfields.flatMap_members.sublist hchildren⟩

/-- The children of a piece that stands somewhere are inside its span, one before the other. -/
theorem Regular.nested (h : p.Regular) (hs : p.span? = some s) (hp : p.toDatum.Placed lo hi) :
    (∀ c ∈ p.children, ∃ t, c.span? = some t ∧ s.start ≤ t.start ∧ t.stop ≤ s.stop) ∧
      p.children.Pairwise fun c d => ∀ t ∈ c.span?, ∀ u ∈ d.span?, t.stop ≤ u.start := by
  obtain ⟨-, -, -, horder⟩ := h.placed hs hp
  constructor
  · intro c hc
    obtain ⟨t, ht⟩ := (h.child hc).span
    obtain ⟨hstart, -, hstop, -⟩ := (h.child hc).placed ht (horder.placed (List.mem_map_of_mem hc))
    exact ⟨t, ht, hstart, hstop⟩
  · refine (List.pairwise_map.1 horder.pairwise).imp_of_mem ?_
    rintro c d hc hd ⟨mid, hcmid, hdmid⟩ t ht u hu
    obtain ⟨-, -, hstop, -⟩ := (h.child hc).placed ht hcmid
    obtain ⟨hstart, -, -, -⟩ := (h.child hd).placed hu hdmid
    exact Int.le_trans hstop hstart

end Piece

/-- With a tree, all its pieces are regular and in their places. -/
theorem pieces_placed {n : Node} {lo hi : Int} (h : (Piece.node n).Regular)
    (hn : n.toDatum.Placed lo hi) :
    ∀ p ∈ n.pieces, p.Regular ∧ p.toDatum.Placed lo hi := by
  refine Node.forall_pieces ?_ ⟨h, hn⟩
  rintro p c ⟨hp, hplaced⟩ hc
  obtain ⟨s, hs⟩ := hp.span
  obtain ⟨hstart, -, hstop, horder⟩ := hp.placed hs hplaced
  have hinner : c.toDatum.Placed s.start s.stop := horder.placed (List.mem_map_of_mem hc)
  exact ⟨hp.child hc, hinner.widen hstart hstop⟩

/-! ## Programs -/

/-- What a program stands for is placed between two offsets. -/
def Symbol.Stands (lo hi : Int) : (s : Symbol) → s.Meaning → Prop
  | .branch .program => fun n : Node => n.toDatum.Placed lo hi
  | _ => fun _ => True

/-- A program with a token stands where its tokens are. -/
theorem Tree.meaning_stands {s : Symbol} {lo hi : Int} (tree : Tree s)
    (h : Token.InOrder lo hi tree.tokens) (hne : tree.tokens ≠ []) :
    Yields tree.meaning (s.Stands lo hi) := by
  cases tree with
  | leaf t text start => exact fun _ _ => trivial
  | node p children =>
    obtain ⟨hstart, hcovers, hstop, hinner⟩ := children.span_inOrder h hne
    intro m hm
    unfold Tree.meaning at hm
    split at hm
    case h_2 => cases hm
    next ms hms =>
    have hplaced := children.meanings_placed hinner ms hms
    cases p with
    | programEmpty =>
      cases children
      exact absurd rfl hne
    | programLast =>
      cases hplaced with
      | cons he hrest =>
      cases hrest with
      | nil hle =>
        cases hm
        exact he.widen hstart (Int.le_trans hle hstop)
    | programLines =>
      cases hplaced with
      | cons hes hrest =>
      cases hrest with
      | nil hle =>
        cases hm
        exact (ofExpressions_placed hcovers (hes.widen (Int.le_refl _) hle)).widen hstart hstop
    | programLinesLast =>
      cases hplaced with
      | cons hes hrest =>
      cases hrest with
      | cons he hrest =>
      cases hrest with
      | nil hle =>
        cases hm
        have horder := inOrder_concat hes (he.widen (Int.le_refl _) hle)
        exact (ofExpressions_placed hcovers horder).widen hstart hstop
    | _ => trivial

section Programs

variable {source : List Char} {program : Node} {tree : Tree (.branch .program)}

/-- Where the parser is given no token, none is listed. -/
theorem tokenize_eq_nil (h : parse source = .ok program)
    (htree : parseTree (Layout.separate source) = .ok tree) (hnil : tree.tokens = []) :
    tokenize source = .ok [] := by
  obtain ⟨tokens, htokens⟩ : ∃ tokens, tokensFrom 0 (Layout.separate source) = .ok tokens :=
    tokensFrom_of_readable (readable_of_parse h)
  have hread : deliveredFrom 0 (Layout.separate source) .bottom = [] :=
    (parseFrom_sound htree fun _ => trivial).1.symm.trans hnil
  have hsame := sameUntilCut_of_parseFrom List.drop_zero.symm htree tokens htokens
  rw [hread] at hsame
  cases hsame
  rw [tokenize, htokens]

/-- A program without a token is the empty array. -/
theorem eq_empty_of_tokens (h : parse source = .ok program) (hmeaning : tree.meaning = .ok program)
    (hnil : tree.tokens = []) : program = .array (.proper []) (.proper Span.none) := by
  -- No tokens fit into no text, and what stands there would have to cover something.
  have horder : Token.InOrder 0 0 tree.tokens := by
    rw [hnil]
    exact .nil (Int.le_refl 0)
  rcases tree.meaning_placed horder program hmeaning with hplaced | hempty
  · have hregular : (Piece.node program).Regular := .inl (parse_regular h)
    obtain ⟨s, hs⟩ := hregular.span
    obtain ⟨hstart, hcovers, hstop, -⟩ := hregular.placed hs hplaced
    omega
  · exact hempty

/-- A program with a token stands in its source. -/
theorem placed_of_tokens (htree : parseTree (Layout.separate source) = .ok tree)
    (hmeaning : tree.meaning = .ok program) (hne : tree.tokens ≠ []) :
    program.toDatum.Placed 0 source.length := by
  have htokens : tree.tokens = deliveredFrom 0 (Layout.separate source) .bottom :=
    (parseFrom_sound htree fun _ => trivial).1
  have horder := deliveredFrom_inOrder 0 (Layout.separate source) Stack.bottom
  rw [← htokens, Layout.length_separate, Int.natCast_zero, Int.zero_add] at horder
  exact tree.meaning_stands horder hne program hmeaning

/-- A program stands in its source, unless it has no token. -/
theorem parse_stands (h : parse source = .ok program) :
    program.toDatum.Placed 0 source.length ∨
      tokenize source = .ok [] ∧ program = .array (.proper []) (.proper Span.none) := by
  obtain ⟨tree, htree, hmeaning⟩ := exists_tree_of_parse h
  by_cases hnil : tree.tokens = []
  · exact .inr ⟨tokenize_eq_nil h htree hnil, eq_empty_of_tokens h hmeaning hnil⟩
  · exact .inl (placed_of_tokens htree hmeaning hnil)

/-- The spans of a program are in its source. -/
theorem spans_within (h : parse source = .ok program) {s : Span} (hs : s ∈ program.spans) :
    0 ≤ s.start ∧ s.start ≤ s.stop ∧ s.stop ≤ source.length := by
  rcases parse_stands h with hplaced | ⟨-, rfl⟩
  · obtain ⟨p, hp, hspan⟩ := Node.mem_spans.1 hs
    obtain ⟨hregular, hpiece⟩ := pieces_placed (.inl (parse_regular h)) hplaced p hp
    obtain ⟨hstart, hcovers, hstop, -⟩ := hregular.placed hspan hpiece
    exact ⟨hstart, Int.le_of_lt hcovers, hstop⟩
  · have hnone : s = Span.none := List.mem_singleton.1 hs
    subst hnone
    exact ⟨Int.le_refl 0, Int.le_refl 0, Int.natCast_nonneg _⟩

/-- Every node of a program has a span in its source, and its children follow each other inside
that span. The span is empty only for the array of a program without a token. -/
theorem parse_nested (h : parse source = .ok program) {p : Piece} (hp : p ∈ program.pieces) :
    ∃ s, p.span? = some s ∧ 0 ≤ s.start ∧ s.start ≤ s.stop ∧ s.stop ≤ source.length ∧
      (s.start < s.stop ∨ tokenize source = .ok [] ∧ p = .node program ∧
        program = .array (.proper []) (.proper Span.none)) ∧
      (∀ c ∈ p.children, ∃ t, c.span? = some t ∧ s.start ≤ t.start ∧ t.stop ≤ s.stop) ∧
      p.children.Pairwise fun c d => ∀ t ∈ c.span?, ∀ u ∈ d.span?, t.stop ≤ u.start := by
  obtain ⟨s, hs⟩ := (Node.pieces_regular (parse_regular h) p hp).span
  obtain ⟨hstart, hle, hstop⟩ := spans_within h (Node.mem_spans.2 ⟨p, hp, hs⟩)
  refine ⟨s, hs, hstart, hle, hstop, ?_⟩
  rcases parse_stands h with hplaced | ⟨htokens, rfl⟩
  · obtain ⟨hregular, hpiece⟩ := pieces_placed (.inl (parse_regular h)) hplaced p hp
    exact ⟨.inl (hregular.placed hs hpiece).2.1, hregular.nested hs hpiece⟩
  · -- The only piece is the empty array, which has no children.
    have hself : p = .node (.array (.proper []) (.proper Span.none)) := List.mem_singleton.1 hp
    subst hself
    refine ⟨.inr ⟨htokens, rfl, rfl⟩, ?_, .nil⟩
    intro c hc
    cases hc

end Programs

/-- A function that is assigned to an element. -/
def elementFunction : List Char := "f[i] <- |x: Any| -> Any x".toList

theorem spans_elementFunction :
    (parse elementFunction).toOption.map (fun program => program.pieces.map Piece.span?) =
      some [some ⟨0, 25⟩, some ⟨0, 4⟩, some ⟨0, 1⟩, some ⟨2, 3⟩, some ⟨8, 25⟩, some ⟨9, 10⟩,
        some ⟨24, 25⟩] := by
  decide +kernel

theorem parse_nested_elementFunction : ∃ program p, parse elementFunction = .ok program ∧
    p ∈ program.pieces ∧ p.span? = some ⟨8, 25⟩ ∧
    (∀ c ∈ p.children, ∃ t, c.span? = some t ∧ 8 ≤ t.start ∧ t.stop ≤ 25) ∧
    p.children.Pairwise fun c d => ∀ t ∈ c.span?, ∀ u ∈ d.span?, t.stop ≤ u.start := by
  have hspans := spans_elementFunction
  cases hprogram : parse elementFunction with
  | ok program =>
    rw [hprogram] at hspans
    have hlist : program.pieces.map Piece.span? = _ := Option.some.inj hspans
    have hmem : some ⟨8, 25⟩ ∈ program.pieces.map Piece.span? := by
      rw [hlist]
      decide
    obtain ⟨p, hp, hspan⟩ := List.mem_map.1 hmem
    obtain ⟨s, hs, -, -, -, -, hinside, horder⟩ := parse_nested hprogram hp
    cases hspan.symm.trans hs
    exact ⟨program, p, rfl, hp, hs, hinside, horder⟩
  | error e =>
    rw [hprogram] at hspans
    cases hspans

end Mandate
