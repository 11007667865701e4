/-
  Mandate.Proofs.Linking

  Two runs side by side. A `Link` says which cells of the one correspond to which
  cells of the other; the other may also know one name more than the first, the spare
  one, as long as no program tree mentions it.

    * `Datum.mentions` and its likes tell whether a name occurs in a tree.
    * `Payload.cells` are the cells that a payload leads to, by the scopes of the
      closures in it.
    * `Scope.Linked` relates scopes that lead to corresponding cells, and
      `Payload.Linked` payloads that are the same but for such scopes of closures.
    * `Link.correspondence`: linked states lead to linked states, in all that a program
      does.
    * `Payload.linked_self` links a payload to itself if its cells correspond to
      themselves.
-/

import Mandate.Document.Lossless
import Mandate.Proofs.Correspondences

namespace Mandate

/-! ## Names in trees -/

/-- Whether nodes with this label start with a name. -/
def Label.isNaming : Label → Bool
  | .name | .nameTarget | .param => true
  | _ => false

/-- Whether data is a text. -/
def Datum.isText (x : String) : Datum → Bool
  | .text s => s = x
  | _ => false

mutual

/-- Whether a name occurs in data, as that of a variable, of a target or of a parameter. -/
def Datum.mentions (x : String) : Datum → Bool
  | .list items => Datum.anyMentions x items
  | .node label fields _ =>
    label.isNaming && fields.head?.any (Datum.isText x) || Datum.anyMentions x fields
  | _ => false

/-- Whether a name occurs in one of several pieces of data. -/
def Datum.anyMentions (x : String) : List Datum → Bool
  | [] => false
  | d :: ds => d.mentions x || Datum.anyMentions x ds

end

/-- Whether a name occurs in a tree. -/
def Node.mentions (x : String) (n : Node) : Bool := n.toDatum.mentions x

/-- The literal that a closure was made from. -/
def Closure.literal (c : Closure) : Node := .lambda .closure c.params c.returns c.body c.origin

namespace Payload

mutual

/-- Whether a name occurs in a tree that a payload holds. -/
def mentions (x : String) : Payload → Bool
  | .list items => anyMentions x items
  | .node n => n.mentions x
  | .closure c => c.literal.mentions x
  | .data d => d.mentions x
  | _ => false

/-- Whether a name occurs in a tree that one of several payloads holds. -/
def anyMentions (x : String) : List Payload → Bool
  | [] => false
  | p :: ps => p.mentions x || anyMentions x ps

end

theorem anyMentions_iff {x : String} {ps : List Payload} :
    anyMentions x ps = false ↔ ∀ p ∈ ps, p.mentions x = false := by
  induction ps with
  | nil => simp [anyMentions]
  | cons p ps ih => simp [anyMentions, ih]

end Payload

theorem Datum.anyMentions_iff {x : String} {ds : List Datum} :
    Datum.anyMentions x ds = false ↔ ∀ d ∈ ds, d.mentions x = false := by
  induction ds with
  | nil => simp [Datum.anyMentions]
  | cons d ds ih => simp [Datum.anyMentions, ih]

/-! ## Cells -/

/-- The cells that a scope leads to, those of hidden names too. -/
def Scope.cells (s : Scope) : List Nat := s.map Binding.cell

namespace Payload

mutual

/-- The cells that the closures in a payload lead to. -/
def cells : Payload → List Nat
  | .list items => allCells items
  | .closure c => c.scope.cells
  | _ => []

/-- The cells that the closures in several payloads lead to. -/
def allCells : List Payload → List Nat
  | [] => []
  | p :: ps => p.cells ++ allCells ps

end

theorem mem_allCells {cell : Nat} {ps : List Payload} :
    cell ∈ allCells ps ↔ ∃ p ∈ ps, cell ∈ p.cells := by
  induction ps with
  | nil => simp [allCells]
  | cons p ps ih => simp [allCells, ih]

end Payload

/-! ## Links -/

/-- How two runs correspond. -/
structure Link where
  /-- Which cells of the two correspond. -/
  cells : Nat → Nat → Prop
  /-- A name that only the second run may know. -/
  spare : Option String
  /-- The number of cells from which on new ones correspond, in the first run. -/
  left : Nat
  /-- The same in the second run. -/
  right : Nat
  one_to_one : ∀ {a b a' b'}, cells a b → cells a' b' → (a = a' ↔ b = b')
  fresh : ∀ k, cells (left + k) (right + k)

namespace Link

/-- The spare name does not occur in data. -/
def Admits (L : Link) (d : Datum) : Prop := ∀ x ∈ L.spare, d.mentions x = false

variable {L : Link}

theorem Admits.field {label : Label} {fields : List Datum} {place d : Datum}
    (h : L.Admits (.node label fields place)) (hd : d ∈ fields) : L.Admits d := by
  intro x hx
  have hnode := h x hx
  rw [Datum.mentions, Bool.or_eq_false_iff] at hnode
  exact Datum.anyMentions_iff.1 hnode.2 d hd

theorem Admits.item {items : List Datum} {d : Datum} (h : L.Admits (.list items))
    (hd : d ∈ items) : L.Admits d := by
  intro x hx
  have hlist := h x hx
  rw [Datum.mentions] at hlist
  exact Datum.anyMentions_iff.1 hlist d hd

/-- A name that is mentioned is not the spare one. -/
theorem Admits.name_ne {label : Label} {name : Name} {fields : List Datum} {place : Datum}
    (h : L.Admits (.node label (name.toDatum :: fields) place)) (hlabel : label.isNaming = true)
    {x : String} (hx : x ∈ L.spare) : Name.same (.proper x) name = false := by
  have hnode := h x hx
  rw [Datum.mentions, Bool.or_eq_false_iff, hlabel, Bool.true_and] at hnode
  have hname : Datum.isText x name.toDatum = false := hnode.1
  cases name with
  | stray d => rfl
  | proper s =>
    have hne : ¬s = x := of_decide_eq_false hname
    exact decide_eq_false (Ne.symm hne)

end Link

/-! ## Scopes -/

/-- Scopes whose names lead to corresponding cells; the second may bind the spare name
besides. -/
inductive Scope.Linked (L : Link) : Scope → Scope → Prop where
  | nil : Linked L [] []
  | cons (name : Name) {a b : Nat} (hcell : L.cells a b) {s t : Scope} (hrest : Linked L s t) :
      Linked L (⟨name, a⟩ :: s) (⟨name, b⟩ :: t)
  | spare {x : String} (hx : x ∈ L.spare) (b : Nat) {s t : Scope} (hrest : Linked L s t) :
      Linked L s (⟨.proper x, b⟩ :: t)

/-- Any other name leads to corresponding cells, or to none. -/
theorem Scope.Linked.cell? {L : Link} {s t : Scope} (h : s.Linked L t) {name : Name}
    (hname : ∀ x ∈ L.spare, Name.same (.proper x) name = false) :
    Option.Rel L.cells (s.cell? name) (t.cell? name) := by
  induction h with
  | nil => exact .none
  | @cons other a b hcell s t hrest ih =>
    unfold Scope.cell?
    cases hsame : other.same name with
    | true => exact .some hcell
    | false => exact ih
  | @spare x hx b s t hrest ih =>
    rw [Scope.cell?_cons_of_not_same (hname x hx)]
    exact ih

theorem Scope.linked_self {L : Link} {s : Scope} (h : ∀ cell ∈ s.cells, L.cells cell cell) :
    s.Linked L s := by
  induction s with
  | nil => exact .nil
  | cons b s ih =>
    exact .cons b.name (h b.cell (by simp [cells])) (ih fun cell hcell => h cell (by
      simp only [cells, List.map_cons, List.mem_cons]
      exact .inr hcell))

/-! ## Parts of trees -/

namespace Link

variable {L : Link}

theorem Admits.ofDatum {d : Datum} (h : L.Admits d) : L.Admits (Node.ofDatum d).toDatum := by
  rwa [Node.toDatum_ofDatum]

theorem Admits.ofDatumAll {ds : List Datum} (h : ∀ d ∈ ds, L.Admits d) :
    ∀ n ∈ Node.ofDatumAll ds, L.Admits n.toDatum := by
  induction ds with
  | nil => simp [Node.ofDatumAll]
  | cons d ds ih =>
    rw [Node.ofDatumAll]
    intro n hn
    rcases List.mem_cons.1 hn with rfl | hn
    · exact (h d (by simp)).ofDatum
    · exact ih (fun e he => h e (by simp [he])) n hn

theorem mem_toDatumAll {n : Node} {ns : List Node} (h : n ∈ ns) :
    n.toDatum ∈ Node.toDatumAll ns := by
  induction ns with
  | nil => cases h
  | cons k ns ih =>
    rw [Node.toDatumAll]
    rcases List.mem_cons.1 h with rfl | h
    · exact List.mem_cons_self
    · exact List.mem_cons_of_mem _ (ih h)

/-- What is in the place of a list of trees is admitted one by one. -/
theorem Admits.series {es : Slot (List Node)} (h : L.Admits (Node.slotToDatum es))
    {ns : List Node} (hns : Node.series es = .ok ns) : ∀ n ∈ ns, L.Admits n.toDatum := by
  cases es with
  | proper es =>
    cases hns
    intro n hn
    rw [Node.slotToDatum] at h
    exact h.item (mem_toDatumAll hn)
  | stray d =>
    rw [Node.slotToDatum] at h
    cases d with
    | list items =>
      cases hns
      exact Admits.ofDatumAll fun d hd => h.item hd
    | text s =>
      cases hns
      refine Admits.ofDatumAll fun d hd => ?_
      obtain ⟨c, _, rfl⟩ := List.mem_map.1 hd
      exact fun _ _ => rfl
    | _ => cases hns

/-- What may be run is part of what may. -/
theorem Admits.part {n k : Node} (h : L.Admits n.toDatum) (hk : n.Part k) :
    L.Admits k.toDatum := by
  cases hk with
  | element hns hk => exact (h.field (by simp)).series hns _ hk
  | argument f hns hk => exact (h.field (by simp)).series hns _ hk
  | printed hns hk => exact (h.field (by simp)).series hns _ hk
  | _ =>
    rw [Node.toDatum] at h
    exact h.field (by simp)

end Link

/-! ## Linked runs -/

namespace Link

variable (L : Link)

/-- What does not mention the spare name. -/
def vocabulary : Vocabulary where
  points _ := True
  nodes n := L.Admits n.toDatum
  data := L.Admits
  origins _ := True
  chars _ := trivial
  items h _ hd := h.item hd
  trees h := h.ofDatum
  held := by
    intro d h
    rwa [Node.toDatum] at h

/-- Closures from literals that do not mention the spare name, with linked scopes. -/
abbrev objects : ObjectMatch :=
  .numbered fun c s => L.Admits c.literal.toDatum ∧ c.scope.Linked L s

end Link

/-- Payloads that are the same but for the scopes of closures, which are linked. -/
abbrev Payload.Linked (L : Link) : Payload → Payload → Prop :=
  Payload.EqUpTo L.vocabulary L.objects

/-- Values with linked payloads. -/
abbrev Value.Linked (L : Link) : Value → Value → Prop := Value.EqUpTo L.vocabulary L.objects

theorem Scope.Linked.bound {L : Link} {s t : Scope} (h : s.Linked L t) {a b : Nat}
    (hcells : ∀ i, L.cells (a + i) (b + i)) (names : List Name) :
    (s.bound a names).Linked L (t.bound b names) := by
  induction names generalizing a b s t with
  | nil => exact h
  | cons name names ih =>
    refine ih (.cons name (hcells 0) h) fun i => ?_
    rw [Nat.add_right_comm a, Nat.add_right_comm b]
    exact hcells (i + 1)

theorem Scope.Linked.known {L : Link} {s t : Scope} (h : s.Linked L t) {name : Name} {n : Nat}
    (hname : ∀ x ∈ L.spare, Name.same (.proper x) name = false) :
    Option.Rel (fun a b => L.cells a b ∧ (a < n ∨ L.vocabulary.origins Origin.none))
      (s.cell? name) (t.cell? name) := by
  have hcell := h.cell? hname
  revert hcell
  generalize s.cell? name = a?, t.cell? name = b?
  rintro (hab | _)
  · exact .some ⟨hab, .inr trivial⟩
  · exact .none

/-- The scopes of what is called on both sides. -/
theorem Payload.Linked.scope {L : Link} {p q : Payload} (h : p.Linked L q) {c d : Callee}
    (hc : p.Called c) (hd : q.Called d) : c.scope.Linked L d.scope := by
  cases hc with
  | function =>
    cases h
    cases hd
    exact .nil
  | closure c =>
    cases h with
    | atom h => cases h
    | closure _ h =>
      cases hd
      exact h.2.2

/-- Linked runs. -/
def Link.correspondence (L : Link) : Correspondence where
  vocabulary := L.vocabulary
  nodes n := L.Admits n.toDatum
  targets t := L.Admits t.toDatum
  takes _ _ := True
  cells := L.cells
  left := L.left
  right := L.right
  closures _ c s := L.Admits c.literal.toDatum ∧ c.scope.Linked L s
  scopes _ _ _ s t := s.Linked L t
  prompts p q := p = q ∨ p.Linked L q
  traces := .any
  lenient := False
  one_to_one := L.one_to_one
  fresh := L.fresh
  closures_mono _ := id
  scopes_mono _ := id
  asked := .inr
  literal h := h.field (by simp)
  held := id
  placed _ _ := trivial
  part := .part
  runs := id
  runnable _ := .inr trivial
  target h := h.field (by simp)
  target_base h := h.field (by simp)
  target_index h := h.field (by simp)
  target_placed _ _ := trivial
  own_params _ := trivial
  body_runs h := h.1.part (.body ..)
  visible hn _ hs := hs.known fun _ hx => hn.name_ne rfl hx
  assigned hn hs := hs.known fun _ hx => hn.name_ne rfl hx
  declared _ hs _ hcell := .cons _ hcell hs
  closure hn hs := ⟨hn, hs⟩
  called hpq hc hd _ _ _ hcells := (Payload.Linked.scope hpq hc hd).bound hcells _

/-! ## What is linked to itself -/

/-- The spare name does not occur in the trees that a payload holds. -/
def Link.AdmitsPayload (L : Link) (p : Payload) : Prop := ∀ x ∈ L.spare, p.mentions x = false

/-- A payload whose cells correspond to themselves is linked to itself. -/
theorem Payload.linked_self {L : Link} : (p : Payload) → (∀ cell ∈ p.cells, L.cells cell cell) →
    L.AdmitsPayload p → p.Linked L p
  | .list ps, hcells, hadmits => by
    refine .list ?_
    have hitems : ∀ p ∈ ps, p.Linked L p := fun p hp =>
      linked_self p (fun cell hcell => hcells cell (mem_allCells.2 ⟨p, hp, hcell⟩))
        fun x hx => anyMentions_iff.1 (hadmits x hx) p hp
    exact List.forall₂_same.2 hitems
  | .closure c, hcells, hadmits => .closure c ⟨rfl, hadmits, Scope.linked_self hcells⟩
  | .nan object, _, _ => .nan rfl
  | .node _, _, h | .data _, _, h => .atom rfl h
  | .text _, _, _ => .atom rfl fun _ _ => trivial
  | .null, _, _ | .bool _, _, _ | .int _, _, _ | .number _, _, _ => .atom rfl trivial

/-- So is a value. -/
theorem Value.linked_self {L : Link} {v : Value}
    (hcells : ∀ cell ∈ v.payload.cells, L.cells cell cell) (hadmits : L.AdmitsPayload v.payload) :
    v.Linked L v :=
  ⟨Payload.linked_self _ hcells hadmits, rfl, rfl, trivial⟩

theorem Value.linked_unset {L : Link} (o : Origin) : (Value.unset o).Linked L (Value.unset o) :=
  Value.linked_self (by rintro _ ⟨⟩) fun _ _ => rfl

theorem Link.record_self (L : Link) (record : Array Message) :
    List.Forall₂ (Message.Match L.correspondence.prompts) record.toList record.toList := by
  refine List.forall₂_same.2 fun message _ => ?_
  cases message with
  | printed line => exact .printed line
  | prompted p line =>
    have hsame : L.correspondence.prompts p p := .inl rfl
    exact .prompted hsame line

end Mandate
