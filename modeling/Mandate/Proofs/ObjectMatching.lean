/-
  Mandate.Proofs.ObjectMatching

  Payloads that are equal up to the identity of objects. An `ObjectMatch` says which
  closures may stand for each other: they come from the same literal, but may have other
  numbers and other scopes. It says the same of objects that are not a number. Nothing that
  is computed from payloads looks at scopes, and objects are only compared with each other.
  So questions have the same answer on both sides, and what is made of such payloads is
  equal in this sense again.

    * `Matches` relates two computations that end in the same error or in related
      results.
    * `Vocabulary`: the code points, trees and data that payloads may be made of, and
      the origins that values may have.
    * `Payload.EqUpTo` relates payloads.
    * The sections after it follow the operations: text, truth and equality, elements
      and arithmetic.
-/

import Mandate.Value.Arithmetic
import Mandate.Value.Element
import Mathlib.Data.List.Forall2

namespace Mandate

/-! ## Results on both sides -/

/-- Both have related results, or the same error. -/
inductive Matches {ε α β : Type} (Q : α → β → Prop) : Except ε α → Except ε β → Prop where
  | ok {a : α} {b : β} (h : Q a b) : Matches Q (.ok a) (.ok b)
  | error (e : ε) : Matches Q (.error e) (.error e)

namespace Matches

variable {ε α β γ δ : Type} {Q : α → β → Prop} {R : γ → δ → Prop}

theorem bind {x : Except ε α} {y : Except ε β} {f : α → Except ε γ} {g : β → Except ε δ}
    (h : Matches Q x y) (hf : ∀ a b, Q a b → Matches R (f a) (g b)) :
    Matches R (x >>= f) (y >>= g) := by
  cases h with
  | ok h => exact hf _ _ h
  | error e => exact .error e

/-- A computation that does not differ, before two that may. -/
theorem bind_self (x : Except ε α) {f : α → Except ε γ} {g : α → Except ε δ}
    (hf : ∀ a, Matches R (f a) (g a)) : Matches R (x >>= f) (x >>= g) := by
  cases x with
  | ok a => exact hf a
  | error e => exact .error e

/-- A computation whose results are related to themselves. -/
theorem self {Q : α → α → Prop} {x : Except ε α} (h : ∀ a, x = .ok a → Q a a) :
    Matches Q x x := by
  cases x with
  | ok a => exact .ok (h a rfl)
  | error e => exact .error e

theorem mono {Q' : α → β → Prop} {x : Except ε α} {y : Except ε β} (h : Matches Q x y)
    (hQ : ∀ a b, Q a b → Q' a b) : Matches Q' x y := by
  cases h with
  | ok h => exact .ok (hQ _ _ h)
  | error e => exact .error e

/-- The same computation, whose result is used in related ways. -/
theorem map {x : Except ε α} {f : α → γ} {g : α → δ} (hf : ∀ a, x = .ok a → R (f a) (g a)) :
    Matches R (f <$> x) (g <$> x) := by
  cases x with
  | ok a => exact .ok (hf a rfl)
  | error e => exact .error e

/-- The same on items that are related. -/
theorem mapM {f : α → Except ε γ} {g : β → Except ε δ} {as : List α} {bs : List β}
    (h : List.Forall₂ Q as bs) (hf : ∀ a b, Q a b → Matches R (f a) (g b)) :
    Matches (List.Forall₂ R) (as.mapM f) (bs.mapM g) := by
  induction h with
  | nil => exact .ok .nil
  | cons hab _ ih =>
    rw [List.mapM_cons, List.mapM_cons]
    exact (hf _ _ hab).bind fun _ _ hfirst => ih.bind fun _ _ hrest => .ok (.cons hfirst hrest)

/-- Computations with the same results are the same. -/
theorem eq {x y : Except ε α} (h : Matches Eq x y) : x = y := by
  cases h with
  | ok h => rw [h]
  | error e => rfl

/-- Results that only matter as far as they are related. -/
theorem bind_eq {x : Except ε α} {y : Except ε β} {f : α → Except ε γ} {g : β → Except ε γ}
    (h : Matches Q x y) (hf : ∀ a b, Q a b → f a = g b) : x >>= f = y >>= g := by
  cases h with
  | ok h => exact hf _ _ h
  | error e => rfl

end Matches

/-! ## What payloads are made of -/

/-- The code points, trees and data that may occur in payloads, and where values may come from. -/
structure Vocabulary where
  points : CodePoint → Prop
  nodes : Node → Prop
  data : Datum → Prop
  origins : Origin → Prop
  /-- Every character may occur in a text. -/
  chars : ∀ c, points (.char c)
  items : ∀ {ds}, data (.list ds) → ∀ d ∈ ds, data d
  /-- What data stands for as a tree. -/
  trees : ∀ {label fields place}, data (.node label fields place) →
    nodes (Node.ofDatum (.node label fields place))
  held : ∀ {d}, nodes (.data d) → data d

namespace Vocabulary

/-- All that there is. -/
def all : Vocabulary where
  points _ := True
  nodes _ := True
  data _ := True
  origins _ := True
  chars _ := trivial
  items _ _ _ := trivial
  trees _ := trivial
  held _ := trivial

variable {V : Vocabulary}

/-- A text may occur if its code points may. -/
def Admits (V : Vocabulary) (t : Text) : Prop := ∀ point ∈ t, V.points point

theorem admits_ofString (s : String) : V.Admits (Text.ofString s) := by
  intro point hpoint
  obtain ⟨c, -, rfl⟩ := List.mem_map.1 hpoint
  exact V.chars c

theorem Admits.append {s t : Text} (hs : V.Admits s) (ht : V.Admits t) : V.Admits (s ++ t) := by
  intro point hpoint
  rcases List.mem_append.1 hpoint with h | h
  · exact hs point h
  · exact ht point h

theorem Admits.flatten {ts : List Text} (h : ∀ t ∈ ts, V.Admits t) : V.Admits ts.flatten := by
  intro point hpoint
  obtain ⟨t, ht, hpoint⟩ := List.mem_flatten.1 hpoint
  exact h t ht point hpoint

theorem Admits.intercalate {separator : Text} (hseparator : V.Admits separator)
    {ts : List Text} (h : ∀ t ∈ ts, V.Admits t) : V.Admits (List.intercalate separator ts) := by
  induction ts with
  | nil => exact fun point hpoint => by cases hpoint
  | cons t ts ih =>
    have ht := h t List.mem_cons_self
    have hts := ih fun u hu => h u (List.mem_cons_of_mem t hu)
    cases ts with
    | nil =>
      rw [List.intercalate_singleton]
      exact ht
    | cons u us =>
      rw [List.intercalate_cons_cons]
      exact (ht.append hseparator).append hts

end Vocabulary

/-! ## Matching objects -/

/-- Whether a payload is neither a list nor an object that is told from others of its kind. -/
def Payload.isAtom : Payload → Bool
  | .list _ | .closure _ | .nan _ => false
  | _ => true

/-- Whether what is neither a list nor such an object may occur. -/
def Vocabulary.AdmitsAtom (V : Vocabulary) : Payload → Prop
  | .text t => V.Admits t
  | .node n => V.nodes n
  | .data d => V.data d
  | _ => True

/-- Which closures and which objects that are not a number correspond. -/
structure ObjectMatch where
  /-- Whether a closure corresponds to the one with this number and this scope, and with the same
  literal. -/
  closures : Closure → Nat → Scope → Prop
  /-- Whether objects that are not a number correspond. -/
  nans : NanObject → NanObject → Prop
  /-- Closures that are the same on one side are the same on the other. -/
  one_to_one : ∀ {c d i j s t}, closures c i s → closures d j t → (c.id = d.id ↔ i = j)
  nans_one_to_one : ∀ {a b a' b'}, nans a b → nans a' b' → (a = a' ↔ b = b')
  outside : nans .outside .outside
  stored : nans .stored .stored

namespace ObjectMatch

/-- Each object corresponds to that of the same number, as far as the scopes of closures may. -/
def numbered (S : Closure → Scope → Prop) : ObjectMatch where
  closures c i s := i = c.id ∧ S c s
  nans a b := a = b
  one_to_one := by
    rintro c d _ _ s t ⟨rfl, -⟩ ⟨rfl, -⟩
    exact Iff.rfl
  nans_one_to_one := by
    rintro a _ b _ rfl rfl
    exact Iff.rfl
  outside := rfl
  stored := rfl

/-- Each object corresponds to itself, as far as its closures have a property. -/
abbrev equal (C : Closure → Prop) : ObjectMatch := numbered fun c s => s = c.scope ∧ C c

/-- What corresponds by the first corresponds by the second. -/
structure Le (M N : ObjectMatch) : Prop where
  closures : ∀ {c i s}, M.closures c i s → N.closures c i s
  nans : ∀ {a b}, M.nans a b → N.nans a b

theorem Le.refl (M : ObjectMatch) : M.Le M := ⟨id, id⟩

theorem Le.numbered {S T : Closure → Scope → Prop} (h : ∀ c s, S c s → T c s) :
    (ObjectMatch.numbered S).Le (ObjectMatch.numbered T) :=
  ⟨fun ⟨hid, hscope⟩ => ⟨hid, h _ _ hscope⟩, id⟩

end ObjectMatch

/-- Payloads that are the same but for closures and for objects that are not a number, which
correspond. -/
inductive Payload.EqUpTo (V : Vocabulary) (M : ObjectMatch) : Payload → Payload → Prop where
  | atom {p : Payload} (hp : p.isAtom = true) (hadmits : V.AdmitsAtom p) : EqUpTo V M p p
  | list {ps qs : List Payload} (h : List.Forall₂ (EqUpTo V M) ps qs) :
      EqUpTo V M (.list ps) (.list qs)
  | closure (c : Closure) {i : Nat} {s : Scope} (h : M.closures c i s) :
      EqUpTo V M (.closure c) (.closure { c with id := i, scope := s })
  | nan {a b : NanObject} (h : M.nans a b) : EqUpTo V M (.nan a) (.nan b)

/-- Values with such payloads, of one datatype and from one place. -/
structure Value.EqUpTo (V : Vocabulary) (M : ObjectMatch) (v w : Value) : Prop where
  payload : v.payload.EqUpTo V M w.payload
  datatype : v.datatype = w.datatype
  origin : v.origin = w.origin
  placed : V.origins v.origin

namespace Payload

variable {V : Vocabulary} {M N : ObjectMatch} {p q p' q' : Payload}

/-- The cases of payloads that are equal up to objects, with what is to be shown of the items of
lists. -/
@[elab_as_elim]
theorem EqUpTo.induct {motive : (p q : Payload) → p.EqUpTo V M q → Prop}
    (atom : ∀ (p : Payload) (hp : p.isAtom = true) (hadmits : V.AdmitsAtom p),
      motive p p (.atom hp hadmits))
    (list : ∀ (ps qs : List Payload) (h : List.Forall₂ (EqUpTo V M) ps qs),
      List.Forall₂ (fun p q => ∃ h : p.EqUpTo V M q, motive p q h) ps qs →
        motive (.list ps) (.list qs) (.list h))
    (closure : ∀ (c : Closure) (i : Nat) (s : Scope) (h : M.closures c i s),
        motive (.closure c) (.closure { c with id := i, scope := s }) (.closure c h))
    (nan : ∀ (a b : NanObject) (h : M.nans a b), motive (.nan a) (.nan b) (.nan h))
    {p q : Payload} (h : p.EqUpTo V M q) : motive p q h := by
  refine EqUpTo.rec (motive_1 := motive)
    (motive_2 := fun ps qs _ => List.Forall₂ (fun p q => ∃ h : p.EqUpTo V M q, motive p q h) ps qs)
    ?_ ?_ ?_ ?_ ?_ ?_ h
  · intro p hp hadmits
    exact atom p hp hadmits
  · intro ps qs hitems ih
    exact list ps qs hitems ih
  · intro c i s hc
    exact closure c i s hc
  · intro a b hab
    exact nan a b hab
  · exact .nil
  · intro p q ps qs hpq _ ih ihs
    exact .cons ⟨hpq, ih⟩ ihs

theorem EqUpTo.mono (h : p.EqUpTo V M q) (hle : M.Le N) : p.EqUpTo V N q := by
  induction h using EqUpTo.induct with
  | atom p hp hadmits => exact .atom hp hadmits
  | list ps qs _ ih => exact .list (ih.imp fun _ _ h => h.2)
  | closure c i s h => exact .closure c (hle.closures h)
  | nan a b h => exact .nan (hle.nans h)

/-- Where each object corresponds to itself, payloads are equal. -/
theorem EqUpTo.eq {C : Closure → Prop} (h : p.EqUpTo V (ObjectMatch.equal C) q) : q = p := by
  induction h using EqUpTo.induct with
  | atom p hp hadmits => rfl
  | list ps qs _ ih =>
    have hitems : List.Forall₂ Eq ps qs := ih.imp fun _ _ h => h.2.symm
    rw [List.forall₂_eq_eq_eq] at hitems
    rw [hitems]
  | closure c i s h =>
    obtain ⟨rfl, rfl, -⟩ := h
    rfl
  | nan a b h => rw [show a = b from h]

theorem EqUpTo.of_closure {C : Closure → Prop} {c : Closure}
    (h : (Payload.closure c).EqUpTo V (ObjectMatch.equal C) q) : C c := by
  cases h with
  | atom hp => cases hp
  | closure c h => exact h.2.2

/-- Every payload is equal to itself. -/
theorem eqUpTo_refl : (p : Payload) → p.EqUpTo .all (ObjectMatch.equal fun _ => True) p
  | .list ps => .list (List.forall₂_same.2 fun p _ => eqUpTo_refl p)
  | .closure c => .closure c ⟨rfl, rfl, trivial⟩
  | .nan object => .nan rfl
  | .text _ => .atom rfl fun _ _ => trivial
  | .null | .bool _ | .int _ | .number _ | .node _ | .data _ => .atom rfl trivial

theorem eqUpTo_text {t : Text} (h : V.Admits t) : (Payload.text t).EqUpTo V M (.text t) :=
  .atom rfl h

theorem eqUpTo_string (s : String) :
    (Payload.text (Text.ofString s)).EqUpTo V M (.text (Text.ofString s)) :=
  eqUpTo_text (Vocabulary.admits_ofString s)

theorem eqUpTo_number (x : Float) : (Payload.number x).EqUpTo V M (.number x) :=
  .atom rfl trivial

theorem eqUpTo_bool (b : Bool) : (Payload.bool b).EqUpTo V M (.bool b) := .atom rfl trivial

/-- A number, or objects that correspond. -/
theorem eqUpTo_real {a b : NanObject} (h : M.nans a b) (x : Float) :
    (real a x).EqUpTo V M (real b x) := by
  unfold real
  split
  · exact .nan h
  · exact eqUpTo_number x

theorem eqUpTo_quantity {a b : NanObject} (h : M.nans a b) (q : Number.Quantity) :
    (ofQuantity a q).EqUpTo V M (ofQuantity b q) := by
  cases q with
  | whole i => exact .atom rfl trivial
  | real x => exact eqUpTo_real h x

/-! ## Data and trees as payloads -/

theorem eqUpTo_ofDatum : (d : Datum) → V.data d → (ofDatum d).EqUpTo V M (ofDatum d)
  | .list items, h => by
    rw [ofDatum]
    exact .list (eqUpTo_ofData items (V.items h))
  | .node label fields place, h => by
    have hnode := V.trees h
    unfold ofDatum
    split
    · next d hd =>
      rw [hd] at hnode
      exact .atom rfl (V.held hnode)
    · exact .atom rfl hnode
  | .span .., h | .datatype _, h => .atom rfl h
  | .number x, _ => by
    rw [ofDatum]
    exact eqUpTo_real M.stored x
  | .text s, _ => eqUpTo_string s
  | .null, _ | .bool _, _ | .int _, _ => .atom rfl trivial
where
  eqUpTo_ofData : (ds : List Datum) → (∀ d ∈ ds, V.data d) →
      List.Forall₂ (EqUpTo V M) (ofData ds) (ofData ds)
    | [], _ => .nil
    | d :: ds, h => .cons (eqUpTo_ofDatum d (h d (by simp)))
        (eqUpTo_ofData ds fun e he => h e (by simp [he]))

theorem eqUpTo_ofNode {n : Node} (h : V.nodes n) : (ofNode n).EqUpTo V M (ofNode n) := by
  unfold ofNode
  split
  · exact eqUpTo_ofDatum _ (V.held h)
  · exact .atom rfl h

/-! ## Text -/

namespace EqUpTo

theorem shownAll_eq {ps qs : List Payload}
    (h : List.Forall₂ (fun p q => ∃ _ : p.EqUpTo V M q, p.shown = q.shown) ps qs) :
    shownAll ps = shownAll qs := by
  induction h with
  | nil => rfl
  | cons hpq _ ih => rw [shownAll, shownAll, hpq.2, ih]

theorem shown (h : p.EqUpTo V M q) : p.shown = q.shown := by
  induction h using EqUpTo.induct with
  | atom p _ _ => rfl
  | list ps qs _ ih => rw [Payload.shown, Payload.shown, shownAll_eq ih]
  | closure c i s _ => rfl
  | nan a b _ => rfl

theorem plain (h : p.EqUpTo V M q) : p.plain = q.plain := by
  have hshown := h.shown
  cases h with
  | atom => rfl
  | list | closure => exact congrArg (Functor.map Text.ofString) hshown
  | nan => rfl

/-- Only a text can be written with code points that are no characters. -/
theorem admits_of_plain (h : p.EqUpTo V M q) {t : Text} (ht : p.plain = .ok t) : V.Admits t := by
  have hshown : ∀ p : Payload, Text.ofString <$> p.shown = .ok t → V.Admits t := by
    intro p hp
    cases hs : p.shown with
    | error f =>
      rw [hs] at hp
      cases hp
    | ok s =>
      rw [hs] at hp
      cases hp
      exact Vocabulary.admits_ofString s
  cases h with
  | @atom p hp hadmits =>
    cases p with
    | text t' =>
      cases ht
      exact hadmits
    | _ => exact hshown _ ht
  | list | closure | nan => exact hshown _ ht

theorem label (h : p.EqUpTo V M q) : p.label = q.label := by
  cases h <;> rfl

theorem kind (h : p.EqUpTo V M q) : p.kind = q.kind := by
  cases h <;> rfl

theorem origin? (h : p.EqUpTo V M q) : p.origin? = q.origin? := by
  cases h <;> rfl

theorem ownDatatype (h : p.EqUpTo V M q) : p.ownDatatype = q.ownDatatype := by
  cases h <;> rfl

theorem numberText (h : p.EqUpTo V M q) : p.numberText = q.numberText := by
  have hplain := h.plain
  cases h with
  | atom => rfl
  | list => exact hplain
  | closure => exact hplain
  | nan => rfl

theorem admits_of_numberText (h : p.EqUpTo V M q) {t : Text} (ht : p.numberText = .ok t) :
    V.Admits t := by
  have hplain := fun ht => h.admits_of_plain (t := t) ht
  cases h with
  | @atom p hp hadmits =>
    cases p with
    | number x =>
      cases ht
      exact Vocabulary.admits_ofString _
    | int i =>
      rw [Payload.numberText] at ht
      cases hx : (Number.Quantity.whole i).toFloat with
      | error f =>
        rw [hx] at ht
        cases ht
      | ok x =>
        rw [hx] at ht
        cases ht
        split <;> exact Vocabulary.admits_ofString _
    | nan => cases hp
    | _ => exact hplain ht
  | nan h =>
    cases ht
    exact Vocabulary.admits_ofString _
  | list | closure => exact hplain ht

theorem truth (h : p.EqUpTo V M q) : p.truth = q.truth := by
  cases h with
  | atom => rfl
  | list h =>
    cases h with
    | nil => rfl
    | cons => rfl
  | closure => rfl
  | nan => rfl

/-! ## Payloads as texts -/

theorem bracketed {ps qs : List Payload} (h : List.Forall₂ (EqUpTo V M) ps qs) :
    Matches (EqUpTo V M) (Payload.bracketed ps) (Payload.bracketed qs) := by
  unfold Payload.bracketed
  refine Matches.bind (Matches.mapM (R := fun t u : Text => t = u ∧ V.Admits t) h
    fun p q hpq => ?_) fun ts us hts => ?_
  · cases hpq with
    | @atom p hp hadmits =>
      cases p with
      | text t => exact .ok ⟨rfl, hadmits⟩
      | _ => exact .error _
    | list | closure | nan => exact .error _
  have heq : ts = us := List.forall₂_eq_eq_eq ▸ hts.imp fun _ _ h => h.1
  have hadmits := ((List.forall₂_and_left ts us).1 (hts.imp fun _ _ h => ⟨h.2, h.1⟩)).1
  rw [← heq]
  refine .ok (eqUpTo_text ((Vocabulary.Admits.append ?_ ?_).append ?_))
  · exact Vocabulary.admits_ofString _
  · exact .intercalate (Vocabulary.admits_ofString _) hadmits
  · exact Vocabulary.admits_ofString _

/-- What is of no kind that is known is written plainly. -/
theorem renderedAs_none (h : p.EqUpTo V M q) (t : Datatype) :
    Matches (EqUpTo V M) (p.renderedAs t none) (q.renderedAs t none) := by
  have hplain := h.plain
  have hadmits := fun t ht => h.admits_of_plain (t := t) ht
  cases h with
  | @atom p _ _ =>
    cases p with
    | null => exact .ok (eqUpTo_string _)
    | _ => exact Matches.map fun t ht => eqUpTo_text (hadmits t ht)
  | list | closure | nan =>
    show Matches _ (Payload.text <$> _) (Payload.text <$> _)
    rw [← hplain]
    exact Matches.map fun t ht => eqUpTo_text (hadmits t ht)

theorem renderedAs (h : p.EqUpTo V M q) (t : Datatype) (k : Option Kind) :
    Matches (EqUpTo V M) (p.renderedAs t k) (q.renderedAs t k) := by
  cases k with
  | none => exact h.renderedAs_none t
  | some k =>
    cases k with
    | any => exact h.renderedAs_none t
    | string => exact .ok h
    | number =>
      rw [Payload.renderedAs, Payload.renderedAs, ← h.numberText]
      exact Matches.map fun t ht => eqUpTo_text (h.admits_of_numberText ht)
    | boolean =>
      rw [Payload.renderedAs, Payload.renderedAs, truthText, truthText, h.truth]
      split <;> exact .ok (eqUpTo_string _)
    | array => exact Matches.bind_self _ fun _ => .error _
    | function =>
      rw [Payload.renderedAs, Payload.renderedAs, h.ownDatatype]
      exact Matches.bind_self _ fun _ => Matches.bind_self _ fun _ => .ok (eqUpTo_string _)
    | closure =>
      rw [Payload.renderedAs, Payload.renderedAs, h.shown]
      exact Matches.bind_self _ fun _ => .ok (eqUpTo_string _)
    | instruction =>
      rw [Payload.renderedAs, Payload.renderedAs, h.label]
      exact .ok (eqUpTo_string _)

theorem renderedWhole (h : p.EqUpTo V M q) (t : Datatype) :
    Matches (EqUpTo V M) (p.renderedWhole t) (q.renderedWhole t) := by
  unfold Payload.renderedWhole
  refine Matches.bind_self _ fun k => ?_
  rw [h.kind]
  split
  · exact h.renderedAs t _
  · exact h.renderedAs t _

/-- A text that is taken for a datatype, by recursion along the elements of arrays. -/
theorem renderedText {t : Text} (ht : V.Admits t) : (d : Datatype) →
    Matches (EqUpTo V M) (Payload.renderedText t d) (Payload.renderedText t d)
  | .mk .any _ _ | .mk .string _ _ | .mk .number _ _ => .ok (eqUpTo_text ht)
  | .mk .boolean _ _ => by
    rw [Payload.renderedText, truthText]
    split <;> exact .ok (eqUpTo_string _)
  | .mk .array [] _ => .error _
  | .mk .array (e :: _) _ => by
    rw [Payload.renderedText]
    have hpoints : List.Forall₂ (fun a b => a = b ∧ V.points a) t t :=
      List.forall₂_same.2 fun point hpoint => ⟨rfl, ht point hpoint⟩
    refine (Matches.mapM hpoints ?_).bind fun _ _ => bracketed
    rintro point _ ⟨rfl, hpoint⟩
    exact renderedText (fun _ h => List.mem_singleton.1 h ▸ hpoint) e
  | .mk .function _ _ => .error _
  | .mk .closure _ _ | .mk .instruction _ _ => .ok (eqUpTo_string _)
  | .foreign f => Matches.bind_self _ fun _ => .ok (eqUpTo_text ht)

theorem renderedAll {ps qs : List Payload} {t : Datatype}
    (h : List.Forall₂ (fun p q => ∃ _ : p.EqUpTo V M q,
      ∀ t, Matches (EqUpTo V M) (p.rendered t) (q.rendered t)) ps qs) :
    Matches (List.Forall₂ (EqUpTo V M)) (Payload.renderedAll ps t) (Payload.renderedAll qs t) := by
  induction h with
  | nil => exact .ok .nil
  | cons hpq _ ih =>
    rw [Payload.renderedAll, Payload.renderedAll]
    refine (hpq.2 t).bind fun _ _ hfirst => ?_
    exact ih.bind fun _ _ hrest => .ok (.cons hfirst hrest)

theorem rendered (h : p.EqUpTo V M q) (t : Datatype) :
    Matches (EqUpTo V M) (p.rendered t) (q.rendered t) := by
  induction h using EqUpTo.induct generalizing t with
  | atom p hp hadmits =>
    cases p with
    | text s => exact renderedText hadmits t
    | list | closure | nan => cases hp
    | _ => exact (EqUpTo.atom hp hadmits).renderedWhole t
  | list ps qs h ih =>
    -- Of some datatypes a list is written item by item, of the others as a whole.
    have hitems : ∀ e, Matches (EqUpTo V M)
        (Payload.renderedAll ps e >>= Payload.bracketed)
        (Payload.renderedAll qs e >>= Payload.bracketed) :=
      fun e => (renderedAll ih).bind fun _ _ => bracketed
    cases t with
    | mk k parts l =>
      cases k with
      | any => exact hitems _
      | array => exact Matches.bind_self _ hitems
      | instruction => exact hitems _
      | _ => exact (EqUpTo.list h).renderedWhole _
    | foreign f => exact (EqUpTo.list h).renderedWhole _
  | closure c i s h => exact (EqUpTo.closure c h).renderedWhole t
  | nan a b h => exact (EqUpTo.nan h).renderedWhole t

/-! ## Truth and equality -/

theorem quantity? (h : p.EqUpTo V M q) : p.quantity? = q.quantity? := by
  cases h <;> rfl

theorem quantity (h : p.EqUpTo V M q) : p.quantity = q.quantity := by
  rw [Payload.quantity, Payload.quantity, h.quantity?]

/-- What is one object on one side is one object on the other. -/
theorem isOneNan (h : p.EqUpTo V M q) (h' : p'.EqUpTo V M q') : p.isOneNan p' = q.isOneNan q' := by
  cases h with
  | @atom p hp _ =>
    cases p with
    | nan => cases hp
    | _ => rfl
  | list | closure => rfl
  | nan h =>
    cases h' with
    | @atom p' hp' _ =>
      cases p' with
      | nan => cases hp'
      | _ => rfl
    | list | closure => rfl
    | nan h' => exact decide_eq_decide.2 (M.nans_one_to_one h h')

theorem sameAll_eq {ps qs ps' qs' : List Payload}
    (h : List.Forall₂ (fun p q => ∃ _ : p.EqUpTo V M q,
      ∀ {p' q'}, p'.EqUpTo V M q' → p.same p' = q.same q') ps qs)
    (h' : List.Forall₂ (EqUpTo V M) ps' qs') : sameAll ps ps' = sameAll qs qs' := by
  induction h generalizing ps' qs' with
  | nil =>
    cases h' with
    | nil => rfl
    | cons => rfl
  | cons hpq _ ih =>
    cases h' with
    | nil => rfl
    | cons hpq' hrest' => rw [sameAll, sameAll, hpq.1.isOneNan hpq', hpq.2 hpq', ih hrest']

theorem same (h : p.EqUpTo V M q) (h' : p'.EqUpTo V M q') : p.same p' = q.same q' := by
  induction h using EqUpTo.induct generalizing p' q' with
  | atom p hp _ =>
    cases h' with
    | atom => rfl
    | list =>
      cases p with
      | list => cases hp
      | _ => rfl
    | closure =>
      cases p with
      | closure => cases hp
      | _ => rfl
    | nan => cases p <;> rfl
  | list ps qs _ ih =>
    cases h' with
    | @atom p' hp' _ =>
      cases p' with
      | list => cases hp'
      | _ => rfl
    | list h' => rw [Payload.same, Payload.same, sameAll_eq ih h']
    | closure | nan => rfl
  | closure c i s h =>
    cases h' with
    | @atom p' hp' _ =>
      cases p' with
      | closure => cases hp'
      | _ => rfl
    | list | nan => rfl
    -- Closures are told apart by their numbers.
    | closure d h' => exact decide_eq_decide.2 (M.one_to_one h h')
  -- What is not a number is equal to nothing, whichever object it is.
  | nan a b _ =>
    cases h' with
    | @atom p' _ _ => cases p' <;> rfl
    | list | closure | nan => rfl

/-! ## Comparison -/

theorem orderAll_eq {ps qs ps' qs' : List Payload}
    (h : List.Forall₂ (fun p q => ∃ _ : p.EqUpTo V M q,
      ∀ {p' q'}, p'.EqUpTo V M q' → p.order p' = q.order q') ps qs)
    (h' : List.Forall₂ (EqUpTo V M) ps' qs') : orderAll ps ps' = orderAll qs qs' := by
  induction h generalizing ps' qs' with
  | nil =>
    cases h' with
    | nil => rfl
    | cons => rfl
  | cons hpq _ ih =>
    cases h' with
    | nil => rfl
    | cons hpq' hrest' =>
      rw [orderAll, orderAll, hpq.1.isOneNan hpq', hpq.1.same hpq', hpq.2 hpq', ih hrest']

theorem order (h : p.EqUpTo V M q) (h' : p'.EqUpTo V M q') : p.order p' = q.order q' := by
  induction h using EqUpTo.induct generalizing p' q' with
  | atom p hp _ =>
    cases h' with
    | atom => rfl
    | list =>
      cases p with
      | list => cases hp
      | _ => rfl
    | closure | nan => cases p <;> rfl
  | list ps qs _ ih =>
    cases h' with
    | @atom p' hp' _ =>
      cases p' with
      | list => cases hp'
      | _ => rfl
    | list h' => rw [Payload.order, Payload.order, orderAll_eq ih h']
    | closure | nan => rfl
  | closure | nan =>
    cases h' with
    | @atom p' _ _ => cases p' <;> rfl
    | list | closure | nan => rfl

theorem compares (op : Slot BinaryOp) (h : p.EqUpTo V M q) (h' : p'.EqUpTo V M q') :
    Payload.compares op p p' = Payload.compares op q q' := by
  unfold Payload.compares
  rw [h.order h']

/-! ## Elements -/

theorem forall₂_getElem? {ps qs : List Payload} (h : List.Forall₂ (EqUpTo V M) ps qs) (i : Nat) :
    Option.Rel (EqUpTo V M) ps[i]? qs[i]? := by
  induction h generalizing i with
  | nil => exact .none
  | cons hpq _ ih =>
    cases i with
    | zero => exact .some hpq
    | succ i => exact ih i

theorem forall₂_set {ps qs : List Payload} (h : List.Forall₂ (EqUpTo V M) ps qs) (i : Nat)
    (h' : p'.EqUpTo V M q') : List.Forall₂ (EqUpTo V M) (ps.set i p') (qs.set i q') := by
  induction h generalizing i with
  | nil => exact .nil
  | cons hpq hrest ih =>
    cases i with
    | zero => exact .cons h' hrest
    | succ i => exact .cons hpq (ih i)

theorem length (h : p.EqUpTo V M q) : p.length = q.length := by
  cases h with
  | atom => rfl
  | list h => rw [Payload.length, Payload.length, h.length_eq]
  | closure | nan => rfl

theorem elements (h : p.EqUpTo V M q) :
    Matches (List.Forall₂ (EqUpTo V M)) p.elements q.elements := by
  cases h with
  | @atom p hp hadmits =>
    cases p with
    | text s =>
      refine .ok (List.forall₂_same.2 fun e he => ?_)
      obtain ⟨point, hpoint, rfl⟩ := List.mem_map.1 he
      exact eqUpTo_text fun _ h => List.mem_singleton.1 h ▸ hadmits point hpoint
    | list => cases hp
    | _ => exact .error _
  | list h => exact .ok h
  | closure | nan => exact .error _

theorem item (h : p.EqUpTo V M q) (position : Nat) :
    Matches (EqUpTo V M) (p.item position) (q.item position) := by
  refine h.elements.bind fun ps qs hitems => ?_
  have hitem := forall₂_getElem? hitems position
  revert hitem
  generalize ps[position]? = a, qs[position]? = b
  rintro (hitem | _)
  · exact .ok hitem
  · exact .error _

theorem withItem (h : p.EqUpTo V M q) (position : Nat) (h' : p'.EqUpTo V M q') :
    Matches (EqUpTo V M) (p.withItem position p') (q.withItem position q') :=
  h.elements.bind fun _ _ hitems => .ok (.list (forall₂_set hitems position h'))

theorem wholeIndex (h : p.EqUpTo V M q) : p.wholeIndex = q.wholeIndex := by
  cases h <;> rfl

/-! ## Arithmetic -/

/-- Of payloads that are not both texts or both lists only the quantities are added. -/
theorem add {i j : Nat} (hid : M.nans (.made i) (.made j)) (h : p.EqUpTo V M q)
    (h' : p'.EqUpTo V M q') : Matches (EqUpTo V M) (p.add i p') (q.add j q') := by
  have hsum : Matches (EqUpTo V M)
      (do return ofQuantity (.made i) (← (← p.quantity).add (← p'.quantity)))
      (do return ofQuantity (.made j) (← (← q.quantity).add (← q'.quantity))) := by
    rw [h.quantity, h'.quantity]
    exact Matches.bind_self _ fun _ => Matches.bind_self _ fun _ => Matches.bind_self _ fun _ =>
      .ok (eqUpTo_quantity hid _)
  cases h with
  | @atom p hp hadmits =>
    cases h' with
    | @atom p' hp' hadmits' =>
      cases p with
      | text s =>
        cases p' with
        | text t => exact .ok (eqUpTo_text (Vocabulary.Admits.append hadmits hadmits'))
        | _ => exact hsum
      | list => cases hp
      | _ => exact hsum
    | list =>
      cases p with
      | list => cases hp
      | _ => exact hsum
    | closure | nan => cases p <;> exact hsum
  | list h =>
    cases h' with
    | @atom p' hp' _ =>
      cases p' with
      | list => cases hp'
      | _ => exact hsum
    | list h' => exact .ok (.list (List.rel_append h h'))
    | closure | nan => exact hsum
  | closure | nan =>
    cases h' with
    | @atom p' hp' _ => cases p' <;> exact hsum
    | list | closure | nan => exact hsum

theorem forall₂_replicate {ps qs : List Payload} (h : List.Forall₂ (EqUpTo V M) ps qs) (n : Nat) :
    List.Forall₂ (List.Forall₂ (EqUpTo V M)) (List.replicate n ps) (List.replicate n qs) := by
  induction n with
  | zero => exact .nil
  | succ n ih => exact .cons h ih

theorem repeated (count : Int) (h : p.EqUpTo V M q) :
    Matches (EqUpTo V M) (p.repeated count) (q.repeated count) := by
  cases h with
  | @atom p hp hadmits =>
    cases p with
    | text s =>
      rw [Payload.repeated]
      split_ifs
      · exact .error _
      · exact .ok (eqUpTo_text hadmits)
      · exact .error _
      · exact .error _
      · refine .ok (eqUpTo_text (.flatten fun t ht => ?_))
        rw [List.eq_of_mem_replicate ht]
        exact hadmits
    | list => cases hp
    | _ => exact .error _
  | @list ps qs h =>
    have hempty : ps.isEmpty = qs.isEmpty := by cases h <;> rfl
    rw [Payload.repeated, Payload.repeated, hempty, h.length_eq]
    split_ifs
    · exact .error _
    · exact .ok (.list .nil)
    · exact .error _
    · exact .ok (.list (List.rel_flatten (forall₂_replicate h count.toNat)))
  | closure | nan => exact .error _

variable {i j : Nat}

theorem multiply (hid : M.nans (.made i) (.made j)) (h : p.EqUpTo V M q) (h' : p'.EqUpTo V M q') :
    Matches (EqUpTo V M) (p.multiply i p') (q.multiply j q') := by
  unfold Payload.multiply
  rw [h.quantity?, h'.quantity?]
  split
  · exact Matches.map fun _ _ => eqUpTo_quantity hid _
  · exact h'.repeated _
  · exact h.repeated _
  · exact .error _

theorem negate (hid : M.nans (.made i) (.made j)) (h : p.EqUpTo V M q) :
    Matches (EqUpTo V M) (p.negate i) (q.negate j) := by
  unfold Payload.negate
  rw [h.quantity]
  exact Matches.bind_self _ fun _ => .ok (eqUpTo_quantity hid _)

theorem isOdd (h : p.EqUpTo V M q) : p.isOdd = q.isOdd := by
  cases h <;> rfl

theorem quotientObject (hid : M.nans (.made i) (.made j)) (divisor : Number.Quantity) :
    M.nans (Payload.quotientObject i divisor) (Payload.quotientObject j divisor) := by
  unfold Payload.quotientObject
  split
  · exact M.outside
  · exact hid

theorem domainObject (hid : M.nans (.made i) (.made j)) (a b : Number.Quantity) :
    M.nans (Payload.domainObject i a b) (Payload.domainObject j a b) := by
  unfold Payload.domainObject
  split
  · exact hid
  · exact M.outside

theorem power (hid : M.nans (.made i) (.made j)) (h : p.EqUpTo V M q) (h' : p'.EqUpTo V M q') :
    Matches (EqUpTo V M) (p.power i p') (q.power j q') := by
  unfold Payload.power
  rw [h.quantity, h'.quantity, h'.isOdd]
  refine Matches.bind_self _ fun base => ?_
  split
  · exact Matches.bind_self _ fun exponent => .ok (eqUpTo_real (domainObject hid base exponent) _)
  · dsimp only
    split
    · exact Matches.bind_self _ fun _ => .ok (eqUpTo_number _)
    · exact .ok (eqUpTo_number _)

theorem arithmetic (hid : M.nans (.made i) (.made j)) (op : Slot BinaryOp) (h : p.EqUpTo V M q)
    (h' : p'.EqUpTo V M q') :
    Matches (EqUpTo V M) (Payload.arithmetic i op p p') (Payload.arithmetic j op q q') := by
  unfold Payload.arithmetic
  rw [h.quantity, h'.quantity]
  split
  · exact Matches.bind_self _ fun _ => Matches.bind_self _ fun _ => Matches.bind_self _ fun _ =>
      .ok (eqUpTo_quantity hid _)
  · exact h.multiply hid h'
  · exact Matches.bind_self _ fun _ => Matches.bind_self _ fun divisor =>
      Matches.bind_self _ fun _ => .ok (eqUpTo_real (quotientObject hid divisor) _)
  · exact Matches.bind_self _ fun _ => Matches.bind_self _ fun _ => Matches.bind_self _ fun _ =>
      Matches.bind_self _ fun _ => .ok (eqUpTo_real (domainObject hid _ _) _)
  · exact h.power hid h'
  · exact Matches.bind_self _ fun _ => .error _

end EqUpTo
end Payload

/-! ## Values -/

namespace Value.EqUpTo

variable {V : Vocabulary} {M : ObjectMatch} {v w : Value}

theorem mono {N : ObjectMatch} (h : v.EqUpTo V M w) (hle : M.Le N) : v.EqUpTo V N w :=
  ⟨h.payload.mono hle, h.datatype, h.origin, h.placed⟩

theorem withOrigin (h : v.EqUpTo V M w) {o : Origin} (ho : V.origins o) :
    (v.withOrigin o).EqUpTo V M (w.withOrigin o) :=
  ⟨h.payload, h.datatype, rfl, ho⟩

/-- Where each object corresponds to itself, values are equal. -/
theorem eq {C : Closure → Prop} (h : v.EqUpTo V (ObjectMatch.equal C) w) : w = v := by
  obtain ⟨p, t, o⟩ := v
  obtain ⟨q, t', o'⟩ := w
  obtain rfl : q = p := h.payload.eq
  obtain rfl : t = t' := h.datatype
  obtain rfl : o = o' := h.origin
  rfl

theorem rendered (h : v.EqUpTo V M w) : Matches (Payload.EqUpTo V M) v.rendered w.rendered := by
  unfold Value.rendered
  rw [h.datatype]
  exact h.payload.rendered _

theorem printed (h : v.EqUpTo V M w) :
    Matches (fun s t => s = t ∧ V.Admits s) v.printed w.printed := by
  refine h.rendered.bind fun p q hpq => ?_
  cases hpq with
  | @atom p hp hadmits =>
    cases p with
    | text t => exact .ok ⟨rfl, hadmits⟩
    | _ => exact .error _
  | list | closure | nan => exact .error _

theorem shown (h : v.EqUpTo V M w) : v.shown = w.shown := by
  refine h.rendered.bind_eq fun p q hpq => ?_
  rw [hpq.shown, h.datatype]

theorem shownAll {vs ws : List Value} (h : List.Forall₂ (Value.EqUpTo V M) vs ws) :
    Value.shownAll vs = Value.shownAll ws := by
  have hall : vs.mapM Value.shown = ws.mapM Value.shown := by
    induction h with
    | nil => rfl
    | cons hvw _ ih => rw [List.mapM_cons, List.mapM_cons, hvw.shown, ih]
  rw [Value.shownAll, Value.shownAll, hall]

theorem position (h : v.EqUpTo V M w) (length : Nat) : v.position length = w.position length := by
  unfold Value.position
  rw [h.payload.wholeIndex, h.payload.numberText, h.origin]

end Value.EqUpTo

end Mandate
