/-
  Mandate.Proofs.Fitting

  Values that are what their datatype says.

    * `Datatype.holds` tells whether a payload fits a datatype. It is decided, so
      a running program can be watched for it.
    * `Payload.Regular` is what a program from a source computes with: its trees
      are regular, and nothing in it comes from a stored program.
    * `Datatype.holds_of_accepts`: a payload that fits a datatype fits every one
      that accepts it.
    * `Value.Sound.rendered`: a regular value that fits its datatype has a text.
-/

import Mandate.Proofs.BasicSteps
import Mandate.Proofs.ProgramTree
import Mandate.Semantics.Operator

namespace Mandate

/-! ## Fitting -/

/-- Whether a tree is an instruction when it is not evaluated. -/
def Node.isInstruction : Node → Bool
  | .array .. | .print .. | .assign .. | .eval .. | .exec .. | .branch .. | .loop ..
  | .builtin .. => true
  | _ => false

/-- Whether a payload is what a datatype says. -/
def Datatype.holds : Datatype → Payload → Bool
  | .mk .any _ _, _ => true
  | .mk .string _ _, .text _ => true
  | .mk .number _ _, .number _ | .mk .number _ _, .nan _ => true
  | .mk .boolean _ _, .bool _ => true
  | .mk .array (e :: _) _, .list items => items.all e.holds
  | .mk .function _ _, .node (.lambda .function ..) => true
  | .mk .closure _ _, .closure _ => true
  | .mk .instruction _ _, .list _ => true
  | .mk .instruction _ _, .node n => n.isInstruction
  | _, _ => false

/-- Whether the payload of a value is what its datatype says. -/
def Value.fits (v : Value) : Bool := v.datatype.holds v.payload

/-- A payload that is a number, or the object that stands for none. -/
inductive Payload.IsNumber : Payload → Prop where
  | number (x : Float) : IsNumber (.number x)
  | nan (object : NanObject) : IsNumber (.nan object)

namespace Datatype

@[simp] theorem any_holds (p : Payload) : any.holds p = true := rfl

theorem array_holds_list (e : Datatype) (items : List Payload) :
    (array e).holds (.list items) = true ↔ ∀ p ∈ items, e.holds p = true :=
  List.all_eq_true

theorem text_of_holds {p : Payload} (h : string.holds p = true) : ∃ s, p = .text s := by
  cases p with
  | text s => exact ⟨s, rfl⟩
  | _ => cases h

theorem number_of_holds {p : Payload} (h : number.holds p = true) : p.IsNumber := by
  cases p with
  | number x => exact .number x
  | nan object => exact .nan object
  | _ => cases h

theorem bool_of_holds {p : Payload} (h : boolean.holds p = true) : ∃ b, p = .bool b := by
  cases p with
  | bool b => exact ⟨b, rfl⟩
  | _ => cases h

theorem list_of_holds {e : Datatype} {p : Payload} (h : (array e).holds p = true) :
    ∃ items, p = .list items ∧ ∀ q ∈ items, e.holds q = true := by
  cases p with
  | list items => exact ⟨items, rfl, (array_holds_list e items).1 h⟩
  | _ => cases h

theorem closure_of_holds {as : List Datatype} {r : Option Datatype} {p : Payload}
    (h : (mk .closure as r).holds p = true) : ∃ c, p = .closure c := by
  cases p with
  | closure c => exact ⟨c, rfl⟩
  | _ => cases h

theorem function_of_holds {as : List Datatype} {r : Option Datatype} {p : Payload}
    (h : (mk .function as r).holds p = true) :
    ∃ qs t b o, p = .node (.lambda .function qs t b o) := by
  unfold holds at h
  split at h <;> simp_all

theorem instruction_of_holds {p : Payload} (h : instruction.holds p = true) :
    (∃ items, p = .list items) ∨ ∃ n, p = .node n ∧ n.isInstruction = true := by
  cases p with
  | list items => exact .inl ⟨items, rfl⟩
  | node n => exact .inr ⟨n, rfl, h⟩
  | _ => cases h

/-- Of functions and closures only the kind counts. -/
theorem holds_of_kind {k : Kind} (hk : k ∈ [Kind.function, .closure]) {as bs : List Datatype}
    {r s : Option Datatype} {p : Payload} (h : (mk k as r).holds p = true) :
    (mk k bs s).holds p = true := by
  simp only [List.mem_cons, List.not_mem_nil, or_false] at hk
  rcases hk with rfl | rfl <;>
  · unfold holds at h ⊢
    split at h <;> simp_all

/-- A payload that fits a datatype fits every one that accepts it. -/
theorem holds_of_accepts {e : Datatype} (he : e.WellFormed) :
    ∀ {a : Datatype} {p : Payload}, a.WellFormed → e.accepts a = .ok true →
      a.holds p = true → e.holds p = true := by
  induction he using WellFormed.induct with
  | any =>
    intro a p _ _ _
    exact any_holds p
  | string =>
    intro a p ha hacc hp
    rwa [(string_accepts_iff ha).1 hacc] at hp
  | number =>
    intro a p ha hacc hp
    rwa [(number_accepts_iff ha).1 hacc] at hp
  | boolean =>
    intro a p ha hacc hp
    rwa [(boolean_accepts_iff ha).1 hacc] at hp
  | instruction =>
    intro a p ha hacc hp
    rcases instruction_accepts ha hacc with rfl | ⟨t, rfl, _⟩
    · exact hp
    · -- Any list is an instruction, whatever the array is of.
      obtain ⟨items, rfl, _⟩ := list_of_holds hp
      rfl
  | array e _ ih =>
    intro a p ha hacc hp
    obtain ⟨t, rfl, ht, htacc⟩ := array_accepts ha hacc
    obtain ⟨items, rfl, hitems⟩ := list_of_holds hp
    exact (array_holds_list e items).2 fun q hq => ih ht htacc (hitems q hq)
  | function ps r _ _ _ _ =>
    intro a p _ hacc hp
    obtain ⟨as, t, rfl⟩ := kind_of_accepts (by simp) rfl hacc
    exact holds_of_kind (by simp) hp
  | closure ps r _ _ _ _ =>
    intro a p _ hacc hp
    obtain ⟨as, t, rfl⟩ := kind_of_accepts (by simp) rfl hacc
    exact holds_of_kind (by simp) hp

end Datatype

namespace Payload.IsNumber

variable {p : Payload}

theorem real (object : NanObject) (x : Float) : (Payload.real object x).IsNumber := by
  unfold Payload.real
  split
  · exact .nan object
  · exact .number x

theorem holds (h : p.IsNumber) : Datatype.number.holds p = true := by
  cases h <;> rfl

theorem quantity (h : p.IsNumber) : ∃ x, p.quantity? = some (.real x) := by
  cases h <;> exact ⟨_, rfl⟩

end Payload.IsNumber

/-! ## Regular values -/

/-- An origin that is a span. -/
def Origin.Known (o : Origin) : Prop := ∃ s : Span, o = .proper s

theorem Origin.known_proper (s : Span) : Origin.Known (.proper s) := ⟨s, rfl⟩

theorem Origin.Known.shown {o : Origin} (h : o.Known) : o.shown = .ok o.text := by
  obtain ⟨s, rfl⟩ := h
  rfl

/-- A closure made from a regular literal. -/
inductive Closure.Regular (elements : Bool) : Closure → Prop where
  | mk (id : Nat) {ps : List Param} {r : Datatype} {b : Node} (o : Span) (scope : Scope)
      (hps : Param.RegularList ps) (hr : r.WellFormed) (hb : b.Regular elements) :
      Regular elements ⟨id, .proper ps, .proper r, b, .proper o, scope⟩

/-- A payload of a program that comes from a source. -/
inductive Payload.Regular (elements : Bool) : Payload → Prop where
  | null : Regular elements .null
  | bool (b : Bool) : Regular elements (.bool b)
  | number (x : Float) : Regular elements (.number x)
  | nan (object : NanObject) : Regular elements (.nan object)
  | text (s : Text) : Regular elements (.text s)
  | list {items : List Payload} (h : ∀ p ∈ items, Regular elements p) :
      Regular elements (.list items)
  | node {n : Node} (h : n.Regular elements) : Regular elements (.node n)
  | closure {c : Closure} (h : c.Regular elements) : Regular elements (.closure c)

theorem Payload.IsNumber.regular {p : Payload} (h : p.IsNumber) (elements : Bool) :
    p.Regular elements := by
  cases h with
  | number x => exact .number x
  | nan object => exact .nan object

/-- A value of a program that comes from a source. -/
structure Value.Regular (elements : Bool) (v : Value) : Prop where
  payload : v.payload.Regular elements
  datatype : v.datatype.WellFormed
  origin : v.origin.Known

/-- A regular value that is what its datatype says. -/
structure Value.Sound (elements : Bool) (v : Value) : Prop extends v.Regular elements where
  fits : v.fits = true

theorem Param.RegularList.wellFormed {ps : List Param} (h : Param.RegularList ps) :
    ∀ t ∈ ps.map fun p => p.datatype.datatype, t.WellFormed := by
  intro t ht
  obtain ⟨p, hp, rfl⟩ := List.mem_map.1 ht
  cases h.regular p hp with
  | mk name span hwf => exact hwf

/-- The datatype of a regular literal. -/
theorem LambdaStyle.datatype_wellFormed (style : LambdaStyle) {ps : List Param} {r : Datatype}
    (hps : Param.RegularList ps) (hr : r.WellFormed) :
    ∃ t, style.datatype (.proper ps) (.proper r) = .ok t ∧ t.WellFormed := by
  cases style with
  | function => exact ⟨_, rfl, Datatype.wellFormed_function.2 ⟨hps.wellFormed, hr⟩⟩
  | closure => exact ⟨_, rfl, Datatype.wellFormed_closure.2 ⟨hps.wellFormed, hr⟩⟩

/-- A closure value has the datatype of its closure. -/
theorem Closure.Regular.datatype_holds {elements : Bool} {c : Closure} (h : c.Regular elements) :
    ∃ t, c.datatype = .ok t ∧ t.WellFormed ∧ t.holds (.closure c) = true := by
  cases h with
  | mk id o scope hps hr hb =>
    exact ⟨_, rfl, Datatype.wellFormed_closure.2 ⟨hps.wellFormed, hr⟩, rfl⟩

namespace Value.Sound

variable {elements : Bool} {v : Value}

/-- The same value from another place. -/
theorem withOrigin (h : v.Sound elements) {o : Origin} (ho : o.Known) :
    (v.withOrigin o).Sound elements :=
  ⟨⟨h.payload, h.datatype, ho⟩, h.fits⟩

/-- What may stand where a datatype is required fits it. -/
theorem holds_of_accepts (h : v.Sound elements) {t : Datatype} (ht : t.WellFormed)
    (hacc : t.accepts v.datatype = .ok true) : t.holds v.payload = true :=
  Datatype.holds_of_accepts ht h.datatype hacc h.fits

end Value.Sound

/-- The content of a variable that was never given a value. -/
theorem Value.unset_sound (elements : Bool) {o : Origin} (ho : o.Known) :
    (Value.unset o).Sound elements :=
  ⟨⟨.null, rfl, ho⟩, Datatype.any_holds _⟩

/-! ## Texts -/

namespace Payload

variable {elements : Bool}

/-- Going through texts gives them back. -/
theorem mapM_map_text {f : Payload → Except Fault Text} (hf : ∀ s, f (.text s) = .ok s)
    (ss : List Text) : (ss.map .text).mapM f = .ok ss := by
  induction ss with
  | nil => rfl
  | cons s ss ih =>
    rw [List.map_cons, List.mapM_cons, hf, ih]
    rfl

theorem bracketed_map_text (ss : List Text) :
    ∃ s, bracketed (ss.map .text) = .ok (.text s) := by
  unfold bracketed
  rw [mapM_map_text fun s => rfl]
  exact ⟨_, rfl⟩

/-- A list of texts in brackets is a text. -/
theorem bracketed_renderedAll {items : List Payload} {t : Datatype}
    (h : ∀ p ∈ items, ∃ s, p.rendered t = .ok (.text s)) :
    ∃ s, (do bracketed (← renderedAll items t)) = .ok (Payload.text s) := by
  have htexts : ∃ ss : List Text, renderedAll items t = .ok (ss.map .text) := by
    induction items with
    | nil => exact ⟨[], rfl⟩
    | cons p ps ih =>
      obtain ⟨s, hs⟩ := h p (by simp)
      obtain ⟨ss, hss⟩ := ih fun q hq => h q (by simp [hq])
      refine ⟨s :: ss, ?_⟩
      rw [renderedAll, hs, hss]
      rfl
  obtain ⟨ss, hss⟩ := htexts
  rw [hss]
  exact bracketed_map_text ss

/-- A function literal has a text. -/
theorem rendered_function {ps : List Param} {r : Datatype} (hps : Param.RegularList ps)
    (hr : r.WellFormed) (b : Node) (o : Origin) (t : Datatype) :
    ∃ s, renderedAs (.node (.lambda .function (.proper ps) (.proper r) b o)) t
      (some .function) = .ok (.text s) := by
  obtain ⟨own, hown, hwf⟩ := LambdaStyle.function.datatype_wellFormed hps hr
  refine ⟨Text.ofString ("<function " ++ own.text ++ ">"), ?_⟩
  rw [renderedAs, ownDatatype, hown, ok_bind, Datatype.shown_eq_ok hwf, ok_bind]
  rfl

/-- A closure has a text. -/
theorem rendered_closure {c : Closure} (h : c.Regular elements) (t : Datatype) :
    ∃ s, renderedAs (.closure c) t (some .closure) = .ok (.text s) := by
  obtain ⟨own, hown, hwf, _⟩ := h.datatype_holds
  refine ⟨Text.ofString ("<closure " ++ own.text ++ ">"), ?_⟩
  rw [renderedAs, shown, Closure.shown, hown, ok_bind, Datatype.shown_eq_ok hwf, ok_bind]
  rfl

/-- As an instruction everything has a text. -/
theorem Regular.rendered_instruction {p : Payload} (h : p.Regular elements) :
    ∃ s, p.rendered Datatype.instruction = .ok (.text s) := by
  induction h with
  | list _ ih => exact bracketed_renderedAll ih
  | _ => exact ⟨_, rfl⟩

/-- A regular payload has a text of its own. -/
theorem Regular.rendered_any {p : Payload} (h : p.Regular elements) :
    ∃ s, p.rendered Datatype.any = .ok (.text s) := by
  induction h with
  | list _ ih => exact bracketed_renderedAll ih
  | node h =>
    cases h with
    | @lambda style _ _ b o hps hr _ =>
      cases style with
      | function => exact rendered_function hps hr b (.proper o) Datatype.any
      | closure => exact ⟨_, rfl⟩
    | _ => exact ⟨_, rfl⟩
  | closure h => exact rendered_closure h Datatype.any
  | _ => exact ⟨_, rfl⟩

/-- A regular payload that fits a datatype has a text as such. -/
theorem Regular.rendered {p : Payload} (h : p.Regular elements) {t : Datatype}
    (ht : t.WellFormed) (hp : t.holds p = true) : ∃ s, p.rendered t = .ok (.text s) := by
  induction ht using Datatype.WellFormed.induct generalizing p with
  | any => exact h.rendered_any
  | instruction => exact h.rendered_instruction
  | string =>
    obtain ⟨s, rfl⟩ := Datatype.text_of_holds hp
    exact ⟨_, rfl⟩
  | number =>
    cases Datatype.number_of_holds hp with
    | number x => exact ⟨_, rfl⟩
    | nan object => exact ⟨_, rfl⟩
  | boolean =>
    obtain ⟨b, rfl⟩ := Datatype.bool_of_holds hp
    exact ⟨_, rfl⟩
  | array e _ ih =>
    obtain ⟨items, rfl, hitems⟩ := Datatype.list_of_holds hp
    cases h with
    | list hregular => exact bracketed_renderedAll fun q hq => ih (hregular q hq) (hitems q hq)
  | function ps r _ _ _ _ =>
    obtain ⟨qs, t, b, o, rfl⟩ := Datatype.function_of_holds hp
    cases h with
    | node h =>
      cases h with
      | lambda style o hps hr hb =>
        exact rendered_function hps hr b (.proper o) (Datatype.function ps r)
  | closure ps r _ _ _ _ =>
    obtain ⟨c, rfl⟩ := Datatype.closure_of_holds hp
    cases h with
    | closure h => exact rendered_closure h (Datatype.closure ps r)

end Payload

namespace Value.Sound

variable {elements : Bool} {v : Value}

/-- A sound value has a text. -/
theorem rendered (h : v.Sound elements) : ∃ s, v.rendered = .ok (.text s) :=
  h.payload.rendered h.datatype h.fits

theorem printed (h : v.Sound elements) : ∃ s, v.printed = .ok s := by
  obtain ⟨s, hs⟩ := h.rendered
  refine ⟨s, ?_⟩
  rw [Value.printed, hs]
  rfl

/-- A sound value can be written in a trace line. -/
theorem shown (h : v.Sound elements) : ∃ s, v.shown = .ok s := by
  obtain ⟨s, hs⟩ := h.rendered
  refine ⟨"Value(" ++ Text.quoted s ++ ": " ++ v.datatype.text ++ ")", ?_⟩
  rw [Value.shown, hs, ok_bind, Payload.shown, ok_bind, Datatype.shown_eq_ok h.datatype]
  rfl

theorem shownAll {vs : List Value} (h : ∀ v ∈ vs, v.Sound elements) :
    ∃ s, Value.shownAll vs = .ok s := by
  have htexts : ∃ ss, vs.mapM Value.shown = .ok ss := by
    induction vs with
    | nil => exact ⟨[], rfl⟩
    | cons v vs ih =>
      obtain ⟨s, hs⟩ := (h v (by simp)).shown
      obtain ⟨ss, hss⟩ := ih fun w hw => h w (by simp [hw])
      refine ⟨s :: ss, ?_⟩
      rw [List.mapM_cons, hs, hss]
      rfl
  obtain ⟨ss, hss⟩ := htexts
  refine ⟨Text.listed ss, ?_⟩
  rw [Value.shownAll, hss]
  rfl

end Value.Sound

end Mandate
