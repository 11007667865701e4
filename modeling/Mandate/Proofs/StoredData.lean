/-
  Mandate.Proofs.StoredData

  Data in documents, both ways. Data and its JSON form stand for each other: what
  is stored loads as it was, and whatever loads is stored in one way only.

    * `Datum.Complete`: every node has a field for each name of its label.
    * `Json.Normal`: nothing is left out, nothing is added, and all is in order.
      The kind of a datatype and the ends of a span can be any JSON.
    * `Datum.ofJson_toJson`: complete data loads as it was stored.
    * `Json.Normal.exists_toJson`: the normal forms are what complete data is
      stored as.
-/

import Mandate.Document.Datum

namespace Mandate

/-! ## Complete data -/

mutual

/-- Whether every node in data has a field for each name of its label. -/
def Datum.isComplete : Datum → Bool
  | .list items => Datum.allComplete items
  | .node label fields place =>
    fields.length == label.fields.length && Datum.allComplete fields && place.isComplete
  | _ => true

/-- The same of several pieces of data. -/
def Datum.allComplete : List Datum → Bool
  | [] => true
  | d :: ds => d.isComplete && Datum.allComplete ds

end

/-- Data in which every node has a field for each name of its label. -/
def Datum.Complete (d : Datum) : Prop := d.isComplete = true

instance : DecidablePred Datum.Complete :=
  fun d => inferInstanceAs (Decidable (d.isComplete = true))

namespace Datum

theorem allComplete_iff {ds : List Datum} : allComplete ds = true ↔ ∀ d ∈ ds, d.Complete := by
  induction ds with
  | nil => simp [allComplete]
  | cons d ds ih => simp [allComplete, ih, Complete]

theorem complete_list {items : List Datum} :
    (Datum.list items).Complete ↔ ∀ d ∈ items, d.Complete := by
  rw [Complete, isComplete, allComplete_iff]

theorem complete_node {label : Label} {fields : List Datum} {place : Datum} :
    (Datum.node label fields place).Complete ↔
      fields.length = label.fields.length ∧ (∀ d ∈ fields, d.Complete) ∧ place.Complete := by
  rw [Complete, isComplete, Bool.and_eq_true, Bool.and_eq_true, allComplete_iff, beq_iff_eq,
    and_assoc]
  exact Iff.rfl

theorem toJsonAll_eq_map (ds : List Datum) : toJsonAll ds = ds.map toJson := by
  induction ds with
  | nil => rfl
  | cons d ds ih => rw [toJsonAll, ih, List.map_cons]

end Datum

/-! ## Normal forms -/

/-- The JSON form of a datatype with nothing left out. -/
inductive Json.NormalType : Json → Prop where
  | bare (kind : Json) {args : List Json} (hargs : ∀ j ∈ args, NormalType j) :
      NormalType (.object [("kind", kind), ("args", .list args), ("returns", .null)])
  | returning (kind : Json) {args : List Json} {returns : Json}
      (hargs : ∀ j ∈ args, NormalType j) (hreturns : NormalType returns) :
      NormalType (.object [("kind", kind), ("args", .list args), ("returns", returns)])

/-- The JSON form of data with nothing left out. -/
inductive Json.Normal : Json → Prop where
  | null : Normal .null
  | bool (b : Bool) : Normal (.bool b)
  | int (i : Int) : Normal (.int i)
  | number (x : Float) : Normal (.number x)
  | text (s : String) : Normal (.text s)
  | list {items : List Json} (hitems : ∀ j ∈ items, Normal j) : Normal (.list items)
  | span (start stop : Json) :
      Normal (.object [("__type__", .text "Span"), ("start", start), ("end", stop)])
  | datatype {t : Json} (ht : t.NormalType) :
      Normal (.object [("__type__", .text "DataType"), ("value", t)])
  | node (label : Label) {values : List Json} {place : Json}
      (hlength : values.length = label.fields.length) (hvalues : ∀ j ∈ values, Normal j)
      (hplace : Normal place) :
      Normal (.object (("type", .text label.text) ::
        (label.fields.zip values ++ [("span", place)])))

/-! ## Members -/

namespace Label

theorem ofText?_text (label : Label) : ofText? label.text = some label := by
  cases label <;> decide

/-- The keys of a node are told apart, and none is the tag of a span or a datatype. -/
theorem fields_distinct (label : Label) :
    label.fields.Nodup ∧ "__type__" ∉ label.fields ∧ "type" ∉ label.fields ∧
      "span" ∉ label.fields := by
  cases label <;> decide

end Label

namespace Json

theorem member?_cons_self (key : String) (j : Json) (ms : List (String × Json)) :
    member? key ((key, j) :: ms) = some j := List.lookup_cons_self

theorem member?_cons_of_ne {key other : String} (h : key ≠ other) (j : Json)
    (ms : List (String × Json)) : member? key ((other, j) :: ms) = member? key ms := by
  have hne : (key == other) = false := beq_eq_false_iff_ne.2 h
  unfold member?
  rw [List.lookup_cons, hne]

/-- A key that is not among some names is looked for behind them. -/
theorem member?_zip_of_not_mem {key : String} {names : List String} (h : key ∉ names)
    (values : List Json) (ms : List (String × Json)) :
    member? key (names.zip values ++ ms) = member? key ms := by
  induction names generalizing values with
  | nil => rfl
  | cons name names ih =>
    cases values with
    | nil => rfl
    | cons j values =>
      rw [List.mem_cons, not_or] at h
      rw [List.zip_cons_cons, List.cons_append, member?_cons_of_ne h.1]
      exact ih h.2 values

/-- Each of some names that are told apart has its own value. -/
theorem member?_zip {names : List String} (hnames : names.Nodup) {values : List Json}
    {key : String} {j : Json} (h : (key, j) ∈ names.zip values) (ms : List (String × Json)) :
    member? key (names.zip values ++ ms) = some j := by
  induction names generalizing values with
  | nil => cases h
  | cons name names ih =>
    cases values with
    | nil => cases h
    | cons k values =>
      rw [List.zip_cons_cons] at h
      rw [List.zip_cons_cons, List.cons_append]
      rcases List.mem_cons.1 h with heq | h
      · cases heq
        exact member?_cons_self key j _
      · have hmem := (List.of_mem_zip h).1
        have hne : key ≠ name := by
          rintro rfl
          exact (List.nodup_cons.1 hnames).1 hmem
        rw [member?_cons_of_ne hne]
        exact ih (List.nodup_cons.1 hnames).2 h

end Json

/-! ## What is stored loads -/

theorem TypeDatum.toJson_ne_null (t : TypeDatum) : t.toJson ≠ .null := by
  cases t
  intro h
  cases h

theorem TypeDatum.returnOfMembers_of_ne {key : String} (h : key ≠ "returns") (j : Json)
    (ms : List (String × Json)) :
    TypeDatum.returnOfMembers ((key, j) :: ms) = TypeDatum.returnOfMembers ms := by
  cases j <;> simp [TypeDatum.returnOfMembers, h]

mutual

theorem TypeDatum.ofJson_toJson : (t : TypeDatum) → TypeDatum.ofJson t.toJson = .ok t
  | .mk kind args returns => by
    have hargs := TypeDatum.ofJsonAll_toJsonAll args
    have hreturns := TypeDatum.returnOfMembers_toJsonReturn returns
    rw [TypeDatum.toJson, TypeDatum.ofJson, Json.member?_cons_self]
    simp only [TypeDatum.argsOfMembers, String.reduceEq, ↓reduceIte, hargs]
    rw [TypeDatum.returnOfMembers_of_ne (by decide), TypeDatum.returnOfMembers_of_ne (by decide),
      hreturns]

theorem TypeDatum.ofJsonAll_toJsonAll :
    (ts : List TypeDatum) → TypeDatum.ofJsonAll (TypeDatum.toJsonAll ts) = .ok ts
  | [] => rfl
  | t :: ts => by
    rw [TypeDatum.toJsonAll, TypeDatum.ofJsonAll, TypeDatum.ofJson_toJson t]
    simp only [TypeDatum.ofJsonAll_toJsonAll ts]
    rfl

theorem TypeDatum.returnOfMembers_toJsonReturn : (r : Option TypeDatum) →
    TypeDatum.returnOfMembers [("returns", TypeDatum.toJsonReturn r)] = .ok r
  | none => rfl
  | some t => by
    have ht := TypeDatum.ofJson_toJson t
    rw [TypeDatum.toJsonReturn, TypeDatum.returnOfMembers, if_pos rfl, ht]
    · rfl
    · exact t.toJson_ne_null

end

namespace Datum

/-- A member is what its JSON loads as. -/
theorem member?_eq (name : String) (ms : List (String × Json)) :
    member? name ms = match Json.member? name ms with
      | some j => (ofJson j).map some
      | none => .ok none := by
  induction ms with
  | nil => rfl
  | cons m ms ih =>
    obtain ⟨key, j⟩ := m
    rw [member?]
    by_cases h : key = name
    · subst h
      rw [if_pos rfl, Json.member?_cons_self]
    · rw [if_neg h, ih, Json.member?_cons_of_ne (Ne.symm h)]

theorem allFields_map_some (ds : List Datum) : allFields (ds.map some) = .ok ds := by
  induction ds with
  | nil => rfl
  | cons d ds ih =>
    rw [List.map_cons, allFields, ih]
    rfl

/-- Members that are there are found one by one. -/
theorem mapM_member? {names : List String} {ds : List Datum} {ms : List (String × Json)}
    (hlength : ds.length = names.length)
    (h : ∀ name d, (name, d) ∈ names.zip ds → member? name ms = .ok (some d)) :
    (names.mapM fun name => member? name ms) = .ok (ds.map some) := by
  induction names generalizing ds with
  | nil =>
    rw [List.length_nil, List.length_eq_zero_iff] at hlength
    subst hlength
    rfl
  | cons name names ih =>
    cases ds with
    | nil => cases hlength
    | cons d ds =>
      have hfirst := h name d List.mem_cons_self
      have hrest : (names.mapM fun name => member? name ms) = .ok (ds.map some) :=
        ih (Nat.succ.inj hlength) fun other e he => h other e (List.mem_cons_of_mem _ he)
      rw [List.mapM_cons, hfirst]
      exact (congrArg (fun x => x.bind fun bs => .ok (some d :: bs)) hrest).trans rfl

/-- A node loads if its fields and its span do. -/
theorem ofJson_node {label : Label} {fields : List Datum} {place : Datum}
    (hlength : fields.length = label.fields.length)
    (hfields : ∀ d ∈ fields, ofJson d.toJson = .ok d) (hplace : ofJson place.toJson = .ok place) :
    ofJson (Datum.node label fields place).toJson = .ok (.node label fields place) := by
  obtain ⟨hnodup, htag, htype, hspan⟩ := label.fields_distinct
  have hfound : ∀ name d, (name, d) ∈ label.fields.zip fields →
      member? name (("type", .text label.text) ::
        (label.fields.zip (fields.map toJson) ++ [("span", place.toJson)])) = .ok (some d) := by
    intro name d h
    have hname := (List.of_mem_zip h).1
    have hne : name ≠ "type" := by
      rintro rfl
      exact htype hname
    have hmem : (name, d.toJson) ∈ label.fields.zip (fields.map toJson) := by
      rw [List.zip_map_right]
      exact List.mem_map.2 ⟨(name, d), h, rfl⟩
    rw [member?_eq, Json.member?_cons_of_ne hne, Json.member?_zip hnodup hmem]
    simp only [hfields d (List.of_mem_zip h).2]
    rfl
  have hfoundSpan : member? "span" (("type", .text label.text) ::
      (label.fields.zip (fields.map toJson) ++ [("span", place.toJson)])) = .ok (some place) := by
    rw [member?_eq, Json.member?_cons_of_ne (by decide), Json.member?_zip_of_not_mem hspan,
      Json.member?_cons_self]
    simp only [hplace]
    rfl
  have hlabel : labelOfMembers (("type", .text label.text) ::
      (label.fields.zip (fields.map toJson) ++ [("span", place.toJson)])) = .ok label := by
    rw [labelOfMembers, Json.member?_cons_self]
    simp only [Option.getD_some, Label.ofText?_text]
  have huntagged : Json.member? "__type__" (("type", .text label.text) ::
      (label.fields.zip (fields.map toJson) ++ [("span", place.toJson)])) = none := by
    rw [Json.member?_cons_of_ne (by decide), Json.member?_zip_of_not_mem htag,
      Json.member?_cons_of_ne (by decide)]
    rfl
  rw [toJson, toJsonAll_eq_map, ofJson, huntagged]
  simp only [hlabel, mapM_member? hlength hfound, hfoundSpan, allFields_map_some]
  rfl

mutual

/-- Complete data loads as it was stored. -/
theorem ofJson_toJson : (d : Datum) → d.Complete → ofJson d.toJson = .ok d
  | .list items, h => by
    rw [toJson, ofJson, toJsonAll_eq_map, ofJsonAll_map_toJson items (complete_list.1 h)]
    rfl
  | .node label fields place, h => by
    obtain ⟨hlength, hfields, hplace⟩ := complete_node.1 h
    exact ofJson_node hlength (ofJson_toJson_mem fields hfields) (ofJson_toJson place hplace)
  | .datatype t, _ => by
    have ht := t.ofJson_toJson
    rw [toJson, ofJson, Json.member?_cons_self]
    simp only
    rw [Json.member?_cons_of_ne (by decide), Json.member?_cons_self]
    simp only [ht]
    rfl
  | .null, _ | .bool _, _ | .int _, _ | .number _, _ | .text _, _ | .span .., _ => rfl

theorem ofJson_toJson_mem : (ds : List Datum) → (∀ d ∈ ds, d.Complete) →
    ∀ d ∈ ds, ofJson d.toJson = .ok d
  | [], _ => by
    intro d hd
    cases hd
  | d :: ds, h => by
    have hfirst := ofJson_toJson d (h d List.mem_cons_self)
    intro e he
    rcases List.mem_cons.1 he with rfl | he
    · exact hfirst
    · exact ofJson_toJson_mem ds (fun c hc => h c (List.mem_cons_of_mem _ hc)) e he

theorem ofJsonAll_map_toJson : (ds : List Datum) → (∀ d ∈ ds, d.Complete) →
    ofJsonAll (ds.map toJson) = .ok ds
  | [], _ => rfl
  | d :: ds, h => by
    have hfirst := ofJson_toJson d (h d List.mem_cons_self)
    have hrest := ofJsonAll_map_toJson ds fun c hc => h c (List.mem_cons_of_mem _ hc)
    rw [List.map_cons, ofJsonAll, hfirst]
    simp only [hrest]
    rfl

end

end Datum

/-! ## What loads is complete -/

namespace Datum

theorem eq_map_of_allFields {found : List (Option Datum)} {ds : List Datum}
    (h : allFields found = .ok ds) : found = ds.map some := by
  induction found generalizing ds with
  | nil =>
    cases h
    rfl
  | cons d? found ih =>
    cases d? with
    | none => cases h
    | some d =>
      rw [allFields] at h
      cases hrest : allFields found with
      | error e =>
        rw [hrest] at h
        cases h
      | ok es =>
        rw [hrest] at h
        cases h
        rw [ih hrest, List.map_cons]

end Datum

/-- What is found by a list of names is as many as there are names, and is found by one of
them. -/
theorem mapM_eq_ok {ε α β : Type} {f : α → Except ε β} {xs : List α} {ys : List β}
    (h : xs.mapM f = .ok ys) : ys.length = xs.length ∧ ∀ y ∈ ys, ∃ x ∈ xs, f x = .ok y := by
  induction xs generalizing ys with
  | nil =>
    cases h
    exact ⟨rfl, fun y hy => by cases hy⟩
  | cons x xs ih =>
    rw [List.mapM_cons] at h
    cases hx : f x with
    | error e =>
      rw [hx] at h
      cases h
    | ok y =>
      rw [hx] at h
      cases hrest : xs.mapM f with
      | error e =>
        rw [hrest] at h
        cases h
      | ok zs =>
        rw [hrest] at h
        cases h
        obtain ⟨hlength, hall⟩ := ih hrest
        refine ⟨by rw [List.length_cons, List.length_cons, hlength], fun z hz => ?_⟩
        rcases List.mem_cons.1 hz with rfl | hz
        · exact ⟨x, List.mem_cons_self, hx⟩
        · obtain ⟨w, hw, hfw⟩ := hall z hz
          exact ⟨w, List.mem_cons_of_mem _ hw, hfw⟩

namespace Datum

/-- A node that loads has all its fields, and what they hold is found among its members. -/
theorem complete_of_members {label : Label} {ms : List (String × Json)}
    {found : List (Option Datum)} {span? : Option Datum} {d : Datum}
    (hmembers : ∀ name x, member? name ms = .ok (some x) → x.Complete)
    (hfound : (label.fields.mapM fun name => member? name ms) = .ok found)
    (hspan : member? "span" ms = .ok span?)
    (h : (allFields found).map (fun fields => .node label fields (span?.getD noSpan)) = .ok d) :
    d.Complete := by
  cases hfields : allFields found with
  | error e =>
    rw [hfields] at h
    cases h
  | ok fields =>
    rw [hfields] at h
    cases h
    obtain ⟨hlength, hall⟩ := mapM_eq_ok hfound
    rw [eq_map_of_allFields hfields] at hlength hall
    refine complete_node.2 ⟨by rw [← hlength, List.length_map], fun x hx => ?_, ?_⟩
    · obtain ⟨name, -, hname⟩ := hall (some x) (List.mem_map.2 ⟨x, hx, rfl⟩)
      exact hmembers name x hname
    · cases span? with
      | none => rfl
      | some place => exact hmembers "span" place hspan

mutual

/-- Whatever loads is complete. -/
theorem complete_of_ofJson : (j : Json) → (d : Datum) → ofJson j = .ok d → d.Complete
  | .list js, d, h => by
    rw [ofJson] at h
    cases hjs : ofJsonAll js with
    | error e =>
      rw [hjs] at h
      cases h
    | ok ds =>
      rw [hjs] at h
      cases h
      exact complete_list.2 (complete_of_ofJsonAll js ds hjs)
  | .object ms, d, h => by
    have hmembers := complete_of_member? ms
    rw [ofJson] at h
    split at h
    · split at h
      · next j _ =>
        cases ht : TypeDatum.ofJson j with
        | error e =>
          rw [ht] at h
          cases h
        | ok t =>
          rw [ht] at h
          cases h
          rfl
      · cases h
    · split at h
      · cases h
        rfl
      · cases h
    · split at h
      · cases h
      · split at h
        · cases h
        · next found hfound =>
          split at h
          · cases h
          · next span? hspan => exact complete_of_members hmembers hfound hspan h
  | .null, d, h | .bool _, d, h | .int _, d, h | .number _, d, h | .text _, d, h => by
    cases h
    rfl

theorem complete_of_ofJsonAll : (js : List Json) → (ds : List Datum) → ofJsonAll js = .ok ds →
    ∀ d ∈ ds, d.Complete
  | [], ds, h => by
    cases h
    intro d hd
    cases hd
  | j :: js, ds, h => by
    rw [ofJsonAll] at h
    split at h
    · cases h
    · next e he =>
      have hfirst := complete_of_ofJson j e he
      cases hjs : ofJsonAll js with
      | error e =>
        rw [hjs] at h
        cases h
      | ok es =>
        rw [hjs] at h
        cases h
        have hrest := complete_of_ofJsonAll js es hjs
        exact List.forall_mem_cons.2 ⟨hfirst, hrest⟩

theorem complete_of_member? : (ms : List (String × Json)) → ∀ name d,
    member? name ms = .ok (some d) → d.Complete
  | [], name, d, h => by cases h
  | (key, j) :: ms, name, d, h => by
    rw [member?] at h
    split at h
    · cases hj : ofJson j with
      | error e =>
        rw [hj] at h
        cases h
      | ok e =>
        rw [hj] at h
        cases h
        exact complete_of_ofJson j d hj
    · exact complete_of_member? ms name d h

end

end Datum

/-! ## Normal forms and complete data -/

mutual

theorem TypeDatum.normal_toJson : (t : TypeDatum) → t.toJson.NormalType
  | .mk kind args none => by
    rw [TypeDatum.toJson, TypeDatum.toJsonReturn]
    exact .bare kind (TypeDatum.normal_toJsonAll args)
  | .mk kind args (some t) => by
    rw [TypeDatum.toJson, TypeDatum.toJsonReturn]
    exact .returning kind (TypeDatum.normal_toJsonAll args) (TypeDatum.normal_toJson t)

theorem TypeDatum.normal_toJsonAll : (ts : List TypeDatum) →
    ∀ j ∈ TypeDatum.toJsonAll ts, j.NormalType
  | [] => by
    rw [TypeDatum.toJsonAll]
    intro j hj
    cases hj
  | t :: ts => by
    rw [TypeDatum.toJsonAll]
    exact List.forall_mem_cons.2 ⟨t.normal_toJson, TypeDatum.normal_toJsonAll ts⟩

end

namespace Datum

mutual

/-- Complete data is stored in normal form. -/
theorem normal_toJson : (d : Datum) → d.Complete → d.toJson.Normal
  | .list items, h => by
    rw [toJson, toJsonAll_eq_map]
    exact .list (normal_map_toJson items (complete_list.1 h))
  | .node label fields place, h => by
    obtain ⟨hlength, hfields, hplace⟩ := complete_node.1 h
    rw [toJson, toJsonAll_eq_map]
    exact .node label (by rw [List.length_map, hlength]) (normal_map_toJson fields hfields)
      (normal_toJson place hplace)
  | .datatype t, _ => by
    rw [toJson]
    exact .datatype t.normal_toJson
  | .span start stop, _ => .span start stop
  | .null, _ => .null
  | .bool b, _ => .bool b
  | .int i, _ => .int i
  | .number x, _ => .number x
  | .text s, _ => .text s

theorem normal_map_toJson : (ds : List Datum) → (∀ d ∈ ds, d.Complete) →
    ∀ j ∈ ds.map toJson, j.Normal
  | [], _ => by
    intro j hj
    cases hj
  | d :: ds, h => by
    have hfirst := normal_toJson d (h d List.mem_cons_self)
    have hrest := normal_map_toJson ds fun e he => h e (List.mem_cons_of_mem _ he)
    rw [List.map_cons]
    exact List.forall_mem_cons.2 ⟨hfirst, hrest⟩

end

end Datum

/-- Whatever all of a list are images of, the list is the image of a list. -/
theorem exists_map_eq {α β : Type} {P : α → Prop} {f : α → β} {ys : List β}
    (h : ∀ y ∈ ys, ∃ x, P x ∧ f x = y) : ∃ xs : List α, (∀ x ∈ xs, P x) ∧ xs.map f = ys := by
  induction ys with
  | nil => exact ⟨[], List.forall_mem_nil P, rfl⟩
  | cons y ys ih =>
    obtain ⟨x, hx, rfl⟩ := h y List.mem_cons_self
    obtain ⟨xs, hxs, rfl⟩ := ih fun z hz => h z (List.mem_cons_of_mem _ hz)
    exact ⟨x :: xs, List.forall_mem_cons.2 ⟨hx, hxs⟩, rfl⟩

theorem TypeDatum.toJsonAll_eq_map (ts : List TypeDatum) :
    TypeDatum.toJsonAll ts = ts.map TypeDatum.toJson := by
  induction ts with
  | nil => rfl
  | cons t ts ih => rw [TypeDatum.toJsonAll, ih, List.map_cons]

namespace Json

theorem NormalType.exists_toJson {j : Json} (h : j.NormalType) : ∃ t : TypeDatum, t.toJson = j := by
  induction h with
  | @bare kind args _ ih =>
    obtain ⟨ts, -, rfl⟩ := exists_map_eq (P := fun _ => True)
      fun j hj => (ih j hj).imp fun t ht => ⟨trivial, ht⟩
    exact ⟨.mk kind ts none, by
      rw [TypeDatum.toJson, TypeDatum.toJsonAll_eq_map, TypeDatum.toJsonReturn]⟩
  | @returning kind args returns _ _ ih ihr =>
    obtain ⟨ts, -, rfl⟩ := exists_map_eq (P := fun _ => True)
      fun j hj => (ih j hj).imp fun t ht => ⟨trivial, ht⟩
    obtain ⟨r, rfl⟩ := ihr
    exact ⟨.mk kind ts (some r), by
      rw [TypeDatum.toJson, TypeDatum.toJsonAll_eq_map, TypeDatum.toJsonReturn]⟩

/-- A normal form is what some complete data is stored as. -/
theorem Normal.exists_toJson {j : Json} (h : j.Normal) :
    ∃ d : Datum, d.Complete ∧ d.toJson = j := by
  induction h with
  | null => exact ⟨.null, rfl, rfl⟩
  | bool b => exact ⟨.bool b, rfl, rfl⟩
  | int i => exact ⟨.int i, rfl, rfl⟩
  | number x => exact ⟨.number x, rfl, rfl⟩
  | text s => exact ⟨.text s, rfl, rfl⟩
  | list _ ih =>
    obtain ⟨ds, hds, rfl⟩ := exists_map_eq ih
    exact ⟨.list ds, Datum.complete_list.2 hds, by rw [Datum.toJson, Datum.toJsonAll_eq_map]⟩
  | span start stop => exact ⟨.span start stop, rfl, rfl⟩
  | datatype ht =>
    obtain ⟨t, rfl⟩ := ht.exists_toJson
    exact ⟨.datatype t, rfl, rfl⟩
  | node label hlength _ _ ih ihp =>
    obtain ⟨ds, hds, rfl⟩ := exists_map_eq ih
    obtain ⟨place, hplace, rfl⟩ := ihp
    rw [List.length_map] at hlength
    exact ⟨.node label ds place, Datum.complete_node.2 ⟨hlength, hds, hplace⟩, by
      rw [Datum.toJson, Datum.toJsonAll_eq_map]⟩

end Json

/-! ## Both ways -/

/-- Complete data loads as it was stored. Whatever loads is complete and is stored in a normal
form, which loads as the same; and the normal forms are exactly what loading and storing leaves
as it is. -/
theorem stored_data_loads :
    (∀ d : Datum, d.Complete → Datum.ofJson d.toJson = .ok d) ∧
    (∀ (j : Json) (d : Datum), Datum.ofJson j = .ok d →
      d.Complete ∧ d.toJson.Normal ∧ Datum.ofJson d.toJson = .ok d) ∧
    (∀ j : Json, j.Normal ↔ (Datum.ofJson j).map Datum.toJson = .ok j) := by
  refine ⟨Datum.ofJson_toJson, fun j d h => ?_, fun j => ⟨fun h => ?_, fun h => ?_⟩⟩
  · have hcomplete := Datum.complete_of_ofJson j d h
    exact ⟨hcomplete, d.normal_toJson hcomplete, d.ofJson_toJson hcomplete⟩
  · obtain ⟨d, hcomplete, rfl⟩ := h.exists_toJson
    rw [d.ofJson_toJson hcomplete]
    rfl
  · cases hd : Datum.ofJson j with
    | error e =>
      rw [hd] at h
      cases h
    | ok d =>
      rw [hd] at h
      cases h
      exact d.normal_toJson (Datum.complete_of_ofJson d.toJson d hd)

/-- A parameter with a key too many, without a span, and with a datatype without arguments. -/
def sparseParam : Json :=
  .object [("note", .bool true), ("type", .text "Param"), ("name", .int 7),
    ("datatype", .object [("__type__", .text "DataType"),
      ("value", .object [("kind", .text "Number")])])]

/-- What it loads as. -/
def filledParam : Datum :=
  .node .param [.int 7, .datatype (.mk (.text "Number") [] none)] Datum.noSpan

theorem stored_sparseParam_loads :
    Datum.ofJson sparseParam = .ok filledParam ∧ filledParam.toJson.Normal ∧
      Datum.ofJson filledParam.toJson = .ok filledParam := by
  have hloads : Datum.ofJson sparseParam = .ok filledParam := by rfl
  obtain ⟨hcomplete, hnormal, -⟩ := stored_data_loads.2.1 sparseParam filledParam hloads
  exact ⟨hloads, hnormal, stored_data_loads.1 filledParam hcomplete⟩

end Mandate
