/-
  Mandate.Proofs.ErrorPlaces

  Where the errors of a source that is no program point.

  A source can be rejected in two ways. The parser stops at characters that are no
  token, at a token that it does not expect or at the end of the text
  (`Rejection.Located`). Or there is a derivation tree, and it stands for nothing: a
  name is no datatype, two parameters share a name, or the left side of an
  assignment is no target (`SyntaxError.Misuses`).

    * `SyntaxError.PointsInto` says for each cause what stands at the place of the
      error.
    * `Tree.meaning_outcome`: what is wrong with a derivation tree is wrong with
      tokens of it.
    * `parse_pointsInto`: a source is a program or has an error that points into it.
-/

import Mandate.Proofs.Placement
import Mandate.Proofs.TokenStream

namespace Mandate

/-! ## Places of errors -/

/-- What is wrong with the tokens of a derivation tree between two offsets. -/
inductive SyntaxError.Misuses (tokens : List Token) (lo hi : Int) : SyntaxError → Prop where
  | datatype {t : Token} (ht : t ∈ tokens) (hnone : namedDatatype? t.text = none) :
      Misuses tokens lo hi ⟨.invalidDatatype t.text, t.span⟩
  /-- The second one of two parameters with the same name. -/
  | parameter {s t : Token} (hs : s ∈ tokens) (ht : t ∈ tokens) (hbefore : s.stop ≤ t.start)
      (htext : s.text = t.text) : Misuses tokens lo hi ⟨.repeatedParameter t.text, t.span⟩
  | target {span : Span} (hstart : lo ≤ span.start) (hcovers : span.start < span.stop)
      (hstop : span.stop ≤ hi) : Misuses tokens lo hi ⟨.invalidTarget, span⟩

/-- What stands at the place of an error in a source. -/
inductive SyntaxError.PointsInto (source : List Char) : SyntaxError → Prop where
  /-- One character of the text laid out, where no token, space or comment starts. -/
  | character {p : Nat} {c : Char} (hc : (Layout.separate source)[p]? = some c)
      (hquote : source[p]? ≠ some '"')
      (hscan : Lexeme.scan Terminal.all ((Layout.separate source).drop p) = none) :
      PointsInto source ⟨.invalidCharacter (String.singleton c), ⟨p, p + 1⟩⟩
  /-- A quote that starts no token, and the line after it. -/
  | string {p : Nat} {line : List Char} (hquote : source[p]? = some '"')
      (hline : line = (source.drop p).takeWhile (· != '\n'))
      (hscan : Lexeme.scan Terminal.all ((Layout.separate source).drop p) = none) :
      PointsInto source ⟨.unterminatedString (String.ofList line), ⟨p, p + line.length⟩⟩
  /-- The end of the source. -/
  | finish (expected : List String) : PointsInto source
      ⟨.unexpected expected Terminal.finish.describe, ⟨source.length, source.length⟩⟩
  /-- A token. -/
  | token (expected : List String) {shown : String} {t : Token} {allowed : List Terminal}
      (ht : t.ScannedIn (Layout.separate source) allowed)
      (hshown : shown =
        if source[t.start]? = some '\n' then "a new line" else "\"" ++ t.text ++ "\"") :
      PointsInto source ⟨.unexpected expected shown, t.span⟩
  /-- A part of the source that the parser has read. -/
  | misuse {e : SyntaxError}
      (h : e.Misuses (delivered (Layout.separate source)) 0 source.length) : PointsInto source e

theorem Token.ScannedIn.within {text : List Char} {allowed : List Terminal} {t : Token}
    (h : t.ScannedIn text allowed) : t.Within 0 text.length := by
  obtain ⟨hscan, -⟩ := h.length
  have hle : t.text.length ≤ (text.drop t.start).length := Lexeme.scan_length_le hscan
  have hne : t.text.length ≠ 0 := Lexeme.scan_length_ne_zero hscan
  rw [List.length_drop] at hle
  refine ⟨Int.natCast_nonneg _, ?_, ?_⟩
  · rw [Token.stop]
    omega
  · rw [Token.stop]
    omega

theorem SyntaxError.Misuses.bounds {text : List Char} {e : SyntaxError}
    (h : e.Misuses (delivered text) 0 text.length) :
    0 ≤ e.span.start ∧ e.span.start ≤ e.span.stop ∧ e.span.stop ≤ text.length := by
  have hwithin : ∀ t ∈ delivered text, t.Within 0 text.length := fun t ht => by
    obtain ⟨allowed, hscanned⟩ := deliveredFrom_scanned List.drop_zero.symm t ht
    exact hscanned.within
  cases h with
  | datatype ht hnone =>
    have hplace := hwithin _ ht
    exact ⟨hplace.start, Int.ofNat_le.2 (Nat.le_of_lt hplace.covers), hplace.stop⟩
  | parameter hs ht hbefore htext =>
    have hplace := hwithin _ ht
    exact ⟨hplace.start, Int.ofNat_le.2 (Nat.le_of_lt hplace.covers), hplace.stop⟩
  | target hstart hcovers hstop => exact ⟨hstart, Int.le_of_lt hcovers, hstop⟩

theorem SyntaxError.PointsInto.bounds {source : List Char} {e : SyntaxError}
    (h : e.PointsInto source) :
    0 ≤ e.span.start ∧ e.span.start ≤ e.span.stop ∧ e.span.stop ≤ source.length := by
  cases h with
  | character hc hquote hscan =>
    obtain ⟨hlt, -⟩ := List.getElem?_eq_some_iff.1 hc
    rw [Layout.length_separate] at hlt
    refine ⟨Int.natCast_nonneg _, ?_, ?_⟩
    all_goals
      dsimp only
      omega
  | @string p line hquote hline hscan =>
    have hle : line.length ≤ (source.drop p).length := by
      rw [hline]
      exact (List.takeWhile_prefix _).length_le
    obtain ⟨hlt, -⟩ := List.getElem?_eq_some_iff.1 hquote
    rw [List.length_drop] at hle
    refine ⟨Int.natCast_nonneg _, ?_, ?_⟩
    all_goals
      dsimp only
      omega
  | finish expected => exact ⟨Int.natCast_nonneg _, Int.le_refl _, Int.le_refl _⟩
  | token expected ht hshown =>
    have hplace := ht.within
    rw [Layout.length_separate] at hplace
    exact ⟨hplace.start, Int.ofNat_le.2 (Nat.le_of_lt hplace.covers), hplace.stop⟩
  | misuse h =>
    have hbounds := (Layout.length_separate source ▸ h : e.Misuses _ 0 _).bounds
    rwa [Layout.length_separate] at hbounds

/-- The end of the source is blamed only at the end of the source: a token is shown in quotes. -/
theorem SyntaxError.PointsInto.span_of_finish {source : List Char} {e : SyntaxError}
    (h : e.PointsInto source) {expected : List String}
    (hcause : e.cause = .unexpected expected Terminal.finish.describe) :
    e.span = ⟨source.length, source.length⟩ := by
  cases h with
  | character hc hquote hscan => cases hcause
  | string hquote hline hscan => cases hcause
  | finish expected => rfl
  | @token _ shown t allowed ht hshown =>
    injection hcause with _ hfinish
    rw [hshown] at hfinish
    split at hfinish
    · exact absurd hfinish (by decide)
    · have hquoted : ("\"" ++ t.text ++ "\"").toList.head? = some '"' := by
        rw [String.append_assoc, String.toList_append]
        rfl
      rw [hfinish] at hquoted
      exact absurd hquoted (by decide)
  | misuse h => cases h <;> cases hcause

/-! ## Rejected texts -/

/-- Where the parser stops in a text. -/
inductive Rejection.Located (text : List Char) : Rejection → Prop where
  | character {p : Nat} (hp : p < text.length)
      (hscan : Lexeme.scan Terminal.all (text.drop p) = none) : Located text (.character p)
  | token (expected : List Terminal) {t : Token} {allowed : List Terminal}
      (ht : t.ScannedIn text allowed) : Located text (.token expected t)
  | finish (expected : List Terminal) : Located text (.token expected ⟨.finish, "", text.length⟩)

/-- Where none of the expected terminals matches, the parser stops. -/
theorem parseFrom_unread_located {offset : Nat} {text cs : List Char} {q : ItemSet}
    {stack : Stack q} {rejection : Rejection} (hdrop : cs = text.drop offset) (hcs : cs ≠ [])
    (hscan : Lexeme.scan q.expected cs = none)
    (h : parseFrom offset cs stack = .error rejection) : rejection.Located text := by
  rw [parseFrom] at h
  simp only [hcs, ↓reduceDIte] at h
  split at h
  · next h' => cases hscan.symm.trans h'
  · next h' => cases hscan.symm.trans h'
  · split at h
    · next t n hall =>
      cases h
      subst hdrop
      exact .token _ ⟨n, hall, rfl⟩
    · next hgap => exact absurd hscan (Lexeme.scan_ne_none_of_gap hgap)
    · next hall =>
      cases h
      subst hdrop
      refine .character (Nat.lt_of_not_le fun hle => ?_) hall
      exact hcs (List.drop_eq_nil_of_le hle)

theorem add_le_of_scan {offset : Nat} {text cs : List Char} {allowed : List Terminal} {x : Lexeme}
    (hdrop : cs = text.drop offset) (hoffset : offset ≤ text.length)
    (hscan : Lexeme.scan allowed cs = some x) : offset + x.length ≤ text.length := by
  have hle := Lexeme.scan_length_le hscan
  rw [hdrop, List.length_drop] at hle
  omega

/-- The parser stops where a token cannot be read or is not expected, or at the end. -/
theorem parseFrom_located {offset : Nat} {text cs : List Char} {q : ItemSet} {stack : Stack q}
    {rejection : Rejection} (hdrop : cs = text.drop offset) (hoffset : offset ≤ text.length)
    (h : parseFrom offset cs stack = .error rejection) : rejection.Located text := by
  induction offset, cs, q, stack using parseFrom.induct with
  | case1 offset q stack tree hfinish hsettle =>
    rw [parseFrom_eq_ok hsettle] at h
    cases h
  | case2 offset q stack r hsettle =>
    rw [parseFrom_eq_unfinished hsettle] at h
    cases h
    have hend : offset = text.length :=
      Nat.le_antisymm hoffset (List.drop_eq_nil_iff.1 hdrop.symm)
    rw [hend]
    exact .finish _
  | case3 offset cs q stack hcs n hscan ih =>
    rw [parseFrom_eq_gap hcs hscan] at h
    exact ih (by rw [hdrop, List.drop_drop]) (add_le_of_scan hdrop hoffset hscan) h
  | case4 offset cs q stack hcs t n hscan taken r below hreads hsettle ih =>
    rw [parseFrom_eq_shift hcs hscan hsettle] at h
    exact ih (by rw [hdrop, List.drop_drop]) (add_le_of_scan hdrop hoffset hscan) h
  | case5 offset cs q stack hcs t n hscan r hsettle =>
    rw [parseFrom_eq_unexpected hcs hscan hsettle] at h
    cases h
    subst hdrop
    exact .token _ ⟨n, hscan, rfl⟩
  | case6 offset cs q stack hcs hscan | case7 offset cs q stack hcs hscan
  | case8 offset cs q stack hcs hscan => exact parseFrom_unread_located hdrop hcs hscan h

/-- The error of a rejected source points to where the parser stops. -/
theorem Rejection.Located.toError {source : List Char} {rejection : Rejection}
    (h : rejection.Located (Layout.separate source)) :
    (rejection.toError source (Layout.separate source)).PointsInto source := by
  cases h with
  | @character p hp hscan =>
    rw [Rejection.toError, unreadable]
    dsimp only
    rw [List.head?_drop]
    by_cases hquote : source[p]? = some '"'
    · rw [if_pos hquote]
      exact .string hquote rfl hscan
    · rw [if_neg hquote]
      have hc : (Layout.separate source)[p]? = some (Layout.separate source)[p] :=
        List.getElem?_eq_getElem hp
      have htake : String.ofList (((Layout.separate source).drop p).take 1) =
          String.singleton (Layout.separate source)[p] := by
        rw [List.drop_eq_getElem_cons hp, String.singleton_eq_ofList]
        rfl
      rw [htake]
      exact .character hc hquote hscan
  | @token expected t allowed ht =>
    have hfinish : t.terminal ≠ .finish := fun hfinish => by
      have hscan := ht.length.1
      rw [hfinish] at hscan
      exact Lexeme.scan_ne_finish hscan
    rw [Rejection.toError]
    dsimp only
    rw [if_neg hfinish]
    exact .token _ ht (by rw [List.head?_drop])
  | finish expected => exact .finish _

/-! ## What a derivation tree cannot stand for -/

/-- What a computation comes to has one property, and its error another. -/
def Outcome {ε α : Type} (P : α → Prop) (Q : ε → Prop) : Except ε α → Prop
  | .ok a => P a
  | .error e => Q e

/-- A parameter that has its name and its place from a token. -/
def Param.NamedBy (tokens : List Token) (p : Param) : Prop :=
  ∃ t ∈ tokens, p.name = .proper t.text ∧ p.span = .proper t.span

/-- The parameters that a derivation stands for come from tokens. -/
def Nonterminal.Named (tokens : List Token) : (n : Nonterminal) → n.Meaning → Prop
  | .params | .moreParams => fun ps : List Param => ∀ p ∈ ps, p.NamedBy tokens
  | .param => Param.NamedBy tokens
  | _ => fun _ => True

/-- What a derivation of a symbol stands for comes from tokens. -/
def Symbol.Named (tokens : List Token) : (s : Symbol) → s.Meaning → Prop
  | .leaf _ => (· ∈ tokens)
  | .branch n => n.Named tokens

/-- The same of several symbols. -/
inductive Meanings.Named (tokens : List Token) : {ss : List Symbol} → Meanings ss → Prop where
  | nil : Named tokens .nil
  | cons {s : Symbol} {ss : List Symbol} {head : s.Meaning} {tail : Meanings ss}
      (hhead : s.Named tokens head) (htail : tail.Named tokens) : Named tokens (.cons head tail)

namespace Datum

variable {lo hi : Int} {d : Datum} {ds es : List Datum}

theorem InOrder.split (h : InOrder lo hi (ds ++ es)) :
    ∃ mid, InOrder lo mid ds ∧ InOrder mid hi es := by
  induction ds generalizing lo with
  | nil => exact ⟨lo, .nil (Int.le_refl lo), h⟩
  | cons d ds ih =>
    cases h with
    | cons head tail =>
      obtain ⟨mid, hds, hes⟩ := ih tail
      exact ⟨mid, .cons head hds, hes⟩

theorem InOrder.placed_of_mem (h : InOrder lo hi ds) (hd : d ∈ ds) : d.Placed lo hi := by
  induction ds generalizing lo with
  | nil => cases hd
  | cons d' ds ih =>
    cases h with
    | cons head tail =>
      rcases List.mem_cons.1 hd with rfl | hd
      · exact head.widen (Int.le_refl _) tail.le
      · exact (ih tail hd).widen head.le (Int.le_refl _)

/-- The first field of a node stands where the node does. -/
theorem Placed.firstField {label : Label} {place : Datum}
    (h : (Datum.node label (d :: ds) place).Placed lo hi) : d.Placed lo hi := by
  cases h with
  | bare hd hle => cases hd
  | node label hcount hstart hcovers hstop h =>
    cases h with
    | cons head tail => exact head.widen hstart (Int.le_trans tail.le hstop)

/-- A node with a span stands where its span says. -/
theorem Placed.span {label : Label} {span : Span}
    (h : (Datum.node label ds (Origin.toDatum (.proper span))).Placed lo hi) :
    lo ≤ span.start ∧ span.start < span.stop ∧ span.stop ≤ hi := by
  generalize hplace : Origin.toDatum (.proper span) = place at h
  cases h with
  | bare hd hle => cases hd
  | node label hcount hstart hcovers hstop h =>
    injection hplace with hfirst hlast
    injection hfirst with hfirst
    injection hlast with hlast
    rw [hfirst, hlast]
    exact ⟨hstart, hcovers, hstop⟩

end Datum

section Parts

variable {tokens : List Token} {lo hi : Int} {e : Node} {ps : List Param} {p q : Param}

theorem Node.Regular.toDatum_eq (h : e.Regular true) :
    ∃ label fields span, e.toDatum = .node label fields (Origin.toDatum (.proper span)) ∧
      e.span = span := by
  cases h <;> exact ⟨_, _, _, rfl, rfl⟩

/-- What is no target is blamed itself, also if an element of it is to be assigned. -/
theorem toTarget_outcome (hregular : e.Regular true) (hplaced : e.toDatum.Placed lo hi) :
    Outcome (fun _ => True) (SyntaxError.Misuses tokens lo hi) e.toTarget := by
  fun_induction Node.toTarget e generalizing lo hi with
  | case1 x o => trivial
  | case2 target i o t ht ih => trivial
  | case3 target i o e he ih =>
    cases hregular with
    | index o ht hi =>
      have hinner := ih ht hplaced.firstField
      rwa [he] at hinner
  | case4 e hname hindex =>
    obtain ⟨label, fields, span, hdatum, hspan⟩ := hregular.toDatum_eq
    rw [hdatum] at hplaced
    obtain ⟨hstart, hcovers, hstop⟩ := hplaced.span
    rw [← hspan] at hstart hcovers hstop
    exact .target hstart hcovers hstop

theorem assign_outcome {value : Node} {span : Span} (hregular : e.Regular true)
    (hplaced : e.toDatum.Placed lo hi) :
    Outcome (fun _ => True) (SyntaxError.Misuses tokens lo hi)
      (match e.toTarget with
      | .ok t => .ok (.assign t value span)
      | .error e => .error e : Except SyntaxError Node) := by
  have htarget : Outcome (fun _ => True) (SyntaxError.Misuses tokens lo hi) e.toTarget :=
    toTarget_outcome hregular hplaced
  split
  · trivial
  · next e he => rwa [he] at htarget

theorem named_outcome {t : Token} (ht : t ∈ tokens) :
    Outcome (fun _ => True) (SyntaxError.Misuses tokens lo hi)
      (match namedDatatype? t.text with
      | some d => .ok d
      | none => .error ⟨.invalidDatatype t.text, t.span⟩) := by
  split
  · trivial
  · next hnone => exact .datatype ht hnone

theorem repeatedParam?_eq_some {seen : List Name} (h : repeatedParam? seen ps = some p) :
    ∃ before after, ps = before ++ p :: after ∧
      ((∃ n ∈ seen, p.name.same n = true) ∨ ∃ q ∈ before, p.name.same q.name = true) := by
  induction ps generalizing seen with
  | nil => cases h
  | cons r ps ih =>
    unfold repeatedParam? at h
    split at h
    · next hseen =>
      cases h
      exact ⟨[], ps, rfl, .inl (List.any_eq_true.1 hseen)⟩
    · obtain ⟨before, after, rfl, hname⟩ := ih h
      refine ⟨r :: before, after, rfl, ?_⟩
      rcases hname with ⟨n, hn, hsame⟩ | ⟨q, hq, hsame⟩
      · rcases List.mem_cons.1 hn with rfl | hn
        · exact .inr ⟨r, List.mem_cons_self, hsame⟩
        · exact .inl ⟨n, hn, hsame⟩
      · exact .inr ⟨q, List.mem_cons_of_mem r hq, hsame⟩

/-- Of two parameters with the same name the second one is blamed. -/
theorem distinctParams_outcome {lo' hi' : Int} (hnamed : ∀ p ∈ ps, p.NamedBy tokens)
    (hplaced : Datum.InOrder lo hi (ps.map Param.toDatum)) :
    Outcome (fun ps => ∀ p ∈ ps, p.NamedBy tokens) (SyntaxError.Misuses tokens lo' hi')
      (distinctParams ps) := by
  unfold distinctParams
  split
  · exact hnamed
  · next p hrepeated =>
    obtain ⟨before, after, rfl, hname⟩ := repeatedParam?_eq_some hrepeated
    obtain ⟨n, hn, -⟩ | ⟨q, hq, hsame⟩ := hname
    · cases hn
    -- Both parameters are named by tokens, and that of the one blamed comes later in the text.
    obtain ⟨t, ht, htext, htspan⟩ := hnamed p (List.mem_append_right before List.mem_cons_self)
    obtain ⟨s, hs, hstext, hsspan⟩ := hnamed q (List.mem_append_left _ hq)
    rw [List.map_append] at hplaced
    obtain ⟨mid, hbefore, hafter⟩ := hplaced.split
    have hqplace := hbefore.placed_of_mem (List.mem_map_of_mem hq)
    have hpplace := hafter.placed_of_mem (List.mem_map_of_mem List.mem_cons_self)
    rw [Param.toDatum, hsspan] at hqplace
    rw [Param.toDatum, htspan] at hpplace
    have horder : (s.stop : Int) ≤ t.start :=
      Int.le_trans hqplace.span.2.2 hpplace.span.1
    rw [htext, hstext, Name.same_proper, decide_eq_true_eq] at hsame
    rw [Outcome, htext, htspan]
    exact .parameter hs ht (Int.ofNat_le.1 horder) hsame.symm

end Parts

/-- What a production makes of its parts, or what it cannot make of them. -/
theorem Production.build_outcome {tokens : List Token} {span : Span} (p : Production)
    (ms : Meanings p.rhs) (hproper : ms.Proper) (hplaced : ms.Placed span.start span.stop)
    (hnamed : ms.Named tokens) :
    Outcome (p.lhs.Named tokens) (SyntaxError.Misuses tokens span.start span.stop)
      (p.build span ms) := by
  cases p with
  | assign =>
    match ms, hproper, hplaced with
    | .cons target (.cons _ (.cons value .nil)), .cons hregular _,
        .cons ht (.cons harrow (.cons hv (.nil hle))) =>
      have hstop := Int.le_trans harrow.le (Int.le_trans (Datum.Placed.le hv) hle)
      exact assign_outcome hregular (Datum.Placed.widen ht (Int.le_refl _) hstop)
  -- Only targets, parameters and names of datatypes can be wrong. The other productions put
  -- their parts together as they are, and are told apart by the number of parts.
  | paramsMany =>
    match ms, hplaced, hnamed with
    | .cons _ (.cons _ .nil), .cons hp (.cons hps (.nil hle)), .cons hn (.cons hns .nil) =>
      exact distinctParams_outcome (List.forall_mem_cons.2 ⟨hn, hns⟩) (.cons hp hps)
  | paramsOne =>
    match ms, hplaced, hnamed with
    | .cons _ .nil, .cons hp (.nil hle), .cons hn .nil =>
      exact distinctParams_outcome (List.forall_mem_singleton.2 hn) (.singleton hp)
  | paramTyped =>
    match ms, hnamed with
    | .cons token (.cons _ (.cons _ .nil)), .cons ht _ => exact ⟨token, ht, rfl, rfl⟩
  | moreParamsOne =>
    match ms, hnamed with
    | .cons _ (.cons _ .nil), .cons _ (.cons hp .nil) => exact List.forall_mem_singleton.2 hp
  | moreParamsMore =>
    match ms, hnamed with
    | .cons _ (.cons _ (.cons _ .nil)), .cons hps (.cons _ (.cons hp .nil)) =>
      exact forall_mem_concat hps hp
  | datatypeName =>
    match ms, hnamed with
    | .cons token .nil, .cons ht .nil => exact named_outcome ht
  | programEmpty =>
    match ms with
    | .nil => trivial
  | programLines | programLast | expressionInstruction | expressionLogic | logicEquality
  | equalityComparison | comparisonSum | sumProduct | productPower | powerUnary | unarySuffixed
  | unaryInput | suffixedPrimary | argumentsOne | primaryString | primaryNumber | primaryTrue
  | primaryFalse | primaryName | datatypesOne | linesBlank =>
    match ms with
    | .cons _ .nil => trivial
  | programLinesLast | printOne | eval | exec | unaryPlus | unaryMinus | unaryLen | unaryToString
  | unaryToNumber | unaryToBoolean | unaryIsNumber | unaryIsBoolean | unaryInputPrompt
  | argumentsMany | primaryArrayEmpty | datatypesMany | linesExpression | linesMoreBlank
  | partsOne | expressionsOne | moreDatatypesOne =>
    match ms with
    | .cons _ (.cons _ .nil) => trivial
  | printMany | logicAnd | logicAmpersand | logicOr | logicBar | equalityEqual | equalityNotEqual
  | comparisonLess | comparisonMore | comparisonAtMost | comparisonAtLeast | sumPlus | sumMinus
  | productStar | productSlash | productPercent | powerCaret | suffixedCallEmpty | primaryGroup
  | primaryArrayOne | linesMoreExpression | partsMore | expressionsMore | moreDatatypesMore =>
    match ms with
    | .cons _ (.cons _ (.cons _ .nil)) => trivial
  | ifThen | whileDo | suffixedIndex | suffixedCall | primaryArrayMany | datatypeArray
  | datatypeFunctionEmpty | datatypeClosureEmpty =>
    match ms with
    | .cons _ (.cons _ (.cons _ (.cons _ .nil))) => trivial
  | primaryFunctionEmpty | primaryClosureEmpty | datatypeFunction | datatypeClosure =>
    match ms with
    | .cons _ (.cons _ (.cons _ (.cons _ (.cons _ .nil)))) => trivial
  | ifElse | primaryFunction | primaryClosure =>
    match ms with
    | .cons _ (.cons _ (.cons _ (.cons _ (.cons _ (.cons _ .nil))))) => trivial

theorem Token.InOrder.le {lo hi : Int} {ts : List Token} (h : Token.InOrder lo hi ts) :
    lo ≤ hi := by
  induction h with
  | nil hle => exact hle
  | cons head tail ih => exact Int.le_trans head.le ih

theorem SyntaxError.Misuses.widen {tokens : List Token} {lo lo' hi hi' : Int} {e : SyntaxError}
    (h : e.Misuses tokens lo hi) (hlo : lo' ≤ lo) (hhi : hi ≤ hi') : e.Misuses tokens lo' hi' := by
  cases h with
  | datatype ht hnone => exact .datatype ht hnone
  | parameter hs ht hbefore htext => exact .parameter hs ht hbefore htext
  | target hstart hcovers hstop =>
    exact .target (Int.le_trans hlo hstart) hcovers (Int.le_trans hstop hhi)

mutual

/-- What is wrong with a derivation tree is wrong with its tokens. -/
theorem Tree.meaning_outcome {s : Symbol} {tokens : List Token} {lo hi : Int} :
    (tree : Tree s) → Token.InOrder lo hi tree.tokens → (∀ t ∈ tree.tokens, t ∈ tokens) →
    Outcome (s.Named tokens) (SyntaxError.Misuses tokens lo hi) tree.meaning
  | .leaf t text start, _, hmem => hmem _ List.mem_cons_self
  | .node p children, h, hmem => by
    by_cases hp : p = .programEmpty
    · subst hp
      match children with
      | .nil => trivial
    have hne := children.tokens_ne_nil (Production.rhs_ne hp).1 (Production.rhs_ne hp).2
    obtain ⟨hstart, hcovers, hstop, hinner⟩ := children.span_inOrder h hne
    have hchildren := children.meanings_outcome hinner hmem
    unfold Tree.meaning
    split
    · next ms hms =>
      rw [hms] at hchildren
      have hbuilt := p.build_outcome ms (children.meanings_proper ms hms)
        (children.meanings_placed hinner ms hms) hchildren
      cases hresult : p.build children.span ms with
      | ok m =>
        rw [hresult] at hbuilt
        exact hbuilt
      | error e =>
        rw [hresult] at hbuilt
        exact SyntaxError.Misuses.widen hbuilt hstart hstop
    · next e he =>
      rw [he] at hchildren
      exact SyntaxError.Misuses.widen hchildren hstart hstop

theorem Forest.meanings_outcome {ss : List Symbol} {tokens : List Token} {lo hi : Int} :
    (forest : Forest ss) → Token.InOrder lo hi forest.tokens →
    (∀ t ∈ forest.tokens, t ∈ tokens) →
    Outcome (Meanings.Named tokens) (SyntaxError.Misuses tokens lo hi) forest.meanings
  | .nil, _, _ => .nil
  | .cons head tail, h, hmem => by
    obtain ⟨mid, hhead, htail⟩ := h.split
    have hm := head.meaning_outcome hhead fun t ht => hmem t (List.mem_append_left _ ht)
    have hms := tail.meanings_outcome htail fun t ht => hmem t (List.mem_append_right _ ht)
    unfold Forest.meanings
    split
    · next m hmeaning =>
      rw [hmeaning] at hm
      split
      · next ms hmeanings =>
        rw [hmeanings] at hms
        exact .cons hm hms
      · next e he =>
        rw [he] at hms
        exact SyntaxError.Misuses.widen hms hhead.le (Int.le_refl _)
    · next e he =>
      rw [he] at hm
      exact SyntaxError.Misuses.widen hm (Int.le_refl _) htail.le

end

/-! ## Sources -/

/-- A source is a program, or its error points into it. -/
theorem parse_pointsInto (source : List Char) : (∃ program, parse source = .ok program) ∨
    ∃ e, parse source = .error e ∧ e.PointsInto source ∧
      (0 ≤ e.span.start ∧ e.span.start ≤ e.span.stop ∧ e.span.stop ≤ source.length) ∧
      ∀ expected, e.cause = .unexpected expected Terminal.finish.describe →
        e.span = ⟨source.length, source.length⟩ := by
  cases hparse : parse source with
  | ok program => exact .inl ⟨program, rfl⟩
  | error e =>
    suffices hpoints : e.PointsInto source from
      .inr ⟨e, rfl, hpoints, hpoints.bounds, fun _ => hpoints.span_of_finish⟩
    unfold parse at hparse
    dsimp only at hparse
    split at hparse
    · next tree htree =>
      have htokens : tree.tokens = delivered (Layout.separate source) :=
        (parseFrom_sound htree fun next => trivial).1
      have horder := deliveredFrom_inOrder 0 (Layout.separate source) Stack.bottom
      rw [← delivered, ← htokens, Layout.length_separate, Int.natCast_zero, Int.zero_add] at horder
      have houtcome := tree.meaning_outcome horder fun t ht => htokens ▸ ht
      rw [hparse] at houtcome
      exact .misuse houtcome
    · next rejection hrejected =>
      cases hparse
      exact (parseFrom_located List.drop_zero.symm (Nat.zero_le _) hrejected).toError

end Mandate
