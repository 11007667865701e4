/-
  Mandate.Proofs.EffectFree

  Expressions that call nothing, run nothing and read nothing. Evaluating one is as good
  as looking up its variables.

  The evaluation comes to an end, by induction over the expression. It changes nothing but
  the number of objects made. And from two states in which its variables have the same
  values it comes to the same, except that closures it makes have the scope of the state
  they are made in, and that its objects are numbered from where that state's numbers are.

  Values are the same here only if what is no number in them is the same object: lists
  take such an object for equal to itself (`comparison_tells_nans_apart`).

    * `Node.EffectFree`, and `Node.Sees`: the variables that an expression names where it
      is evaluated.
    * `Node.EffectFree.relates`: with enough fuel, evaluations of such an expression come
      to related values, whatever the relation.
    * `StepRelation.between`: what corresponds in evaluations from two states.
    * `effectFree_evaluation`: what follows of one evaluation, and of two.
-/

import Mandate.Proofs.Fuel

namespace Mandate

/-! ## What is evaluated -/

namespace Node

/-- An expression whose evaluation calls, runs and reads nothing. What is inside a function, a
closure or an instruction is not evaluated with it. -/
inductive EffectFree : Node → Prop where
  | intro {n : Node} (hn : n.hasEffect = false) (h : ∀ k, n.Operand k → EffectFree k) :
      EffectFree n

/-- Whether an expression names a variable where it is evaluated; `self` is no variable. -/
inductive Sees (x : Name) : Node → Prop where
  | name (hx : x ≠ .proper "self") (o : Origin) : Sees x (.name x o)
  | operand {n k : Node} (hk : n.Operand k) (h : Sees x k) : Sees x n

/-- An expression that is evaluated without its parts. -/
theorem EffectFree.of_leaf {n : Node} (hn : n.hasEffect = false)
    (hleaf : n.evaluatesParts = false) : n.EffectFree := by
  refine .intro hn fun k hk => ?_
  rw [Operand, hleaf] at hk
  cases hk.1

/-- A tree has finitely many parts. -/
theorem exists_parts (n : Node) : ∃ ks : List Node, ∀ k, n.Part k → k ∈ ks := by
  have hseries : ∀ es : Slot (List Node), ∃ ks : List Node,
      ∀ ns, Node.series es = .ok ns → ∀ k ∈ ns, k ∈ ks := by
    intro es
    cases Node.series es with
    | error f => exact ⟨[], fun _ hns => by cases hns⟩
    | ok ks =>
      refine ⟨ks, fun ns hns k hk => ?_⟩
      cases hns
      exact hk
  cases n with
  | array es o =>
    obtain ⟨ks, hks⟩ := hseries es
    refine ⟨ks, fun k hk => ?_⟩
    cases hk with
    | element hns hk => exact hks _ hns k hk
  | print es o =>
    obtain ⟨ks, hks⟩ := hseries es
    refine ⟨ks, fun k hk => ?_⟩
    cases hk with
    | printed hns hk => exact hks _ hns k hk
  | call f args o =>
    obtain ⟨ks, hks⟩ := hseries args
    refine ⟨f :: ks, fun k hk => ?_⟩
    cases hk with
    | function => exact List.mem_cons_self
    | argument _ hns hk => exact List.mem_cons_of_mem f (hks _ hns k hk)
  | lambda _ _ _ e _ | group e _ | unary _ e _ | builtin _ e _ | exec e _ | eval e _
    | assign _ e _ =>
    refine ⟨[e], fun k hk => ?_⟩
    cases hk
    exact List.mem_cons_self
  | index a b o | binary _ a b o | loop a b o =>
    refine ⟨[a, b], fun k hk => ?_⟩
    cases hk <;> simp
  | branch c t e o =>
    refine ⟨[c, t, e], fun k hk => ?_⟩
    cases hk <;> simp
  | _ => exact ⟨[], fun k hk => by cases hk⟩

/-- What each part of a tree needs some of, all of them need at most so much of. -/
theorem exists_bound {P : Node → Nat → Prop} {n : Node} (h : ∀ k, n.Operand k → ∃ e, P k e) :
    ∃ bound, ∀ k, n.Operand k → ∃ e, e ≤ bound ∧ P k e := by
  obtain ⟨ks, hks⟩ := n.exists_parts
  have hlist : ∃ bound, ∀ k ∈ ks, n.Operand k → ∃ e, e ≤ bound ∧ P k e := by
    clear hks
    induction ks with
    | nil => exact ⟨0, fun _ hk => absurd hk List.not_mem_nil⟩
    | cons k ks ih =>
      obtain ⟨bound, hbound⟩ := ih
      by_cases hk : n.Operand k
      · obtain ⟨e, he⟩ := h k hk
        refine ⟨max e bound, fun j hj hoperand => ?_⟩
        rcases List.mem_cons.1 hj with rfl | hj
        · exact ⟨e, Nat.le_max_left _ _, he⟩
        · obtain ⟨e', hle, he'⟩ := hbound j hj hoperand
          exact ⟨e', Nat.le_trans hle (Nat.le_max_right _ _), he'⟩
      · refine ⟨bound, fun j hj hoperand => ?_⟩
        rcases List.mem_cons.1 hj with rfl | hj
        · exact absurd hoperand hk
        · exact hbound j hj hoperand
  obtain ⟨bound, hbound⟩ := hlist
  exact ⟨bound, fun k hk => hbound k (hks k hk.2) hk⟩

/-- With so much fuel, or with less if that may run out, evaluations of an expression come to
related values. -/
def RelatesWith (n : Node) (enough : Nat) : Prop :=
  ∀ (R : StepRelation) (fuel : Nat), enough ≤ fuel ∨ R.halts .exhausted → R.nodes n →
    ∀ {start : Machine} {self self' : Option Payload}, R.Selves start self self' →
      ∀ mode, R.rel self self' start R.Values ((engine fuel).evaluate self mode n)
        ((engine fuel).evaluate self' mode n)

/-- Whatever the relation, evaluations of an expression without effects come to related values. -/
theorem EffectFree.relates {n : Node} (h : n.EffectFree) : ∃ enough, n.RelatesWith enough := by
  -- By induction over the expression, not on the fuel: the fuel is what is asked for.
  induction h with
  | @intro n hn _ ih =>
    obtain ⟨bound, hbound⟩ := exists_bound ih
    refine ⟨bound + 1, fun R fuel hfuel hnode start self self' hself mode => ?_⟩
    cases fuel with
    | zero => exact R.throw (hfuel.resolve_left (Nat.not_succ_le_zero bound))
    | succ fuel =>
      refine R.expression hself hnode hn (fun k hk mode m hm => ?_) mode
      obtain ⟨e, hle, he⟩ := hbound k hk
      exact he R fuel (hfuel.imp_left fun hfuel => by omega) (R.operand hnode hk) (hself.mono hm)
        mode

end Node

/-! ## Objects and what is seen of them -/

namespace Payload

mutual

/-- The numbers of the objects in a payload: of closures, and of what is no number. -/
def numbers : Payload → List Nat
  | .list items => allNumbers items
  | .closure c => [c.id]
  | .nan (.made id) => [id]
  | _ => []

/-- The numbers of the objects in several payloads. -/
def allNumbers : List Payload → List Nat
  | [] => []
  | p :: ps => p.numbers ++ allNumbers ps

end

theorem mem_allNumbers {id : Nat} {ps : List Payload} :
    id ∈ allNumbers ps ↔ ∃ p ∈ ps, id ∈ p.numbers := by
  induction ps with
  | nil => simp [allNumbers]
  | cons p ps ih => simp [allNumbers, ih]

end Payload

/-- Two states in which an expression sees the same: its variables have the same payloads and
datatypes. The objects in these payloads, and in what `self` stands for, were made before in both
states, unless both number the next ones alike. -/
structure Node.SeesSame (n : Node) (called : Option Payload) (m m' : Machine) : Prop where
  values : ∀ x, n.Sees x → Option.Rel (fun v w => v.payload = w.payload ∧ v.datatype = w.datatype)
    (m.store.lookup? m.scope x) (m'.store.lookup? m'.scope x)
  numbers : m.objects = m'.objects ∨
    ∀ p, (p ∈ called ∨ ∃ x v, n.Sees x ∧ m.store.lookup? m.scope x = some v ∧ v.payload = p) →
      ∀ id ∈ p.numbers, id < m.objects ∧ id < m'.objects

/-- An expression sees the same twice in one state. -/
theorem Node.SeesSame.refl (n : Node) (self : Option Payload) (m : Machine) :
    n.SeesSame self m m := by
  refine ⟨fun x _ => ?_, .inl rfl⟩
  cases m.store.lookup? m.scope x with
  | none => exact .none
  | some v => exact .some ⟨rfl, rfl⟩

/-! ## Evaluations from two states -/

/-- Objects that are the same, or that were made at the same point of evaluations from two
states. The first were made before, unless the two states number the next ones alike. -/
def ObjectMatch.between (m m' : Machine) : ObjectMatch where
  closures c i s :=
    (i = c.id ∧ s = c.scope ∧ (m.objects = m'.objects ∨ c.id < m.objects ∧ c.id < m'.objects)) ∨
    ∃ k, c.id = m.objects + k ∧ c.scope = m.scope ∧ i = m'.objects + k ∧ s = m'.scope
  nans
    | .made i, .made j =>
      (j = i ∧ (m.objects = m'.objects ∨ i < m.objects ∧ i < m'.objects)) ∨
      ∃ k, i = m.objects + k ∧ j = m'.objects + k
    | a, b => a = b
  one_to_one := by
    rintro c d i j s t (⟨rfl, -, hc⟩ | ⟨k, hc, -, rfl, -⟩) (⟨rfl, -, hd⟩ | ⟨l, hd, -, rfl, -⟩)
    all_goals omega
  nans_one_to_one := by
    rintro a b a' b' h h'
    cases a <;> cases b <;> cases h <;> cases a' <;> cases b' <;> cases h' <;>
      simp only [NanObject.made.injEq, reduceCtorEq, iff_self] <;> omega
  outside := rfl
  stored := rfl

/-- A payload whose objects can be told from those that are made next corresponds to itself. -/
theorem Payload.eqUpTo_self {m m' : Machine} : (p : Payload) →
    (m.objects = m'.objects ∨ ∀ id ∈ p.numbers, id < m.objects ∧ id < m'.objects) →
    p.EqUpTo .all (.between m m') p
  | .list ps, h => by
    refine .list (List.forall₂_same.2 fun p hp => eqUpTo_self p ?_)
    exact h.imp_right fun hids id hid => hids id (mem_allNumbers.2 ⟨p, hp, hid⟩)
  | .closure c, h =>
    .closure c (.inl ⟨rfl, rfl, h.imp_right fun hids => hids c.id (List.mem_singleton_self _)⟩)
  | .nan (.made id), h =>
    .nan (.inl ⟨rfl, h.imp_right fun hids => hids id (List.mem_singleton_self _)⟩)
  | .nan .outside, _ | .nan .stored, _ => .nan rfl
  | .text _, _ => .atom rfl fun _ _ => trivial
  | .null, _ | .bool _, _ | .int _, _ | .number _, _ | .node _, _ | .data _, _ =>
    .atom rfl trivial

/-- Evaluations from two states that have made as many objects, and changed nothing else. It is
given whether they may stop for want of fuel. -/
def Pairing.between (m m' : Machine) (short : Prop) : Pairing where
  states _ _ s s' := ∃ k, s = { m with objects := m.objects + k } ∧
    s' = { m' with objects := m'.objects + k }
  leads _ _ := True
  halts e := e = .exhausted → short
  lenient := False
  refl _ := trivial
  trans _ _ := trivial

section

variable {n : Node} {self : Option Payload} {m m' : Machine} (h : n.SeesSame self m m')

/-- How evaluations of an expression correspond from states in which it sees the same. -/
def StepRelation.between (short : Prop) : StepRelation where
  vocabulary := .all
  objects _ := .between m m'
  leads _ _ := True
  halts e := e = .exhausted → short
  nodes k := ∀ x, k.Sees x → n.Sees x
  rel := Run.Paired (.between m m' short)
  leads_refl _ := trivial
  leads_trans _ _ := trivial
  objects_mono _ := .refl _
  fault _ := Halt.noConfusion
  error _ _ := Halt.noConfusion
  literal _ := trivial
  held _ := trivial
  placed _ _ := trivial
  operand hk hoperand x hx := hk x (.operand hoperand hx)
  pure := .pure
  throw he := Run.Paired.throw (P := .between m m' short) he
  bind := .bind
  freshObject := by
    rintro _ _ _ _ ⟨k, rfl, rfl⟩
    exact .ok (.inr ⟨k, rfl, rfl⟩) ⟨k + 1, rfl, rfl⟩ trivial
  lookup := by
    rintro _ _ _ x o hsees hx _ ⟨k, rfl, rfl⟩
    -- The state has changed since the start, but not in its variables.
    have hx := hsees x (.name hx o)
    refine .ok ?_ ⟨k, rfl, rfl⟩ trivial
    show Option.Rel _ (m.store.lookup? m.scope x) (m'.store.lookup? m'.scope x)
    have hvalues := h.values x hx
    generalize hv : m.store.lookup? m.scope x = v? at hvalues
    generalize m'.store.lookup? m'.scope x = w? at hvalues
    cases hvalues with
    | none => exact .none
    | @some v w hvw =>
      refine .some ⟨?_, hvw.2⟩
      rw [← hvw.1]
      exact Payload.eqUpTo_self v.payload <| h.numbers.imp_right fun hids =>
        hids v.payload (.inr ⟨x, v, hx, hv, rfl⟩)
  makeClosure := by
    rintro _ _ _ ps r b o _ _ ⟨k, rfl, rfl⟩
    refine .ok ?_ ⟨k + 1, rfl, rfl⟩ trivial
    exact .closure ⟨m.objects + k, ps, r, b, o, m.scope⟩ (.inr ⟨k, rfl, rfl, rfl, rfl⟩)

include h

theorem Node.SeesSame.selves :
    Option.Rel (Payload.EqUpTo .all (.between m m')) self self := by
  cases hself : self with
  | none => exact .none
  | some p =>
    refine .some (Payload.eqUpTo_self p ?_)
    exact h.numbers.imp_right fun hids => hids p (.inl hself)

/-- Evaluations from such states correspond. -/
theorem Node.RelatesWith.outcomes {enough : Nat} (henough : n.RelatesWith enough) (short : Prop)
    {fuel : Nat} (hfuel : enough ≤ fuel ∨ short) :
    (Pairing.between m m' short).Outcomes self self
      (fun v w _ => v.EqUpTo .all (.between m m') w) m ((engine fuel).compute self n m)
      ((engine fuel).compute self n m') :=
  henough (.between h short) fuel (hfuel.imp_right fun h _ => h) (fun _ => id) h.selves .compute m'
    ⟨0, rfl, rfl⟩

end

/-! ## Expressions without effects -/

/-- What evaluations from two states come to: values that are the same, or the same error, up to
the objects made on the way. -/
inductive Run.AgreeUpToObjects (m m' : Machine) :
    EStateM.Result Halt Machine Value → EStateM.Result Halt Machine Value → Prop where
  | ok {v w : Value} (k : Nat) (h : v.EqUpTo .all (.between m m') w) :
      AgreeUpToObjects m m' (.ok v { m with objects := m.objects + k })
        (.ok w { m' with objects := m'.objects + k })
  | error (e : Halt) (k : Nat) :
      AgreeUpToObjects m m' (.error e { m with objects := m.objects + k })
        (.error e { m' with objects := m'.objects + k })

theorem Run.AgreeUpToObjects.final {m m' : Machine} {r r' : EStateM.Result Halt Machine Value}
    (h : AgreeUpToObjects m m' r r') : ∃ k, Run.final r = { m with objects := m.objects + k } := by
  cases h with
  | ok k => exact ⟨k, rfl⟩
  | error e k => exact ⟨k, rfl⟩

theorem Run.AgreeUpToObjects.values {m m' s s' : Machine} {v w : Value}
    (h : AgreeUpToObjects m m' (.ok v s) (.ok w s')) : v.EqUpTo .all (.between m m') w := by
  generalize hr : EStateM.Result.ok v s = r, hr' : EStateM.Result.ok w s' = r' at h
  cases h with
  | ok k h =>
    cases hr
    cases hr'
    exact h
  | error => cases hr

theorem Node.RelatesWith.agree {n : Node} {self : Option Payload} {m m' : Machine} {enough : Nat}
    (henough : n.RelatesWith enough) (h : n.SeesSame self m m') (fuel : Nat) :
    Run.AgreeUpToObjects m m' ((engine fuel).compute self n m)
      ((engine fuel).compute self n m') := by
  have houtcomes := henough.outcomes h True (.inr trivial : enough ≤ fuel ∨ True)
  generalize (engine fuel).compute self n m = r, (engine fuel).compute self n m' = r' at houtcomes
  cases houtcomes with
  | ok hv hm =>
    obtain ⟨k, rfl, rfl⟩ := hm
    exact .ok k hv
  | error _ hm =>
    obtain ⟨k, rfl, rfl⟩ := hm
    exact .error _ k
  | short h => exact h.elim

/-- An evaluation with enough fuel is not short of it. -/
theorem Node.RelatesWith.finished {n : Node} {enough : Nat} (henough : n.RelatesWith enough)
    (self : Option Payload) (m : Machine) :
    Run.finished ((engine enough).compute self n m) = true := by
  have houtcomes := henough.outcomes (.refl n self m) False (.inl (Nat.le_refl enough))
  generalize (engine enough).compute self n m = r at houtcomes
  cases houtcomes with
  | ok => rfl
  | @error e _ _ he =>
    cases e with
    | exhausted => exact (he rfl).elim
    | error | fault => rfl
  | short h => exact h.elim

/-- Only the number of objects made may be another. -/
def Machine.EqUpToObjects (m m' : Machine) : Prop := ∃ k, m' = { m with objects := k }

theorem Machine.EqUpToObjects.refl (m : Machine) : m.EqUpToObjects m := ⟨m.objects, rfl⟩

theorem Machine.EqUpToObjects.trans {a b c : Machine} (h : a.EqUpToObjects b)
    (h' : b.EqUpToObjects c) : a.EqUpToObjects c := by
  obtain ⟨j, rfl⟩ := h
  obtain ⟨k, rfl⟩ := h'
  exact ⟨k, rfl⟩

/-- Evaluating such an expression leaves the state as it is, with any amount of fuel and whether
it comes to a value or not. -/
theorem Node.EffectFree.final_compute {n : Node} (h : n.EffectFree) (fuel : Nat)
    (self : Option Payload) (m : Machine) :
    m.EqUpToObjects (Run.final ((engine fuel).compute self n m)) := by
  obtain ⟨enough, henough⟩ := h.relates
  obtain ⟨k, hk⟩ := (henough.agree (.refl n self m) fuel).final
  exact ⟨_, hk⟩

/-- Evaluating an expression without effects comes to an end: with enough fuel, and the same with
more. The scope, the variables, the console and the trace stay as they are, whether it comes to a
value or to an error. What it comes to depends on the expression, on what `self` stands for and on
the values of the variables that it sees, in which what is no number counts as an object: from
another state with the same values it comes to the same value or to the same error, apart from the
numbers of the objects and the scopes of the closures that it makes. These have the scope of the
state they are made in. -/
theorem effectFree_evaluation {n : Node} (h : n.EffectFree) :
    ∃ enough, ∀ (self : Option Payload) (m : Machine),
      Run.finished ((engine enough).compute self n m) = true ∧
      (∀ fuel, enough ≤ fuel →
        (engine fuel).compute self n m = (engine enough).compute self n m) ∧
      (∃ k, Run.final ((engine enough).compute self n m)
        = { m with objects := m.objects + k }) ∧
      ∀ m', n.SeesSame self m m' →
        Run.AgreeUpToObjects m m' ((engine enough).compute self n m)
          ((engine enough).compute self n m') := by
  obtain ⟨enough, henough⟩ := h.relates
  refine ⟨enough, fun self m => ?_⟩
  have hfinished := henough.finished self m
  -- One evaluation is looked at as paired with itself.
  refine ⟨hfinished, fun fuel hfuel => ?_, ?_, fun m' hsame => henough.agree hsame enough⟩
  · exact compute_keptBy hfuel self n m hfinished
  · exact (henough.agree (.refl n self m) enough).final

/-- `a = b` -/
def comparison : Node :=
  .binary (.proper .equal) (.name (.proper "a") Span.none) (.name (.proper "b") Span.none)
    (.proper Span.none)

/-- A list of one object that is no number, of datatype `Any`. -/
def nanList (object : NanObject) : Value := ⟨.list [.nan object], Datatype.any, Span.none⟩

/-- A state in which `a` and `b` are such lists. -/
def twoLists (a b : NanObject) : Machine :=
  { scope := [⟨.proper "a", 0⟩, ⟨.proper "b", 1⟩]
    store := ⟨#[nanList a, nanList b]⟩
    objects := 2 }

/-- The values of `a` and `b` are written in the same way in both states, but `a = b` is true where
the lists hold one object and false where they hold two. -/
theorem comparison_tells_nans_apart :
    (∀ x, comparison.Sees x → Option.Rel (fun v w => v.shown = w.shown)
      ((twoLists .outside .outside).store.lookup? (twoLists .outside .outside).scope x)
      ((twoLists (.made 0) (.made 1)).store.lookup? (twoLists (.made 0) (.made 1)).scope x)) ∧
    (engine 2).compute none comparison (twoLists .outside .outside) =
      .ok ⟨.bool true, Datatype.boolean, Span.none⟩ (twoLists .outside .outside) ∧
    (engine 2).compute none comparison (twoLists (.made 0) (.made 1)) =
      .ok ⟨.bool false, Datatype.boolean, Span.none⟩ (twoLists (.made 0) (.made 1)) := by
  refine ⟨fun x hx => ?_, rfl, rfl⟩
  cases hx with
  | operand hk h =>
    cases hk.2 with
    | left =>
      cases h with
      | name => exact .some rfl
      | operand hk => cases hk.1
    | right =>
      cases h with
      | name => exact .some rfl
      | operand hk => cases hk.1

/-- `() => Boolean true` -/
def closureLiteral : Node :=
  .lambda .closure (.proper []) (.proper Datatype.boolean) (.boolean true Span.none)
    (.proper Span.none)

/-- `[f, () => Boolean true]` -/
def twoClosures : Node :=
  .array (.proper [.name (.proper "f") Span.none, closureLiteral]) (.proper Span.none)

/-- A closure of no parameters that returns a truth value. -/
def madeBefore : Value :=
  ⟨.closure ⟨0, .proper [], .proper Datatype.boolean, .boolean true Span.none, Span.none, []⟩,
    Datatype.closure [] Datatype.boolean, Span.none⟩

/-- A state in which `f` is a closure, the only one made. -/
def oneMade : Machine :=
  { scope := [⟨.proper "f", 0⟩], store := ⟨#[madeBefore]⟩, objects := 1 }

/-- A state in which `f` is the same closure, but there is another variable and more closures were
made. -/
def moreMade : Machine :=
  { scope := [⟨.proper "g", 0⟩, ⟨.proper "f", 1⟩]
    store := ⟨#[Value.unset Span.none, madeBefore]⟩
    objects := 3 }

/-- The operands of `[f, () => Boolean true]`. -/
theorem operand_twoClosures {k : Node} (h : twoClosures.Operand k) :
    k = .name (.proper "f") Span.none ∨ k = closureLiteral := by
  cases h.2 with
  | element hns hk =>
    cases hns
    exact (List.mem_cons.1 hk).imp_right List.mem_singleton.1

theorem twoClosures_effectFree : twoClosures.EffectFree := by
  refine .intro rfl fun k hk => ?_
  rcases operand_twoClosures hk with rfl | rfl <;> exact .of_leaf rfl rfl

theorem twoClosures_seesSame : twoClosures.SeesSame none oneMade moreMade := by
  have hsees : ∀ x, twoClosures.Sees x → x = .proper "f" := by
    intro x hx
    cases hx with
    | operand hk h =>
      rcases operand_twoClosures hk with rfl | rfl
      · cases h with
        | name => rfl
        | operand hk => cases hk.1
      · cases h with
        | operand hk => cases hk.1
  refine ⟨fun x hx => ?_, .inr ?_⟩
  · obtain rfl := hsees x hx
    exact .some ⟨rfl, rfl⟩
  · rintro p (hp | ⟨x, v, hx, hv, rfl⟩) id hid
    · cases hp
    · obtain rfl := hsees x hx
      cases hv
      cases List.mem_singleton.1 hid
      decide

/-- `[f, () => Boolean true]` in two states: the closure of `f` is the same in both values, and the
other one has the number that is next and the scope that is there. -/
theorem effectFree_evaluation_twoClosures :
    ∃ (enough : Nat) (v w : Value),
      (engine enough).compute none twoClosures oneMade = .ok v { oneMade with objects := 2 } ∧
      (engine enough).compute none twoClosures moreMade = .ok w { moreMade with objects := 4 } ∧
      v.payload.numbers = [0, 1] ∧ w.payload.numbers = [0, 3] ∧
      v.EqUpTo .all (.between oneMade moreMade) w := by
  obtain ⟨enough, hevaluation⟩ := effectFree_evaluation twoClosures_effectFree
  -- What four steps of fuel come to is what enough fuel comes to.
  have hfour : ∀ m, Run.finished ((engine 4).compute none twoClosures m) = true →
      (engine enough).compute none twoClosures m = (engine 4).compute none twoClosures m := by
    intro m hm
    rw [← (hevaluation none m).2.1 (max 4 enough) (Nat.le_max_right 4 enough)]
    exact compute_keptBy (Nat.le_max_left 4 enough) none twoClosures m hm
  have hpair := (hevaluation none oneMade).2.2.2 moreMade twoClosures_seesSame
  rw [hfour oneMade rfl, hfour moreMade rfl] at hpair
  exact ⟨enough, _, _, hfour oneMade rfl, hfour moreMade rfl, rfl, rfl, hpair.values⟩

end Mandate
