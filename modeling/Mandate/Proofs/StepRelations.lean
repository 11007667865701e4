/-
  Mandate.Proofs.StepRelations

  Two evaluations side by side, rule by rule.

  A `StepRelation` relates steps of two runs. It is asked for what the rules for
  expressions are made of: steps one after the other, early ends, variables and new
  objects. Each rule then comes to related values if its parts do, and there is one
  lemma for each rule. It makes no difference to the rules what is related: two runs from
  different states, or a run and the same run watched or with more fuel, or a run and
  itself, of which something is to be shown.

    * `StepRelation.Values` relates values: they are equal up to objects, as far as these
      correspond in the state that the first run is in.
    * `StepRelation.rel` takes the state that the first run is in and what is known of the
      results. As a run goes on, more objects may come to correspond, but none cease to.
    * `StepRelation.Computes` says of an expression that its evaluations are related in
      every later state, which is what the rules ask of their parts.
    * `Node.Part` are the parts of a tree, and `Node.Operand` those that are evaluated with
      it. `StepRelation.expression` puts the rules together: an expression that calls, runs
      and reads nothing comes to related values if its operands do.
-/

import Mandate.Proofs.BasicSteps
import Mandate.Proofs.ObjectMatching
import Mandate.Semantics.Run

namespace Mandate

/-! ## Parts of trees -/

/-- What may be evaluated or run when a tree is. -/
inductive Node.Part : Node → Node → Prop where
  | body (style : LambdaStyle) (ps : Slot (List Param)) (r : Slot Datatype) (b : Node)
      (o : Origin) : Part (.lambda style ps r b o) b
  | element {es : Slot (List Node)} {ns : List Node} (hns : Node.series es = .ok ns) {n : Node}
      (hn : n ∈ ns) (o : Origin) : Part (.array es o) n
  | group (e : Node) (o : Origin) : Part (.group e o) e
  | indexed (t i : Node) (o : Origin) : Part (.index t i o) t
  | position (t i : Node) (o : Origin) : Part (.index t i o) i
  | function (f : Node) (args : Slot (List Node)) (o : Origin) : Part (.call f args o) f
  | argument (f : Node) {args : Slot (List Node)} {ns : List Node}
      (hns : Node.series args = .ok ns) {n : Node} (hn : n ∈ ns) (o : Origin) :
      Part (.call f args o) n
  | operand (op : Slot UnaryOp) (e : Node) (o : Origin) : Part (.unary op e o) e
  | left (op : Slot BinaryOp) (l r : Node) (o : Origin) : Part (.binary op l r o) l
  | right (op : Slot BinaryOp) (l r : Node) (o : Origin) : Part (.binary op l r o) r
  /-- Only `input` can do without an operand. -/
  | word {word : Builtin} {e : Node} (h : word ≠ .input ∨ e ≠ .data .null) (o : Origin) :
      Part (.builtin word e o) e
  | exec (e : Node) (o : Origin) : Part (.exec e o) e
  | eval (e : Node) (o : Origin) : Part (.eval e o) e
  | printed {es : Slot (List Node)} {ns : List Node} (hns : Node.series es = .ok ns) {n : Node}
      (hn : n ∈ ns) (o : Origin) : Part (.print es o) n
  | assigned (t v : Node) (o : Origin) : Part (.assign t v o) v
  | branchCondition (c t e : Node) (o : Origin) : Part (.branch c t e o) c
  | whenTrue (c t e : Node) (o : Origin) : Part (.branch c t e o) t
  | whenFalse (c t : Node) {e : Node} (h : e ≠ .data .null) (o : Origin) :
      Part (.branch c t e o) e
  | loopCondition (c b : Node) (o : Origin) : Part (.loop c b o) c
  | loopBody (c b : Node) (o : Origin) : Part (.loop c b o) b

namespace Node

/-- Whether the parts of a tree are evaluated when it is. -/
def evaluatesParts : Node → Bool
  | .array .. | .group .. | .index .. | .call .. | .unary .. | .binary .. | .builtin ..
  | .exec .. => true
  | _ => false

/-- A part that is evaluated when a tree is. -/
def Operand (n k : Node) : Prop := n.evaluatesParts = true ∧ n.Part k

/-- Whether something is called, run or read when a tree is evaluated, apart from what its
operands do. -/
def hasEffect : Node → Bool
  | .call .. | .exec .. | .builtin .input .. => true
  | _ => false

end Node

/-! ## Steps that look at the state -/

/-- The value of a variable, if there is such a variable. -/
def Run.lookup (name : Name) : Run (Option Value) := do
  let m ← get
  return m.store.lookup? m.scope name

/-- A new closure with the current scope. -/
def Run.makeClosure (params : Slot (List Param)) (returns : Slot Datatype) (body : Node)
    (origin : Origin) : Run Closure := do
  let id ← Run.freshObject
  return ⟨id, params, returns, body, origin, (← get).scope⟩

theorem Semantics.named_eq (self : Option Payload) {x : Name} (hx : x ≠ .proper "self")
    (o : Origin) :
    Semantics.named self x o = (do
      match ← Run.lookup x with
      | some v => return v.withOrigin o
      | none => Run.fail (.undefinedVariable <$> x.plain) o) := by
  unfold Semantics.named
  split
  · exact absurd rfl hx
  · rfl

theorem Semantics.closure_eq (ps : Slot (List Param)) (r : Slot Datatype) (b : Node)
    (o : Origin) :
    Semantics.closure ps r b o = (do
      let c ← Run.makeClosure ps r b o
      return ⟨.closure c, ← c.datatype, o⟩) := rfl

/-- The texts in an error are made of code points that may occur. -/
def RuntimeCause.Admitted (V : Vocabulary) : RuntimeCause → Prop
  | .outOfBounds t | .notNumber t | .notBoolean t => V.Admits t
  | _ => True

/-! ## Relations between steps -/

/-- How the steps of two evaluations are related. -/
structure StepRelation where
  vocabulary : Vocabulary
  /-- Which objects correspond when the first run is in a state. -/
  objects : Machine → ObjectMatch
  /-- Whether the first run may come from the one state to the other. -/
  leads : Machine → Machine → Prop
  /-- For what an evaluation may stop. -/
  halts : Halt → Prop
  /-- Which trees may be evaluated. -/
  nodes : Node → Prop
  /-- Whether steps are related when the first run is in a state, given what `self` stands for in
  both runs. Something is known of results and the state of the first run in which they are
  there. -/
  rel : ∀ {α β : Type}, Option Payload → Option Payload → Machine → (α → β → Machine → Prop) →
    Run α → Run β → Prop
  leads_refl : ∀ m, leads m m
  leads_trans : ∀ {m m₁ m₂}, leads m m₁ → leads m₁ m₂ → leads m m₂
  objects_mono : ∀ {m m₁}, leads m m₁ → (objects m).Le (objects m₁)
  fault : ∀ f, halts (.fault f)
  error : ∀ {cause o}, cause.Admitted vocabulary → vocabulary.origins o → halts (.error ⟨cause, o⟩)
  literal : ∀ {v k o}, nodes (.literal v k o) → vocabulary.data v
  held : ∀ {n}, nodes n → vocabulary.nodes n
  placed : ∀ {n o}, nodes n → n.origin? = some o → vocabulary.origins o
  operand : ∀ {n k}, nodes n → n.Operand k → nodes k
  pure : ∀ {α β : Type} {self self' start} {Q : α → β → Machine → Prop} {a b},
    Q a b start → rel self self' start Q (Pure.pure a) (Pure.pure b)
  throw : ∀ {α β : Type} {self self' start} {Q : α → β → Machine → Prop} {e}, halts e →
    rel self self' start Q (MonadExcept.throw e) (MonadExcept.throw e)
  bind : ∀ {α β γ δ : Type} {self self' start} {Q : α → β → Machine → Prop}
    {P : γ → δ → Machine → Prop} {x y f g}, rel self self' start Q x y →
      (∀ a b m, leads start m → Q a b m → rel self self' m P (f a) (g b)) →
        rel self self' start P (x >>= f) (y >>= g)
  freshObject : ∀ {self self' start},
    rel self self' start (fun i j m => (objects m).nans (.made i) (.made j)) Run.freshObject
      Run.freshObject
  lookup : ∀ {self self' start x o}, nodes (.name x o) → x ≠ .proper "self" →
    rel self self' start (fun v? w? m => Option.Rel (fun v w : Value =>
      v.payload.EqUpTo vocabulary (objects m) w.payload ∧ v.datatype = w.datatype) v? w?)
      (Run.lookup x) (Run.lookup x)
  makeClosure : ∀ {self self' start ps r b o}, nodes (.lambda .closure ps r b o) →
    rel self self' start
      (fun c d m => (Payload.closure c).EqUpTo vocabulary (objects m) (.closure d))
      (Run.makeClosure ps r b o) (Run.makeClosure ps r b o)

namespace StepRelation

variable (R : StepRelation)

/-- Payloads that are equal up to the objects that correspond in a state. -/
abbrev Payloads (m : Machine) : Payload → Payload → Prop :=
  Payload.EqUpTo R.vocabulary (R.objects m)

/-- Values with such payloads, of one datatype and from one place. -/
abbrev Values (v w : Value) (m : Machine) : Prop :=
  v.EqUpTo R.vocabulary (R.objects m) w

/-- Where values and errors may come from. -/
abbrev origins : Origin → Prop := R.vocabulary.origins

/-- What `self` stands for. -/
abbrev Selves (m : Machine) : Option Payload → Option Payload → Prop := Option.Rel (R.Payloads m)

variable {R} {α β γ δ : Type} {self self' : Option Payload} {start m m₁ : Machine}
  {Q : α → β → Machine → Prop} {P : γ → δ → Machine → Prop}

theorem Values.mono {v w : Value} (h : R.Values v w m) (hm : R.leads m m₁) : R.Values v w m₁ :=
  Value.EqUpTo.mono h (R.objects_mono hm)

theorem Selves.mono (h : R.Selves m self self') (hm : R.leads m m₁) : R.Selves m₁ self self' := by
  cases h with
  | none => exact .none
  | some hp => exact .some (hp.mono (R.objects_mono hm))

theorem payloads_mono {ps qs : List Payload} (h : List.Forall₂ (R.Payloads m) ps qs)
    (hm : R.leads m m₁) : List.Forall₂ (R.Payloads m₁) ps qs :=
  h.imp fun _ _ hp => hp.mono (R.objects_mono hm)

theorem placed_of_originOf {n : Node} {o : Origin} (hn : R.nodes n)
    (ho : Semantics.originOf n = .ok o) : R.origins o := by
  unfold Semantics.originOf at ho
  split at ho
  · next hplace =>
    cases ho
    exact R.placed hn hplace
  · cases ho

theorem halts_of {cause : Except Fault RuntimeCause} {o : Origin}
    (hcause : ∀ c, cause = .ok c → c.Admitted R.vocabulary) (ho : R.origins o) :
    R.halts (Halt.of cause o) := by
  unfold Halt.of
  split
  · exact R.error (hcause _ rfl) ho
  · exact R.fault _
  · exact R.fault _

/-- A cause with the text of something. -/
theorem admitted_of_map {V : Vocabulary} {x : Except Fault γ} {cause : γ → RuntimeCause}
    (h : ∀ a, x = .ok a → (cause a).Admitted V) :
    ∀ c, cause <$> x = .ok c → c.Admitted V := by
  intro c hc
  cases x with
  | error f => cases hc
  | ok a =>
    cases hc
    exact h a rfl

theorem halts_unexpected (expected : List Datatype) (found : Datatype) {o : Origin}
    (ho : R.origins o) : R.halts (Halt.unexpected expected found o) := by
  refine halts_of (fun c hc => ?_) ho
  split at hc
  · cases hc
    trivial
  · cases hc

variable (R)

/-! ## Steps without parts -/

theorem value {p q : Payload} (hp : R.Payloads start p q) (t : Datatype) {o : Origin}
    (ho : R.origins o) :
    R.rel self self' start R.Values (Pure.pure ⟨p, t, o⟩) (Pure.pure ⟨q, t, o⟩) :=
  R.pure ⟨hp, rfl, rfl, ho⟩

theorem fail {cause : Except Fault RuntimeCause} {o : Origin}
    (hcause : ∀ c, cause = .ok c → c.Admitted R.vocabulary) (ho : R.origins o) :
    R.rel self self' start Q (Run.fail cause o) (Run.fail cause o) :=
  R.throw (halts_of hcause ho)

theorem failWith {cause : RuntimeCause} (hcause : cause.Admitted R.vocabulary) {o : Origin}
    (ho : R.origins o) :
    R.rel self self' start Q (Run.fail (.ok cause) o) (Run.fail (.ok cause) o) := by
  refine R.fail (fun c hc => ?_) ho
  cases hc
  exact hcause

theorem fault_rel (f : Fault) : R.rel self self' start Q (Run.fault f) (Run.fault f) :=
  R.throw (R.fault f)

/-- The same computation before two steps. -/
theorem lift_bind {x : Except Fault γ} {f : γ → Run α} {g : γ → Run β}
    (hf : ∀ a, x = .ok a → R.rel self self' start Q (f a) (g a)) :
    R.rel self self' start Q (liftM x >>= f) (liftM x >>= g) := by
  cases x with
  | ok a => exact hf a rfl
  | error e => exact R.throw (R.fault e)

/-- Computations with related results before two steps. -/
theorem matches_bind {S : γ → δ → Prop} {x : Except Fault γ} {y : Except Fault δ}
    (h : Matches S x y) {f : γ → Run α} {g : δ → Run β}
    (hf : ∀ a b, S a b → R.rel self self' start Q (f a) (g b)) :
    R.rel self self' start Q (liftM x >>= f) (liftM y >>= g) := by
  cases h with
  | ok h => exact hf _ _ h
  | error e => exact R.throw (R.fault e)

/-- Less may be known of results. -/
theorem weaken {P : α → β → Machine → Prop} {x : Run α} {y : Run β}
    (h : R.rel self self' start Q x y) (hP : ∀ a b m, R.leads start m → Q a b m → P a b m) :
    R.rel self self' start P x y := by
  have hbind := R.bind (f := Pure.pure) (g := Pure.pure) h fun a b m hm hQ =>
    R.pure (hP a b m hm hQ)
  rwa [bind_pure, bind_pure] at hbind

/-- A check lets pass what is accepted. -/
theorem require (t u : Datatype) {o : Origin} (ho : R.origins o) :
    R.rel self self' start (fun _ _ _ => t.accepts u = .ok true) (Run.require t u o)
      (Run.require t u o) := by
  unfold Run.require
  refine R.lift_bind fun accepted haccepted => ?_
  cases accepted with
  | true => exact R.pure haccepted
  | false => exact R.throw (halts_unexpected _ _ ho)

theorem expect (t : Datatype) {v w : Value} (h : R.Values v w start) :
    R.rel self self' start (fun v w m => R.Values v w m ∧ t.accepts v.datatype = .ok true)
      (Run.expect t v) (Run.expect t w) := by
  unfold Run.expect
  rw [← h.datatype, ← h.origin]
  exact R.bind (R.require t v.datatype h.placed) fun _ _ m hm haccepts =>
    R.pure ⟨h.mono hm, haccepts⟩

/-! ## Operators on values -/

section

variable {v w v' w' : Value} (hv : R.Values v w start) (hv' : R.Values v' w' start) {o : Origin}

include hv hv'

theorem sum (ho : R.origins o) :
    R.rel self self' start R.Values (Semantics.sum v v' o) (Semantics.sum w w' o) := by
  unfold Semantics.sum
  rw [← hv.datatype, ← hv.origin, ← hv'.datatype, ← hv'.origin]
  refine R.lift_bind fun kind _ => ?_
  split
  · refine R.bind (R.require _ _ hv'.placed) fun _ _ m hm _ => ?_
    refine R.bind R.freshObject fun i j m₁ hm₁ hid => ?_
    have hlater := R.leads_trans hm hm₁
    exact R.matches_bind ((hv.mono hlater).payload.add hid (hv'.mono hlater).payload)
      fun _ _ hsum => R.value hsum _ ho
  · exact R.throw (halts_unexpected _ _ hv.placed)

theorem equality :
    R.rel self self' start (fun a b _ => a = b) (Semantics.equality v v')
      (Semantics.equality w w') := by
  unfold Semantics.equality
  rw [← hv.datatype, ← hv.origin, ← hv'.datatype, ← hv'.origin, hv.payload.same hv'.payload]
  refine R.lift_bind fun kind _ => ?_
  split
  · exact R.bind (R.require _ _ hv'.placed) fun _ _ _ _ _ => R.pure rfl
  · exact R.failWith (by trivial) hv.placed

theorem requireNumbers :
    R.rel self self' start (fun _ _ _ => True) (Semantics.requireNumbers v v')
      (Semantics.requireNumbers w w') := by
  unfold Semantics.requireNumbers
  rw [← hv.datatype, ← hv.origin, ← hv'.datatype, ← hv'.origin]
  refine R.bind (R.require _ _ hv.placed) fun _ _ _ _ _ => ?_
  exact R.weaken (R.require _ _ hv'.placed) fun _ _ _ _ _ => trivial

theorem operate (op : Slot BinaryOp) (ho : R.origins o) :
    R.rel self self' start R.Values (Semantics.operate op v v' o)
      (Semantics.operate op w w' o) := by
  unfold Semantics.operate
  split
  · exact R.sum hv hv' ho
  · refine R.bind (R.equality hv hv') ?_
    rintro b _ m hm rfl
    exact R.value (Payload.eqUpTo_bool b) _ ho
  · refine R.bind (R.equality hv hv') ?_
    rintro b _ m hm rfl
    exact R.value (Payload.eqUpTo_bool _) _ ho
  · split
    · refine R.bind (R.requireNumbers hv hv') fun _ _ m hm _ => ?_
      refine R.bind R.freshObject fun i j m₁ hm₁ hid => ?_
      have hlater := R.leads_trans hm hm₁
      exact R.matches_bind
        ((hv.mono hlater).payload.arithmetic hid _ (hv'.mono hlater).payload)
        fun _ _ hresult => R.value hresult _ ho
    · split
      · refine R.bind (R.requireNumbers hv hv') fun _ _ _ _ _ => ?_
        rw [hv.payload.compares _ hv'.payload]
        exact R.lift_bind fun b _ => R.value (Payload.eqUpTo_bool b) _ ho
      · exact R.fault_rel _
  · exact R.lift_bind fun _ _ => R.fault_rel _

end

/-! ## Parts of expressions -/

/-- From a state on, the values of an expression are related. -/
def Computes (start : Machine) (self self' : Option Payload) (F E : Engine) (n : Node) : Prop :=
  ∀ m, R.leads start m → R.rel self self' m R.Values (F.compute self n) (E.compute self' n)

/-- So they are however it is evaluated. -/
def Evaluates (start : Machine) (self self' : Option Payload) (F E : Engine) (n : Node) : Prop :=
  ∀ mode m, R.leads start m →
    R.rel self self' m R.Values (F.evaluate self mode n) (E.evaluate self' mode n)

section

variable {R} {F E : Engine} {n : Node}

theorem Computes.now (h : R.Computes start self self' F E n) :
    R.rel self self' start R.Values (F.compute self n) (E.compute self' n) :=
  h start (R.leads_refl start)

theorem Computes.later (h : R.Computes start self self' F E n) (hm : R.leads start m) :
    R.Computes m self self' F E n :=
  fun _ hm₁ => h _ (R.leads_trans hm hm₁)

variable (R)

/-- What is computed for a datatype is accepted by it. -/
theorem computeAs (h : R.Computes start self self' F E n) (t : Datatype) :
    R.rel self self' start (fun v w m => R.Values v w m ∧ t.accepts v.datatype = .ok true)
      (F.computeAs self t n) (E.computeAs self' t n) :=
  R.bind h.now fun _ _ _ _ hv => R.expect t hv

theorem computeAll {ns : List Node} (h : ∀ n ∈ ns, R.Computes start self self' F E n) :
    R.rel self self' start (fun vs ws m => List.Forall₂ (fun v w => R.Values v w m) vs ws)
      (F.computeAll self ns) (E.computeAll self' ns) := by
  induction ns generalizing start with
  | nil => exact R.pure .nil
  | cons n ns ih =>
    refine R.bind (h n List.mem_cons_self).now fun v w m hm hv => ?_
    have hns := ih fun k hk => (h k (List.mem_cons_of_mem n hk)).later hm
    exact R.bind hns fun vs ws m₁ hm₁ hvs => R.pure (.cons (hv.mono hm₁) hvs)

/-! ## Operators -/

section

variable {l r : Node} (hl : R.Computes start self self' F E l)
  (hr : R.Computes start self self' F E r) {o : Origin} (ho : R.origins o)

include hl hr ho

theorem connective (decisive : Bool) :
    R.rel self self' start R.Values (Semantics.connective F self decisive l r o)
      (Semantics.connective E self' decisive l r o) := by
  refine R.bind (R.computeAs hl _) fun v w m hm hv => ?_
  rw [hv.1.payload.truth]
  split
  · exact R.value (Payload.eqUpTo_bool _) _ ho
  · exact R.bind (R.computeAs (hr.later hm) _) fun _ _ _ _ hv' => R.value hv'.1.payload _ ho

theorem binary (op : Slot BinaryOp) :
    R.rel self self' start R.Values (Semantics.binary F self op l r o)
      (Semantics.binary E self' op l r o) := by
  unfold Semantics.binary
  split
  · exact R.connective hl hr ho _
  · exact R.connective hl hr ho _
  · refine R.bind hl.now fun v w m hm hv => ?_
    exact R.bind (hr m hm) fun v' w' m₁ hm₁ hv' => R.operate (hv.mono hm₁) hv' op ho

end

theorem unary (h : R.Computes start self self' F E n) (op : Slot UnaryOp) {o : Origin}
    (ho : R.origins o) :
    R.rel self self' start R.Values (Semantics.unary F self op n o)
      (Semantics.unary E self' op n o) := by
  refine R.bind (R.computeAs h _) fun v w m hm hv => ?_
  split
  · refine R.bind R.freshObject fun i j m₁ hm₁ hid => ?_
    exact R.matches_bind ((hv.1.mono hm₁).payload.negate hid) fun _ _ hp => R.value hp _ ho
  · exact R.value hv.1.payload _ ho

/-! ## Built-in words -/

theorem requireSequence (t : Datatype) {o : Origin} (ho : R.origins o) :
    R.rel self self' start (fun _ _ _ => True) (Semantics.requireSequence t o)
      (Semantics.requireSequence t o) := by
  unfold Semantics.requireSequence
  refine R.lift_bind fun isText _ => R.lift_bind fun isArray _ => ?_
  split
  · exact R.pure trivial
  · exact R.throw (halts_unexpected _ _ ho)

theorem spelledNumber {p q : Payload} (h : R.Payloads m p q) :
    Semantics.spelledNumber p = Semantics.spelledNumber q := by
  cases h <;> rfl

theorem spelledBoolean {p q : Payload} (h : R.Payloads m p q) :
    Semantics.spelledBoolean p = Semantics.spelledBoolean q := by
  cases h <;> rfl

/-- A text that spells nothing is an error at the operand. -/
theorem failText (cause : Text → RuntimeCause)
    (hcause : ∀ t, R.vocabulary.Admits t → (cause t).Admitted R.vocabulary) {p q : Payload}
    (h : R.Payloads m p q) {n : Node} (hn : R.nodes n) :
    R.rel self self' start Q (do Run.fail (cause <$> p.plain) (← Semantics.originOf n))
      (do Run.fail (cause <$> q.plain) (← Semantics.originOf n)) := by
  rw [← h.plain]
  refine R.lift_bind fun o ho => R.fail (admitted_of_map fun t ht => ?_) (placed_of_originOf hn ho)
  exact hcause t (h.admits_of_plain ht)

theorem onText (word : Builtin) {p q : Payload} (h : R.Payloads start p q) {n : Node}
    (hn : R.nodes n) {o : Origin} (ho : R.origins o) :
    R.rel self self' start R.Values (Semantics.onText word p n o)
      (Semantics.onText word q n o) := by
  unfold Semantics.onText
  rw [R.spelledNumber h, R.spelledBoolean h]
  split
  · refine R.lift_bind fun x _ => ?_
    split
    · exact R.value (Payload.eqUpTo_number _) _ ho
    · exact R.failText .notNumber (fun _ => id) h hn
  · split
    · exact R.value (Payload.eqUpTo_bool _) _ ho
    · exact R.failText .notBoolean (fun _ => id) h hn
  · exact R.lift_bind fun _ _ => R.value (Payload.eqUpTo_bool _) _ ho
  · exact R.value (Payload.eqUpTo_bool _) _ ho

/-- A built-in word other than `input`. -/
theorem builtin (hn : R.nodes n) (h : R.Computes start self self' F E n) {word : Builtin}
    (hword : word ≠ .input) {o : Origin} (ho : R.origins o) :
    R.rel self self' start R.Values (Semantics.builtin F self word n o)
      (Semantics.builtin E self' word n o) := by
  unfold Semantics.builtin
  split
  · exact absurd rfl hword
  · refine R.bind h.now fun v w m hm hv => ?_
    split
    · rw [← hv.datatype, ← hv.origin, hv.payload.length]
      refine R.bind (R.requireSequence _ hv.placed) fun _ _ _ _ _ => ?_
      exact R.lift_bind fun n _ => R.value (Payload.eqUpTo_number _) _ ho
    · exact R.matches_bind hv.rendered fun _ _ hp => R.value hp _ ho
    · exact R.bind (R.expect _ hv) fun _ _ _ _ hv' => R.onText _ hv'.1.payload hn ho

/-! ## Literals and elements -/

theorem furtherElements {ns : List Node} (h : ∀ n ∈ ns, R.Computes start self self' F E n)
    (t : Datatype) :
    R.rel self self' start (fun ps qs m => List.Forall₂ (R.Payloads m) ps qs)
      (Semantics.furtherElements F self t ns) (Semantics.furtherElements E self' t ns) := by
  induction ns generalizing start with
  | nil => exact R.pure .nil
  | cons n ns ih =>
    refine R.bind (R.computeAs (h n List.mem_cons_self) t) fun v w m hm hv => ?_
    have hns := ih fun k hk => (h k (List.mem_cons_of_mem n hk)).later hm
    exact R.bind hns fun ps qs m₁ hm₁ hps => R.pure (.cons (hv.1.mono hm₁).payload hps)

theorem array {es : Slot (List Node)}
    (h : ∀ ns, Node.series es = .ok ns → ∀ n ∈ ns, R.Computes start self self' F E n)
    {o : Origin} (ho : R.origins o) :
    R.rel self self' start R.Values (Semantics.array F self es o)
      (Semantics.array E self' es o) := by
  unfold Semantics.array
  split
  · exact R.value (.list .nil) _ ho
  · refine R.lift_bind fun ns hns => ?_
    cases ns with
    | nil => exact R.value (.list .nil) _ ho
    | cons n ns =>
      refine R.bind (h _ hns n List.mem_cons_self).now fun v w m hm hv => ?_
      rw [← hv.datatype]
      have hrest := fun k hk => (h _ hns k (List.mem_cons_of_mem n hk)).later hm
      refine R.bind (R.furtherElements hrest v.datatype) fun ps qs m₁ hm₁ hps => ?_
      exact R.value (.list (.cons (hv.mono hm₁).payload hps)) _ ho

/-- An index that stands for no position is an error where the index is. -/
theorem halts_position {v w : Value} (h : R.Values v w m) {length : Nat} {e : Halt}
    (he : v.position length = .error e) : R.halts e := by
  unfold Value.position at he
  cases hwhole : v.payload.wholeIndex with
  | error f =>
    rw [hwhole] at he
    cases he
    exact R.fault f
  | ok whole =>
    rw [hwhole] at he
    dsimp only [liftM, monadLift, MonadLift.monadLift] at he
    rw [ok_bind] at he
    split at he
    · cases he
    · cases he
      exact halts_of (admitted_of_map fun _ => h.payload.admits_of_numberText) h.placed

theorem position {v w : Value} (h : R.Values v w m) (length : Nat) :
    R.rel self self' start (fun i j _ => i = j) (liftM (v.position length))
      (liftM (w.position length)) := by
  rw [← h.position length]
  cases hposition : v.position length with
  | ok i => exact R.pure rfl
  | error e => exact R.throw (R.halts_position h hposition)

theorem index {t i : Node} (ht : R.Computes start self self' F E t)
    (hi : R.Computes start self self' F E i) {o : Origin} (ho : R.origins o) :
    R.rel self self' start R.Values (Semantics.index F self t i o)
      (Semantics.index E self' t i o) := by
  unfold Semantics.index
  refine R.bind ht.now fun v w m hm hv => ?_
  rw [← hv.datatype, ← hv.origin, hv.payload.length]
  refine R.bind (R.requireSequence _ hv.placed) fun _ _ m₁ hm₁ _ => ?_
  refine R.bind (R.computeAs (hi.later (R.leads_trans hm hm₁)) _) fun j j' m₂ hm₂ hj => ?_
  refine R.lift_bind fun length _ => R.bind (R.position hj.1 length) ?_
  rintro position _ m₃ hm₃ rfl
  have hlater := R.leads_trans (R.leads_trans hm₁ hm₂) hm₃
  refine R.matches_bind ((hv.mono hlater).payload.item position) fun e e' he => ?_
  refine R.lift_bind fun isText _ => ?_
  split
  · exact R.value he _ ho
  · exact R.lift_bind fun _ _ => R.value he _ ho

/-! ## Variables, closures and instructions -/

theorem selfValue (hself : R.Selves start self self') {o : Origin} (ho : R.origins o) :
    R.rel self self' start R.Values (Semantics.selfValue self o)
      (Semantics.selfValue self' o) := by
  cases hself with
  | none => exact R.failWith (by trivial) ho
  | @some p q hp =>
    cases hp with
    | atom hp hadmits =>
      cases p with
      | closure => cases hp
      | _ => exact R.lift_bind fun _ _ => R.value (.atom hp hadmits) _ ho
    | list hps => exact R.lift_bind fun _ _ => R.value (.list hps) _ ho
    | closure c hc => exact R.lift_bind fun _ _ => R.value (.closure c hc) _ ho
    | nan h => exact R.lift_bind fun _ _ => R.value (.nan h) _ ho

theorem named (hself : R.Selves start self self') {x : Name} {o : Origin}
    (hn : R.nodes (.name x o)) :
    R.rel self self' start R.Values (Semantics.named self x o) (Semantics.named self' x o) := by
  have ho := R.placed hn rfl
  by_cases hx : x = .proper "self"
  · subst hx
    exact R.selfValue hself ho
  · rw [Semantics.named_eq self hx, Semantics.named_eq self' hx]
    refine R.bind (R.lookup hn hx) ?_
    rintro _ _ m hm (⟨hpayload, hdatatype⟩ | _)
    · exact R.pure ⟨hpayload, hdatatype, rfl, ho⟩
    · exact R.fail (admitted_of_map fun _ _ => trivial) ho

theorem closure {ps : Slot (List Param)} {r : Slot Datatype} {b : Node} {o : Origin}
    (hn : R.nodes (.lambda .closure ps r b o)) :
    R.rel self self' start R.Values (Semantics.closure ps r b o)
      (Semantics.closure ps r b o) := by
  rw [Semantics.closure_eq]
  refine R.bind (R.makeClosure hn) fun c d m hm hc => ?_
  cases hc with
  | atom hc => cases hc
  | closure c hc => exact R.lift_bind fun _ _ => R.value (.closure c hc) _ (R.placed hn rfl)

theorem heldValue {n : Node} (hn : R.nodes n) :
    R.rel self self' start R.Values (Semantics.held n) (Semantics.held n) :=
  R.lift_bind fun _ ho => R.value (Payload.eqUpTo_ofNode (R.held hn)) _ (placed_of_originOf hn ho)

/-- The value of a node that calls, runs and reads nothing, apart from its operands. -/
theorem expression (hself : R.Selves start self self') {n : Node} (hn : R.nodes n)
    (heffect : n.hasEffect = false)
    (hoperands : ∀ k, n.Operand k → R.Evaluates start self self' F E k) (mode : Mode) :
    R.rel self self' start R.Values (Semantics.expression F self mode n)
      (Semantics.expression E self' mode n) := by
  have hcompute : ∀ {k}, n.Operand k → R.Computes start self self' F E k :=
    fun hk m hm => hoperands _ hk .compute m hm
  cases n with
  | literal v k o =>
    exact R.value (Payload.eqUpTo_ofDatum v (R.literal hn)) _ (R.placed hn rfl)
  | lambda style ps r b o =>
    cases style with
    | function =>
      have hnode : R.Payloads start (.node (.lambda .function ps r b o))
          (.node (.lambda .function ps r b o)) := .atom rfl (R.held hn)
      exact R.lift_bind fun _ _ => R.value hnode _ (R.placed hn rfl)
    | closure => exact R.closure hn
  | name x o => exact R.named hself hn
  | group e o =>
    have he := hoperands e ⟨rfl, .group e o⟩ mode start (R.leads_refl start)
    exact R.bind he fun v w m hm hv => R.pure (hv.withOrigin (R.placed hn rfl))
  | index t i o =>
    exact R.index (hcompute ⟨rfl, .indexed t i o⟩) (hcompute ⟨rfl, .position t i o⟩)
      (R.placed hn rfl)
  | unary op e o => exact R.unary (hcompute ⟨rfl, .operand op e o⟩) op (R.placed hn rfl)
  | binary op l r o =>
    exact R.binary (hcompute ⟨rfl, .left op l r o⟩) (hcompute ⟨rfl, .right op l r o⟩)
      (R.placed hn rfl) op
  | array es o =>
    cases mode with
    | compute =>
      exact R.array (fun ns hns k hk => hcompute ⟨rfl, .element hns hk o⟩) (R.placed hn rfl)
    | hold => exact R.heldValue hn
  | builtin word e o =>
    cases mode with
    | compute =>
      have hword : word ≠ .input := by
        rintro rfl
        cases heffect
      have he : (Node.builtin word e o).Operand e := ⟨rfl, .word (.inl hword) o⟩
      exact R.builtin (R.operand hn he) (hcompute he) hword (R.placed hn rfl)
    | hold => exact R.heldValue hn
  | call | exec => cases heffect
  | _ => exact R.heldValue hn

end

end StepRelation

end Mandate
