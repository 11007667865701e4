/-
  Mandate.Proofs.RunRelations

  Two runs side by side, rule by rule: calls and instructions, and the rules tied
  together.

  A `RunRelation` relates the steps of evaluations (`StepRelation`) and those that calls
  and instructions are made of besides: assigning, printing, reading lines, and running
  in a scope of one's own. Each rule then comes to related results if the engines that
  run its parts do.

    * `RunRelation.Engines` says so of two engines, and `RunRelation.Engines.expression`
      and `RunRelation.Engines.instruction` of the engines with one unit of fuel more.
    * `RunRelation.engine`: with any amount of fuel, the engine is related to itself.
-/

import Mandate.Proofs.StepRelations

namespace Mandate

/-! ## Callees -/

/-- What a payload is when it is called. -/
inductive Payload.Called : Payload → Callee → Prop where
  | function (style : LambdaStyle) (ps : Slot (List Param)) (r : Slot Datatype) (b : Node)
      (o : Origin) : Called (.node (.lambda style ps r b o)) ⟨.function, ps, r, b, []⟩
  | closure (c : Closure) :
      Called (.closure c) ⟨.closure, c.params, c.returns, c.body, c.scope⟩

/-! ## Relations between runs -/

/-- What programs are made of: the trees that may be evaluated and assigned to, and what may occur
in values. -/
structure Code where
  vocabulary : Vocabulary
  /-- Which trees may be evaluated. -/
  nodes : Node → Prop
  /-- Which trees may be assigned to. -/
  targets : Node → Prop
  /-- With which parameters a callee may be called: its own, and maybe others. -/
  takes : Callee → List (Slot Param) → Prop
  literal : ∀ {v k o}, nodes (.literal v k o) → vocabulary.data v
  held : ∀ {n}, nodes n → vocabulary.nodes n
  placed : ∀ {n o}, nodes n → n.origin? = some o → vocabulary.origins o
  part : ∀ {n k}, nodes n → n.Part k → nodes k
  runs : ∀ {n}, vocabulary.nodes n → nodes n
  /-- Only trees are run without a place. -/
  runnable : ∀ {n}, nodes n → (∃ t, Payload.ofNode n = .node t) ∨
    vocabulary.origins Origin.none
  target : ∀ {t v o}, nodes (.assign t v o) → targets t
  target_base : ∀ {t i o}, targets (.indexTarget t i o) → targets t
  target_index : ∀ {t i o}, targets (.indexTarget t i o) → nodes i
  target_placed : ∀ {t o}, targets t → t.origin? = some o → vocabulary.origins o
  own_params : ∀ {c ps}, Param.series c.params = .ok ps → takes c ps

/-- All trees. -/
def Code.all : Code where
  vocabulary := .all
  nodes _ := True
  targets _ := True
  takes _ _ := True
  literal _ := trivial
  held _ := trivial
  placed _ _ := trivial
  part _ _ := trivial
  runs _ := trivial
  runnable _ := .inr trivial
  target _ := trivial
  target_base _ := trivial
  target_index _ := trivial
  target_placed _ _ := trivial
  own_params _ := trivial

/-- How the steps of two runs are related. -/
structure RunRelation extends StepRelation, Code where
  /-- Which places correspond. -/
  places : Machine → Place → Place → Prop
  /-- What is known of a place of the first run when a value of a datatype was read there. -/
  reads : Machine → Place → Datatype → Prop
  /-- Which scopes correspond in calls of payloads. -/
  scopes : Machine → Payload → Payload → Scope → Scope → Prop
  /-- Whether the first run may be short of fuel where the second is not. -/
  lenient : Prop
  body_runs : ∀ {m c i s}, (objects m).closures c i s → nodes c.body
  places_mono : ∀ {m m₁ p q}, leads m m₁ → places m p q → places m₁ p q
  scopes_mono : ∀ {m m₁ p q s t}, leads m m₁ → scopes m p q s t → scopes m₁ p q s t
  /-- An element of an array is a place too. -/
  element : ∀ {m m₁ p q t v w}, places m p q → reads m p t →
    Datatype.anyArray.accepts t = .ok true → leads m m₁ → toStepRelation.Values v w m₁ →
      places m₁ (.element p v) (.element q w)
  exhausted : halts .exhausted
  short : ∀ {α β : Type} {self self' start} {Q : α → β → Machine → Prop} {y}, lenient →
    rel self self' start Q (MonadExcept.throw .exhausted) y
  note : ∀ {self self' start} level line,
    rel self self' start (fun _ _ _ => True) (Run.note level line) (Run.note level line)
  print : ∀ {self self' start line}, vocabulary.Admits line →
    rel self self' start (fun _ _ _ => True) (Run.print line) (Run.print line)
  prompt : ∀ {self self' start p q line}, toStepRelation.Payloads start p q →
    vocabulary.Admits line →
      rel self self' start (fun _ _ _ => True)
        (modify fun m => { m with console := m.console.ask p line })
        (modify fun m => { m with console := m.console.ask q line })
  readLine : ∀ {self self' start},
    rel self self' start (fun s t _ => s = t ∧ vocabulary.Admits s) Run.readLine Run.readLine
  cellFor : ∀ {self self' start name o}, targets (.nameTarget name o) →
    rel self self' start (fun a b m => places m (.cell a) (.cell b)) (Run.cellFor name o)
      (Run.cellFor name o)
  read : ∀ {self self' start p q}, places start p q →
    rel self self' start (fun v w m => toStepRelation.Values v w m ∧ reads m p v.datatype)
      (Run.read p) (Run.read q)
  /-- A value that is computed after a place was read is assigned to it. -/
  write : ∀ {self self' start p q t x y}, places start p q → reads start p t →
    rel self self' start
      (fun v w m => toStepRelation.Values v w m ∧ t.accepts v.datatype = .ok true) x y →
      rel self self' start (fun _ _ _ => True) (x >>= Run.write p) (y >>= Run.write q)
  bindAll : ∀ {self self' start p q c d params names vs ws},
    toStepRelation.Payloads start p q → p.Called c → q.Called d →
      takes c params → Param.names params = .ok names →
        List.Forall₂ (fun v w => toStepRelation.Values v w start) vs ws →
          rel self self' start (fun s t m => scopes m p q s t)
            (Run.bindAll c.scope (names.zip vs)) (Run.bindAll d.scope (names.zip ws))
  within : ∀ {α β : Type} {self self' start p q s t} {Q : α → β → Machine → Prop} {x y},
    scopes start p q s t → (∀ a b m m₁, leads m m₁ → Q a b m → Q a b m₁) →
      (∀ m, leads start m → rel (some p) (some q) m Q x y) →
        rel self self' start Q (Run.within s x) (Run.within t y)
  body : ∀ {α β : Type} {self self' start} {Q : α → β → Machine → Prop} {x y},
    rel self self' start Q x y → rel self self' start Q (Run.body x) (Run.body y)

namespace RunRelation

variable (R : RunRelation)

/-- What is known of what instructions came to. -/
abbrev Results (v? w? : Option Value) (m : Machine) : Prop :=
  Option.Rel (fun v w => R.Values v w m) v? w?

variable {R} in
theorem results_mono (v? w? : Option Value) (m m₁ : Machine) (hm : R.leads m m₁)
    (h : R.Results v? w? m) : R.Results v? w? m₁ := by
  cases h with
  | none => exact .none
  | some hv => exact .some (hv.mono hm)

/-- Running parts of a program with two engines comes to related results. -/
structure Engines (F E : Engine) : Prop where
  limit : F.limit = E.limit ∨ R.lenient ∧ F.limit ≤ E.limit
  evaluate : ∀ {start self self'}, R.Selves start self self' → ∀ (mode : Mode) {n : Node},
    R.nodes n → R.rel self self' start R.Values (F.evaluate self mode n) (E.evaluate self' mode n)
  perform : ∀ {start self self'}, R.Selves start self self' → ∀ {p q : Payload},
    R.Payloads start p q → ∀ {o : Origin}, (∃ t, p = .node t) ∨ R.origins o →
      R.rel self self' start R.Results (F.perform self p o) (E.perform self' q o)

variable {R} {start m m₁ : Machine} {self self' : Option Payload} {F E : Engine}

/-! ## Callees -/

/-- What is called on both sides: the same, up to what the body sees. -/
structure Callees (R : RunRelation) (v w : Value) (c d : Callee) : Prop where
  left : v.payload.Called c
  right : w.payload.Called d
  style : c.style = d.style
  params : c.params = d.params
  returns : c.returns = d.returns
  body : c.body = d.body
  runs : R.nodes c.body

variable (R)

theorem callee {v w : Value} (h : R.Values v w start) :
    R.rel self self' start (fun c d _ => R.Callees v w c d) (Semantics.callee v)
      (Semantics.callee w) := by
  obtain ⟨p, t, o⟩ := v
  obtain ⟨q, t', o'⟩ := w
  have hpayload : R.Payloads start p q := h.payload
  obtain rfl : t = t' := h.datatype
  obtain rfl : o = o' := h.origin
  unfold Semantics.callee
  refine R.lift_bind fun kind _ => ?_
  -- The datatype decides what is expected of the payload, which need not fit it.
  split
  · cases hpayload with
    | @atom p hp hadmits =>
      cases p with
      | node n =>
        have hn := R.runs (n := n) hadmits
        cases n with
        | lambda style ps r b o =>
          have hbody := R.part hn (.body style ps r b o)
          exact R.pure ⟨.function .., .function .., rfl, rfl, rfl, rfl, hbody⟩
        | _ => exact R.fault_rel _
      | _ => exact R.fault_rel _
    | list | closure | nan => exact R.fault_rel _
  · cases hpayload with
    | @atom p hp hadmits =>
      cases p with
      | closure => cases hp
      | _ => exact R.fault_rel _
    | list | nan => exact R.fault_rel _
    | closure c hc =>
      exact R.pure ⟨.closure c, .closure _, rfl, rfl, rfl, rfl, R.body_runs hc⟩
  · exact R.throw (StepRelation.halts_unexpected _ _ h.placed)

theorem checkArguments (params : List (Slot Param)) {vs ws : List Value}
    (h : List.Forall₂ (fun v w => R.Values v w start) vs ws) :
    R.rel self self' start (fun _ _ _ => True) (Semantics.checkArguments params vs)
      (Semantics.checkArguments params ws) := by
  induction vs generalizing params ws start with
  | nil =>
    cases h
    cases params <;> exact R.pure trivial
  | cons v vs ih =>
    obtain ⟨w, ws, hv, hvs, rfl⟩ := List.forall₂_cons_left_iff.1 h
    cases params with
    | nil => exact R.pure trivial
    | cons p params =>
      unfold Semantics.checkArguments
      rw [← hv.datatype, ← hv.origin]
      refine R.lift_bind fun t _ => R.bind (R.require _ _ hv.placed) fun _ _ m hm _ => ?_
      exact ih params (hvs.imp fun _ _ hv => hv.mono hm)

theorem ask {p q : Payload} (h : R.Payloads start p q) :
    R.rel self self' start (fun _ _ _ => True) (Run.ask p) (Run.ask q) := by
  unfold Run.ask
  rw [h.truth, ← h.plain]
  split
  · exact R.lift_bind fun line hline => R.prompt h (h.admits_of_plain hline)
  · exact R.pure trivial

variable {R}

namespace Engines

variable (h : R.Engines F E) (hself : R.Selves start self self')

include h hself

/-! ## Parts of programs -/

theorem compute {n : Node} (hn : R.nodes n) : R.Computes start self self' F E n :=
  fun _ hm => h.evaluate (hself.mono hm) .compute hn

theorem run {n : Node} (hn : R.nodes n) :
    R.rel self self' start R.Results (F.run self n) (E.run self' n) :=
  h.perform hself (Payload.eqUpTo_ofNode (R.held hn)) (R.runnable hn)

/-! ## Reading lines -/

theorem input {n : Node} {o : Origin} (hn : R.nodes (.builtin .input n o)) :
    R.rel self self' start R.Values (Semantics.input F self n o)
      (Semantics.input E self' n o) := by
  have hread : ∀ {start}, R.rel self self' start R.Values
      (do return ⟨.text (← Run.readLine), Datatype.string, o⟩)
      (do return ⟨.text (← Run.readLine), Datatype.string, o⟩) := by
    intro start
    refine R.bind R.readLine ?_
    rintro line _ m hm ⟨rfl, hadmits⟩
    exact R.value (Payload.eqUpTo_text hadmits) _ (R.placed hn rfl)
  unfold Semantics.input
  split
  · exact hread
  · next hnull =>
    have hpart := R.part hn (.word (.inr fun h => hnull h) o)
    refine R.bind (R.computeAs (h.compute hself hpart) _) fun v w m hm hv => ?_
    exact R.bind (R.ask hv.1.payload) fun _ _ _ _ _ => hread

/-! ## Calls -/

omit hself in
/-- A call with the values of its arguments. -/
theorem invoke {v w : Value} (hv : R.Values v w start) {c d : Callee} (hc : R.Callees v w c d)
    {params : List (Slot Param)} (hparams : R.takes c params)
    {vs ws : List Value} (hvs : List.Forall₂ (fun v w => R.Values v w start) vs ws) {o : Origin}
    (ho : R.origins o) :
    R.rel self self' start R.Values (Semantics.invoke F v c params vs o)
      (Semantics.invoke E w d params ws o) := by
  have hcallLine : Semantics.callLine v vs o = Semantics.callLine w ws o := by
    unfold Semantics.callLine
    rw [hv.datatype, Value.EqUpTo.shownAll hvs]
  unfold Semantics.invoke
  rw [← hcallLine, ← hc.style, ← hc.returns, ← hc.body]
  refine R.bind (R.checkArguments params hvs) fun _ _ m₁ hm₁ _ => ?_
  refine R.lift_bind fun names hnames => ?_
  have hargs := hvs.imp fun _ _ hv => hv.mono hm₁
  refine R.bind (R.bindAll (hv.mono hm₁).payload hc.left hc.right hparams hnames hargs)
    fun s t m₂ hm₂ hst => R.lift_bind fun line _ => ?_
  refine R.bind (R.note 2 line) fun _ _ m₃ hm₃ _ => ?_
  -- The body runs in scopes that correspond, and there `self` is what is called.
  have hcalled : R.Selves m₃ (some v.payload) (some w.payload) :=
    .some (hv.mono (R.leads_trans (R.leads_trans hm₁ hm₂) hm₃)).payload
  have hbody := fun m (hm : R.leads m₃ m) => h.run (hcalled.mono hm) hc.runs
  refine R.bind (R.within (R.scopes_mono hm₃ hst) results_mono hbody) ?_
  rintro _ _ m₄ hm₄ (hresult | _)
  · next result result' =>
    have hreturnLine : Semantics.returnLine result o = Semantics.returnLine result' o := by
      unfold Semantics.returnLine
      rw [hresult.shown]
    dsimp only
    rw [← hreturnLine, ← hresult.datatype, ← hresult.origin]
    refine R.bind (R.require _ _ hresult.placed) fun _ _ m₅ hm₅ _ => ?_
    refine R.lift_bind fun line _ => R.bind (R.note 2 line) fun _ _ m₆ hm₆ _ => ?_
    exact R.pure ((hresult.mono (R.leads_trans hm₅ hm₆)).withOrigin ho)
  · exact R.failWith (by cases c.style <;> trivial) ho

theorem call {f : Node} {args : Slot (List Node)} {o : Origin} (hn : R.nodes (.call f args o)) :
    R.rel self self' start R.Values (Semantics.call F self f args o)
      (Semantics.call E self' f args o) := by
  have ho := R.placed hn rfl
  unfold Semantics.call
  refine R.bind (h.compute hself (R.part hn (.function f args o))).now fun v w m₁ hm₁ hv => ?_
  refine R.bind (R.callee hv) fun c d m₂ hm₂ hc => ?_
  rw [← hc.params]
  refine R.lift_bind fun params hparams => R.lift_bind fun ns hns => ?_
  split
  · have hself₂ := hself.mono (R.leads_trans hm₁ hm₂)
    have hargs := R.computeAll fun n hn' => h.compute hself₂ (R.part hn (.argument f hns hn' o))
    refine R.bind hargs fun vs ws m₃ hm₃ hvs => ?_
    exact h.invoke (hv.mono (R.leads_trans hm₂ hm₃)) hc (R.own_params hparams) hvs ho
  · exact R.failWith (by trivial) ho

/-! ## Expressions -/

theorem exec {n : Node} {o : Origin} (hn : R.nodes (.exec n o)) :
    R.rel self self' start R.Values (Semantics.exec F self n) (Semantics.exec E self' n) := by
  have hpart := R.part hn (.exec n o)
  unfold Semantics.exec
  refine R.bind (h.run hself hpart) ?_
  rintro _ _ m hm (hv | _)
  · exact R.pure hv
  · exact R.lift_bind fun _ ho => R.failWith (by trivial) (R.placed_of_originOf hpart ho)

/-- The value of a node. -/
theorem expression (mode : Mode) {n : Node} (hn : R.nodes n) :
    R.rel self self' start R.Values (Semantics.expression F self mode n)
      (Semantics.expression E self' mode n) := by
  cases heffect : n.hasEffect with
  | false =>
    refine R.expression hself hn heffect (fun k hk mode m hm => ?_) mode
    exact h.evaluate (hself.mono hm) mode (R.operand hn hk)
  | true =>
    cases n with
    | call f args o => exact h.call hself hn
    | exec e o =>
      cases mode with
      | compute => exact h.exec hself hn
      | hold => exact R.heldValue hn
    | builtin word e o =>
      cases word with
      | input =>
        cases mode with
        | compute => exact h.input hself hn
        | hold => exact R.heldValue hn
      | _ => cases heffect
    | _ => cases heffect

/-! ## Assignment -/

/-- The place of a target, by recursion along the targets in it. -/
theorem place {t : Node} (ht : R.targets t) :
    R.rel self self' start (fun p q m => R.places m p q) (Semantics.place F self t)
      (Semantics.place E self' t) := by
  induction t using Semantics.place.induct generalizing start with
  | case1 name o =>
    exact R.bind (R.cellFor ht) fun _ _ _ _ hp => R.pure hp
  | case2 target i o ih =>
    unfold Semantics.place
    refine R.bind (ih hself (R.target_base ht)) fun base base' m₁ hm₁ hbase => ?_
    refine R.bind (R.read hbase) fun v w m₂ hm₂ hv => ?_
    rw [← hv.1.datatype]
    refine R.lift_bind fun isArray harray => ?_
    cases isArray with
    | false =>
      refine R.lift_bind fun place hplace => R.throw (StepRelation.halts_unexpected _ _ ?_)
      unfold Semantics.originOf at hplace
      split at hplace
      · next horigin =>
        cases hplace
        exact R.target_placed (R.target_base ht) horigin
      · cases hplace
    | true =>
      have hindex := h.compute (hself.mono (R.leads_trans hm₁ hm₂)) (R.target_index ht)
      exact R.bind (R.computeAs hindex _) fun j j' m₃ hm₃ hj =>
        R.pure (R.element (R.places_mono hm₂ hbase) hv.2 harray hm₃ hj.1)
  | case3 t hname hindex =>
    rw [Semantics.place, Semantics.place]
    · exact R.fault_rel _
    all_goals assumption

theorem assign {t v : Node} {o : Origin} (hn : R.nodes (.assign t v o)) :
    R.rel self self' start (fun _ _ _ => True) (Semantics.assign F self t v)
      (Semantics.assign E self' t v) := by
  unfold Semantics.assign
  refine R.bind (h.place hself (R.target hn)) fun p q m₁ hm₁ hp => ?_
  refine R.bind (R.read hp) fun old old' m₂ hm₂ hold => ?_
  rw [← hold.1.datatype]
  have hvalue := h.compute (hself.mono (R.leads_trans hm₁ hm₂)) (R.part hn (.assigned t v o))
  exact R.write (R.places_mono hm₂ hp) hold.2 (R.computeAs hvalue _)

/-! ## Printing -/

theorem printedAll {ns : List Node} (hns : ∀ n ∈ ns, R.nodes n) :
    R.rel self self' start (fun s t _ => s = t ∧ R.vocabulary.Admits s)
      (Semantics.printedAll F self ns) (Semantics.printedAll E self' ns) := by
  induction ns generalizing start with
  | nil => exact R.pure ⟨rfl, fun _ h => absurd h List.not_mem_nil⟩
  | cons n ns ih =>
    refine R.bind (h.compute hself (hns n List.mem_cons_self)).now fun v w m hm hv => ?_
    refine R.matches_bind hv.printed ?_
    rintro s _ ⟨rfl, hs⟩
    have hrest := ih (hself.mono hm) fun k hk => hns k (List.mem_cons_of_mem n hk)
    refine R.bind hrest ?_
    rintro rest _ m₁ hm₁ ⟨rfl, hrest⟩
    exact R.pure ⟨rfl, hs.append hrest⟩

/-! ## Control -/

theorem sequence {o : Origin} (ho : R.origins o) {ps qs : List Payload}
    (hps : List.Forall₂ (R.Payloads start) ps qs) :
    R.rel self self' start R.Results (Semantics.sequence F self o ps)
      (Semantics.sequence E self' o qs) := by
  induction ps generalizing start qs with
  | nil =>
    cases hps
    exact R.pure .none
  | cons p ps ih =>
    obtain ⟨q, qs, hp, hrest, rfl⟩ := List.forall₂_cons_left_iff.1 hps
    refine R.bind (h.perform hself hp (.inr ho)) ?_
    rintro _ _ m hm (hv | _)
    · exact R.pure (.some hv)
    · exact ih (hself.mono hm) (StepRelation.payloads_mono hrest hm)

theorem condition {c : Node} (hc : R.nodes c) :
    R.rel self self' start (fun a b _ => a = b) (Semantics.condition F self c)
      (Semantics.condition E self' c) :=
  R.bind (R.computeAs (h.compute hself hc) _) fun _ _ _ _ hv => R.pure hv.1.payload.truth

/-- `while`, where the first run may be given fewer rounds if it may be short of fuel. -/
theorem repeatWhile {c b : Node} (hc : R.nodes c) (hb : R.nodes b) {rounds rounds' : Nat}
    (hrounds : rounds = rounds' ∨ R.lenient ∧ rounds ≤ rounds') :
    R.rel self self' start R.Results (Semantics.repeatWhile F self c b rounds)
      (Semantics.repeatWhile E self' c b rounds') := by
  induction rounds generalizing rounds' start with
  | zero =>
    rcases hrounds with rfl | ⟨hlenient, -⟩
    · exact R.throw R.exhausted
    · exact R.short hlenient
  | succ rounds ih =>
    obtain ⟨more, rfl⟩ : ∃ more, rounds' = more + 1 := ⟨rounds' - 1, by omega⟩
    have hless : rounds = more ∨ R.lenient ∧ rounds ≤ more :=
      hrounds.imp Nat.succ.inj (And.imp_right Nat.le_of_succ_le_succ)
    refine R.bind (h.condition hself hc) ?_
    rintro holds _ m₁ hm₁ rfl
    cases holds with
    | false => exact R.pure .none
    | true =>
      refine R.bind (R.body (h.run (hself.mono hm₁) hb)) ?_
      rintro _ _ m₂ hm₂ (hv | _)
      · exact R.pure (.some hv)
      · exact ih (hself.mono (R.leads_trans hm₁ hm₂)) hless

theorem branch {c t e : Node} {o : Origin} (hn : R.nodes (.branch c t e o)) :
    R.rel self self' start R.Results (Semantics.execute F self (.branch c t e o))
      (Semantics.execute E self' (.branch c t e o)) := by
  refine R.bind (h.condition hself (R.part hn (.branchCondition c t e o))) ?_
  rintro holds _ m hm rfl
  cases holds with
  | true => exact R.body (h.run (hself.mono hm) (R.part hn (.whenTrue c t e o)))
  | false =>
    rw [if_neg (by decide), if_neg (by decide)]
    split
    · exact R.pure .none
    · next hnull =>
      exact R.body (h.run (hself.mono hm) (R.part hn (.whenFalse c t (fun h => hnull h) o)))

/-- Running an instruction. -/
theorem execute {n : Node} (hn : R.nodes n) :
    R.rel self self' start R.Results (Semantics.execute F self n)
      (Semantics.execute E self' n) := by
  cases n with
  | array es o =>
    refine R.lift_bind fun ns hns => h.sequence hself (R.placed hn rfl) ?_
    refine List.forall₂_map_left_iff.2 (List.forall₂_map_right_iff.2 ?_)
    exact List.forall₂_same.2 fun k hk =>
      Payload.eqUpTo_ofNode (R.held (R.part hn (.element hns hk o)))
  | print parts o =>
    refine R.lift_bind fun ns hns => ?_
    refine R.bind (h.printedAll hself fun k hk => R.part hn (.printed hns hk o)) ?_
    rintro line _ m hm ⟨rfl, hline⟩
    exact R.bind (R.print hline) fun _ _ _ _ _ => R.pure .none
  | assign t v o =>
    exact R.bind (h.assign hself hn) fun _ _ _ _ _ => R.pure .none
  | eval e o =>
    exact R.bind (h.compute hself (R.part hn (.eval e o))).now fun _ _ _ _ hv => R.pure (.some hv)
  | exec e o => exact R.failWith (by trivial) (R.placed hn rfl)
  | builtin word e o => exact R.failWith (by trivial) (R.placed hn rfl)
  | branch c t e o => exact h.branch hself hn
  | loop c b o =>
    exact h.repeatWhile hself (R.part hn (.loopCondition c b o)) (R.part hn (.loopBody c b o))
      h.limit
  | _ => exact R.fault_rel _

theorem executePayload {p q : Payload} (hp : R.Payloads start p q) :
    R.rel self self' start R.Results (Semantics.executePayload F self p)
      (Semantics.executePayload E self' q) := by
  unfold Semantics.executePayload
  rw [hp.origin?, hp.label]
  split
  · exact R.fault_rel _
  · refine R.lift_bind fun place _ => R.bind (R.note 3 _) fun _ _ m hm _ => ?_
    cases hp with
    | atom hp hadmits =>
      cases p with
      | node n => exact h.execute (hself.mono hm) (R.runs hadmits)
      | _ => exact R.fault_rel _
    | list | closure | nan => exact R.fault_rel _

/-- Running a payload. -/
theorem instruction {p q : Payload} (hp : R.Payloads start p q) {o : Origin}
    (ho : (∃ t, p = .node t) ∨ R.origins o) :
    R.rel self self' start R.Results (Semantics.instruction F self p o)
      (Semantics.instruction E self' q o) := by
  cases hp with
  | atom hp hadmits =>
    cases p with
    | node n =>
      refine R.bind (h.evaluate hself .hold (R.runs hadmits)) fun v w m₁ hm₁ hv => ?_
      refine R.bind (R.expect _ hv) ?_
      rintro ⟨p, t, o⟩ ⟨q, t', o'⟩ m₂ hm₂ ⟨hv, -⟩
      have hself₂ := hself.mono (R.leads_trans hm₁ hm₂)
      obtain rfl : o = o' := hv.origin
      have hpayload : R.Payloads m₂ p q := hv.payload
      cases hpayload with
      | atom hp hadmits =>
        cases p with
        | list => cases hp
        | _ => exact h.executePayload hself₂ (.atom hp hadmits)
      | list hps => exact h.sequence hself₂ hv.placed hps
      | closure c hc => exact h.executePayload hself₂ (.closure c hc)
      | nan hobject => exact h.executePayload hself₂ (.nan hobject)
    | list => cases hp
    | _ => exact R.failWith (by trivial) (ho.resolve_left fun ⟨t, ht⟩ => by cases ht)
  | list hps => exact h.sequence hself (ho.resolve_left fun ⟨t, ht⟩ => by cases ht) hps
  | closure | nan => exact R.failWith (by trivial) (ho.resolve_left fun ⟨t, ht⟩ => by cases ht)

end Engines

/-- With any amount of fuel, parts of programs come to related results in both runs. If the first
run may be short of fuel, the second may have more. -/
theorem engine (R : RunRelation) {fuel fuel' : Nat} (h : fuel = fuel' ∨ R.lenient ∧ fuel ≤ fuel') :
    R.Engines (engine fuel) (engine fuel') := by
  induction fuel generalizing fuel' with
  | zero =>
    rcases h with rfl | ⟨hlenient, hle⟩
    · exact ⟨.inl rfl, fun _ _ _ _ => R.throw R.exhausted,
        fun _ _ _ _ _ _ => R.throw R.exhausted⟩
    · exact ⟨.inr ⟨hlenient, Nat.zero_le _⟩, fun _ _ _ _ => R.short hlenient,
        fun _ _ _ _ _ _ => R.short hlenient⟩
  | succ fuel ih =>
    obtain ⟨more, rfl⟩ : ∃ more, fuel' = more + 1 := ⟨fuel' - 1, by omega⟩
    have hless : fuel = more ∨ R.lenient ∧ fuel ≤ more :=
      h.imp Nat.succ.inj (And.imp_right Nat.le_of_succ_le_succ)
    have hengines := ih hless
    exact ⟨hless, fun hself mode _ hn => hengines.expression hself mode hn,
      fun hself _ _ hp _ ho => hengines.instruction hself hp ho⟩

end RunRelation

end Mandate
