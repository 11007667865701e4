/-
  Mandate.Proofs.Tracing

  How verbose the run of a program is shows in its trace and, if the trace cannot hold
  the line about an error, in what the run fails for (`tracing_silent_unless_unwritable`).
  For a source that is no program, the level can show in the error (`rejection_traced`):
  from level 3 on the tokens are listed before the source is parsed, and a source with
  tokens that cannot be read is rejected there.

    * `runTree_retraced`: runs that differ in what was traced before them differ in
      nothing else, from the start of a run to its report.
    * `runTree_filed`: what changes if the trace is in a file.
-/

import Mandate.Proofs.ReadableText
import Mandate.Proofs.FiledTraces

namespace Mandate

/-! ## Two runs with other traces -/

/-- Traces that got the same lines since they were `t` and `t'`. -/
def TraceMatch.since (t t' : Trace) : TraceMatch where
  rel u u' := ∃ more, u.toList = t.toList ++ more ∧ u'.toList = t'.toList ++ more
  push := by
    rintro u u' event ⟨more, hu, hu'⟩
    refine ⟨more ++ [event], ?_, ?_⟩
    · rw [Array.toList_push, hu, List.append_assoc]
    · rw [Array.toList_push, hu', List.append_assoc]

/-- Reports that are the same but for what was traced before the runs. -/
structure Report.Retraced (t t' : Trace) (r r' : Report) : Prop where
  outcome : r.outcome = r'.outcome
  console : r.console = r'.console
  trace : (TraceMatch.since t t').rel r.trace r'.trace

/-- What was traced before a run makes no difference to it. -/
theorem runTree_retraced (fuel : Nat) (filed : Bool) (console : Console) (t t' : Trace)
    (program : Node) :
    Report.Retraced t t' (runTree fuel filed console t program)
      (runTree fuel filed console t' program) := by
  let traces := TraceMatch.since t t'
  have hstart : traces.rel (t.push ⟨1, "run " ++ program.label⟩)
      (t'.push ⟨1, "run " ++ program.label⟩) :=
    traces.push _ ⟨[], (List.append_nil _).symm, (List.append_nil _).symm⟩
  -- The states differ in what was traced before, and in nothing else they ever come to.
  have hengines := (DataInvariant.all.correspondence False traces).relation.engine
    (.inl (rfl : fuel = fuel))
  have hruns := hengines.run (n := program) (DataInvariant.all_selves _ none) trivial _
    ((DataInvariant.all_holds none
      { console := console, trace := t.push ⟨1, "run " ++ program.label⟩ }).states hstart)
  unfold runTree Machine.run
  dsimp only
  revert hruns
  generalize (engine fuel).run none program _ = r, (engine fuel).run none program _ = r'
  intro hruns
  cases hruns with
  | ok hvalue hm _ =>
    obtain ⟨-, -, hsame⟩ := DataInvariant.holds_of_states hm
    have hconsole := (congrArg Machine.console hsame).symm
    rw [DataInvariant.eq_of_results _ _ _ hvalue]
    dsimp only
    split
    · exact ⟨rfl, hconsole, traces.push _ hm.trace⟩
    · exact ⟨rfl, hconsole, hm.trace⟩
  | @error e _ _ _ hm _ =>
    obtain ⟨-, -, hsame⟩ := DataInvariant.holds_of_states hm
    have hconsole := (congrArg Machine.console hsame).symm
    cases e with
    | error e =>
      dsimp only
      split
      · exact ⟨rfl, hconsole, hm.trace⟩
      · exact ⟨rfl, hconsole, traces.push _ hm.trace⟩
    | fault f => exact ⟨rfl, hconsole, hm.trace⟩
    | exhausted => exact ⟨rfl, hconsole, hm.trace⟩
  | short h => exact h.elim

/-! ## Traces in files -/

/-- Why a run has no result if its trace is in a file, given why it has none otherwise. -/
def Failure.filed : Failure → Failure
  | .halted (.error e) => if e.text.isWritable then .halted (.error e) else .untraced e
  | failure => failure

/-- More is shown of what gets another line, but not below the level of the line. -/
theorem Trace.shownAt_push_of_lt {t : Trace} {event : Event} {verbosity : Nat}
    (h : verbosity < event.level) :
    Trace.shownAt (t.push event) verbosity = t.shownAt verbosity := by
  have hnone : [event].filter (fun e => decide (e.level ≤ verbosity)) = [] :=
    List.filter_cons_of_neg (by simpa using h)
  rw [Trace.shownAt, Array.toList_push, List.filter_append, hnone, List.append_nil]
  rfl

/-- The report of a run whose trace is in a file, beside that of the run otherwise. -/
structure Report.Filed (r r' : Report) : Prop where
  outcome : r.outcome = r'.outcome.mapError Failure.filed
  console : r.console = r'.console
  trace : r.trace.shownAt 0 = r'.trace.shownAt 0

/-- In a file, the trace of a run makes a difference if it cannot hold the line about an error, and
only then. -/
theorem runTree_filed (fuel : Nat) (console : Console) (trace : Trace) (program : Node) :
    Report.Filed (runTree fuel true console trace program)
      (runTree fuel false console trace program) := by
  unfold runTree
  dsimp only
  split
  · split <;> exact ⟨rfl, rfl, rfl⟩
  · next e m _ =>
    cases hwritable : e.text.isWritable with
    | true => exact ⟨by simp [Except.mapError, Failure.filed, hwritable], rfl, rfl⟩
    | false =>
      refine ⟨by simp [Except.mapError, Failure.filed, hwritable], rfl, ?_⟩
      exact (Trace.shownAt_push_of_lt Nat.zero_lt_one).symm
  · next h m hnoError _ =>
    cases h with
    | error e => exact absurd rfl (hnoError e)
    | fault f => exact ⟨rfl, rfl, rfl⟩
    | exhausted => exact ⟨rfl, rfl, rfl⟩

/-- It never shows on the console, nor in what is shown at level 0. -/
theorem runTree_filed_or_not (fuel : Nat) (filed : Bool) (console : Console) (trace : Trace)
    (program : Node) :
    (runTree fuel filed console trace program).console =
      (runTree fuel false console trace program).console ∧
    (runTree fuel filed console trace program).trace.shownAt 0 =
      (runTree fuel false console trace program).trace.shownAt 0 := by
  cases filed with
  | false => exact ⟨rfl, rfl⟩
  | true =>
    have hfiled := runTree_filed fuel console trace program
    exact ⟨hfiled.console, hfiled.trace⟩

/-- If a file can hold what there is to read, it can hold the trace. -/
theorem runTree_filed_of_writable {console : Console}
    (h : ∀ line ∈ console.pending, line.isWritable = true) (fuel : Nat) (filed : Bool)
    (trace : Trace) (program : Node) :
    (runTree fuel filed console trace program).outcome =
      (runTree fuel false console trace program).outcome := by
  obtain rfl | rfl := filed.eq_false_or_eq_true.symm
  · rfl
  have hfiled := (runTree_filed fuel console trace program).outcome
  rw [hfiled]
  cases houtcome : (runTree fuel false console trace program).outcome with
  | ok result => rfl
  | error failure =>
    rw [houtcome, Except.mapError] at hfiled
    show Except.error failure.filed = Except.error failure
    unfold Failure.filed at hfiled ⊢
    split
    · next e =>
      split
      · rfl
      · next hwritable =>
        dsimp only at hfiled
        rw [if_neg hwritable] at hfiled
        obtain ⟨-, line, hline, hfalse⟩ := unwritable_of_untraced hfiled
        rw [h line hline] at hfalse
        cases hfalse
    · rfl

/-! ## Levels -/

/-- What a run traces before it parses its source. -/
def openingTrace (verbosity : Nat) (source : List Char) (tokens : List Token) : Trace :=
  let trace : Trace := #[⟨1, "parse " ++ toString source.length ++ " characters"⟩]
  if 3 ≤ verbosity then trace ++ (tokens.map Token.event).toArray else trace

/-- A source whose tokens can be listed is parsed at every level. -/
theorem runSource_of_tokenize {source : List Char} {tokens : List Token}
    (h : tokenize source = .ok tokens) (fuel verbosity : Nat) (console : Console) :
    runSource fuel verbosity console source
      = runParsed fuel (decide (1 ≤ verbosity)) console (openingTrace verbosity source tokens)
          source := by
  unfold runSource runTraced openingTrace
  dsimp only
  by_cases hv : 3 ≤ verbosity
  · rw [if_pos hv, if_pos hv, h]
  · rw [if_neg hv, if_neg hv]

theorem runSource_of_lt {verbosity : Nat} (hv : ¬3 ≤ verbosity) (fuel : Nat) (console : Console)
    (source : List Char) :
    runSource fuel verbosity console source
      = runParsed fuel (decide (1 ≤ verbosity)) console (openingTrace verbosity source [])
          source := by
  unfold runSource runTraced openingTrace
  dsimp only
  rw [if_neg hv, if_neg hv]

/-- A source whose tokens cannot be listed is rejected from level 3 on, before it is parsed. -/
theorem runSource_of_tokenize_error {source : List Char} {e : SyntaxError}
    (h : tokenize source = .error e) {verbosity : Nat} (hv : 3 ≤ verbosity) (fuel : Nat)
    (console : Console) :
    runSource fuel verbosity console source
      = ⟨.error (.rejected e), console, openingTrace 0 source []⟩ := by
  unfold runSource runTraced openingTrace
  dsimp only
  rw [if_pos hv, h]
  exact congrArg (Report.mk _ _) (if_neg (Nat.not_succ_le_zero 2)).symm

/-- A more verbose run traces the tokens besides. -/
theorem openingTrace_sublist {d e : Nat} (hde : d ≤ e) (source : List Char)
    (tokens : List Token) :
    (openingTrace d source tokens).toList.Sublist (openingTrace e source tokens).toList := by
  unfold openingTrace
  dsimp only
  by_cases hd : 3 ≤ d
  · rw [if_pos hd, if_pos (Nat.le_trans hd hde)]
  · rw [if_neg hd]
    split
    · rw [Array.toList_append]
      exact List.sublist_append_left _ _
    · exact List.Sublist.refl _

/-- Of more that was traced, more is shown at a higher level. -/
theorem Trace.shownAt_sublist {t u : Trace} (h : t.toList.Sublist u.toList) {d e : Nat}
    (hde : d ≤ e) : (t.shownAt d).Sublist (u.shownAt e) := by
  refine List.Sublist.map _ (List.Sublist.trans ?_ (h.filter _))
  apply List.monotone_filter_right
  intro event hevent
  rw [decide_eq_true_eq] at hevent ⊢
  exact Nat.le_trans hevent hde

/-! ## Programs -/

/-- An accepted source is run as its program, and its tokens can be listed. -/
theorem runSource_of_parse {source : List Char} {program : Node} (h : parse source = .ok program)
    (fuel : Nat) (console : Console) :
    ∃ tokens, tokenize source = .ok tokens ∧ ∀ verbosity,
      runSource fuel verbosity console source = runTree fuel (decide (1 ≤ verbosity)) console
        (openingTrace verbosity source tokens) program := by
  obtain ⟨tokens, htokens⟩ := tokenize_of_readable (readable_of_parse h)
  refine ⟨tokens, htokens, fun verbosity => ?_⟩
  rw [runSource_of_tokenize htokens, runParsed, h]

/-- How verbose the run of a program is makes no difference to what it comes to if there is a trace
at both levels or at none, or if a file can hold all that there is to read. Otherwise it makes a
difference to errors whose message a file cannot hold, and to nothing else. It never shows on the
console, and a more verbose run shows the same lines with others between them. The tokens, which
are listed without the help of the parser, can be listed for every program. -/
theorem tracing_silent_unless_unwritable {source : List Char} {program : Node}
    (h : parse source = .ok program) (fuel : Nat) (console : Console) (d e : Nat) :
    ((d = 0 ↔ e = 0) ∨ (∀ line ∈ console.pending, line.isWritable = true) →
      (runSource fuel d console source).outcome = (runSource fuel e console source).outcome) ∧
    (d = 0 → 1 ≤ e → (runSource fuel e console source).outcome =
      (runSource fuel d console source).outcome.mapError Failure.filed) ∧
    (runSource fuel d console source).console = (runSource fuel e console source).console ∧
    (d ≤ e → List.Sublist ((runSource fuel d console source).trace.shownAt d)
      ((runSource fuel e console source).trace.shownAt e)) ∧
    ∃ tokens, tokenize source = .ok tokens := by
  obtain ⟨tokens, htokens, hrun⟩ := runSource_of_parse h fuel console
  rw [hrun d, hrun e]
  have hretraced (filed : Bool) := runTree_retraced fuel filed console
    (openingTrace d source tokens) (openingTrace e source tokens) program
  have hfiled (verbosity : Nat) := runTree_filed_or_not fuel (decide (1 ≤ verbosity)) console
  refine ⟨?_, ?_, ?_, fun hde => ?_, tokens, htokens⟩
  · rintro (hlevels | hwritable)
    · have hsame : decide (1 ≤ d) = decide (1 ≤ e) := decide_eq_decide.2 (by omega)
      rw [hsame]
      exact (hretraced _).outcome
    · have hoff (verbosity : Nat) := runTree_filed_of_writable hwritable fuel
        (decide (1 ≤ verbosity))
      rw [hoff d, hoff e]
      exact (hretraced false).outcome
  · rintro rfl he
    rw [decide_eq_true he, decide_eq_false (by decide : ¬1 ≤ 0), (hretraced false).outcome]
    exact (runTree_filed ..).outcome
  · rw [(hfiled d _ _).1, (hfiled e _ _).1]
    exact (hretraced false).console
  · -- At level 0 a trace in a file shows the same, and at others there is one in both runs.
    have hshown : (runTree fuel (decide (1 ≤ d)) console (openingTrace d source tokens)
        program).trace.shownAt d = (runTree fuel (decide (1 ≤ e)) console
          (openingTrace d source tokens) program).trace.shownAt d := by
      rcases Nat.eq_zero_or_pos d with rfl | hd
      · rw [(hfiled 0 _ _).2, (hfiled e _ _).2]
      · have hsame : decide (1 ≤ d) = decide (1 ≤ e) := decide_eq_decide.2 (by omega)
        rw [hsame]
    obtain ⟨more, hd, he⟩ := (hretraced (decide (1 ≤ e))).trace
    rw [hshown]
    refine Trace.shownAt_sublist ?_ hde
    rw [hd, he]
    exact (openingTrace_sublist hde source tokens).append_right more

/-- A program that the parser cuts into other tokens than those listed, where the name `thenprint`
stands for two keywords. -/
def uncutWords : List Char := "if true thenprint 1".toList

theorem tracing_silent_uncutWords :
    ∃ program, parse uncutWords = .ok program ∧
      (runSource 50 0 {} uncutWords).outcome = (runSource 50 3 {} uncutWords).outcome ∧
      (runSource 50 1 {} uncutWords).console = (runSource 50 3 {} uncutWords).console ∧
      List.Sublist ((runSource 50 1 {} uncutWords).trace.shownAt 1)
        ((runSource 50 3 {} uncutWords).trace.shownAt 3) ∧
      ∃ tokens, tokenize uncutWords = .ok tokens := by
  obtain ⟨program, hprogram⟩ := exists_of_isOk (x := parse uncutWords) (by decide +kernel)
  obtain ⟨houtcome, -⟩ := tracing_silent_unless_unwritable hprogram 50 {} 0 3
  obtain ⟨-, -, hconsole, hshown, htokens⟩ :=
    tracing_silent_unless_unwritable hprogram 50 {} 1 3
  exact ⟨program, hprogram, houtcome (.inr (by decide)), hconsole, hshown (by decide), htokens⟩

/-- A program that reads a line and takes it for a number. -/
def readNumber : List Char := "eval toNumber input".toList

/-- Half of a surrogate pair as the only line to read. -/
def halfLine : Console := { pending := [[.half 0]] }

/-- The text that a run stopped at as no number. -/
def Report.notNumber? (r : Report) : Option Text :=
  match r.outcome with
  | .error (.halted (.error ⟨.notNumber text, _⟩)) => some text
  | _ => none

/-- Whether a run failed for its trace. -/
def Report.isUntraced (r : Report) : Bool :=
  match r.outcome with
  | .error (.untraced _) => true
  | _ => false

/-- The same program on the same line fails for the line, or for the trace of that. -/
theorem halfLine_untraced : (parse readNumber).isOk = true ∧
    (runSource 20 0 halfLine readNumber).notNumber? = some [.half 0] ∧
    (runSource 20 1 halfLine readNumber).isUntraced = true := by
  decide +kernel

/-! ## Rejected sources -/

theorem Trace.getLast?_shownAt_push {t : Trace} {event : Event} {verbosity : Nat}
    (h : event.level ≤ verbosity) :
    (Trace.shownAt (t.push event) verbosity).getLast? = some event.line := by
  have hlast : [event].filter (fun e => decide (e.level ≤ verbosity)) = [event] :=
    List.filter_cons_of_pos (decide_eq_true h)
  rw [Trace.shownAt, Array.toList_push, List.filter_append, hlast, List.map_append]
  exact List.getLast?_concat

/-- A source that is no program is rejected with the same error at every level, and from level 1
on its trace ends with it, as long as its tokens are not listed or can be.

Otherwise, from level 3 on, the source is rejected for the first place where it cannot be read, and
nothing says so in the trace. That is another error than the parser's where the parser stops at an
unexpected token, which then comes before that place. -/
theorem rejection_traced {source : List Char} {e : SyntaxError} (h : parse source = .error e)
    (fuel verbosity : Nat) (console : Console) :
    ((verbosity < 3 ∨ Lexeme.Readable (Layout.separate source)) →
      (runSource fuel verbosity console source).outcome = .error (.rejected e) ∧
      (1 ≤ verbosity → ((runSource fuel verbosity console source).trace.shownAt verbosity).getLast?
        = some (Text.ofString ("syntax error: " ++ e.text)))) ∧
    (3 ≤ verbosity → ¬Lexeme.Readable (Layout.separate source) →
      (runSource fuel verbosity console source).outcome
        = .error (.rejected (unreadError source)) ∧
      (runSource fuel verbosity console source).trace.shownAt verbosity
        = [Text.ofString ("parse " ++ toString source.length ++ " characters")] ∧
      (e = unreadError source ∨ ∃ expected found, e.cause = .unexpected expected found ∧
        e.span.stop ≤ (unreadError source).span.start)) ∧
    (runSource fuel verbosity console source).console = console := by
  have hparsed (filed : Bool) (trace : Trace) : runParsed fuel filed console trace source
      = ⟨.error (.rejected e), console, trace.push ⟨1, "syntax error: " ++ e.text⟩⟩ := by
    rw [runParsed, h]
  by_cases hread : verbosity < 3 ∨ Lexeme.Readable (Layout.separate source)
  · -- The source is parsed, whatever was traced before.
    obtain ⟨trace, hrun⟩ : ∃ trace : Trace, runSource fuel verbosity console source
        = ⟨.error (.rejected e), console, trace.push ⟨1, "syntax error: " ++ e.text⟩⟩ := by
      rcases hread with hlow | hread
      · exact ⟨_, (runSource_of_lt (Nat.not_le.2 hlow) fuel console source).trans (hparsed _ _)⟩
      · obtain ⟨tokens, htokens⟩ := tokenize_of_readable hread
        exact ⟨_, (runSource_of_tokenize htokens fuel verbosity console).trans (hparsed _ _)⟩
    rw [hrun]
    rw [Text.ofString_append]
    refine ⟨fun _ => ⟨rfl, fun hv => Trace.getLast?_shownAt_push hv⟩, fun hv hunread => ?_, rfl⟩
    rcases hread with hlow | hread
    · omega
    · exact absurd hread hunread
  · rw [not_or, Nat.not_lt] at hread
    rw [runSource_of_tokenize_error (tokenize_of_unread hread.2) hread.1]
    refine ⟨fun hlow => ?_, fun _ _ => ⟨rfl, ?_, ?_⟩, rfl⟩
    · rcases hlow with hlow | hlow
      · omega
      · exact absurd hlow hread.2
    · have hshown : decide (1 ≤ verbosity) = true := decide_eq_true (by omega)
      unfold Trace.shownAt openingTrace
      simp [hshown, Text.ofString_append]
    · rcases parse_of_unread hread.2 with hsame | ⟨expected, found, span, hother, hbefore⟩
      · exact .inl (Except.error.inj (h.symm.trans hsame))
      · cases Except.error.inj (h.symm.trans hother)
        exact .inr ⟨expected, found, rfl, hbefore⟩

/-- A source with a token where none is expected, and a character that no token has after it. -/
def twoDefects : List Char := ") $".toList

theorem rejection_traced_twoDefects :
    ∃ e, parse twoDefects = .error e ∧ ¬Lexeme.Readable (Layout.separate twoDefects) ∧
      (runSource 50 2 {} twoDefects).outcome = .error (.rejected e) ∧
      ((runSource 50 2 {} twoDefects).trace.shownAt 2).getLast?
        = some (Text.ofString ("syntax error: " ++ e.text)) ∧
      (runSource 50 3 {} twoDefects).outcome = .error (.rejected (unreadError twoDefects)) ∧
      (runSource 50 3 {} twoDefects).trace.shownAt 3
        = [Text.ofString ("parse " ++ toString twoDefects.length ++ " characters")] := by
  have hunread : ¬Lexeme.Readable (Layout.separate twoDefects) := by decide +kernel
  cases h : parse twoDefects with
  | ok program => exact absurd (readable_of_parse h) hunread
  | error e =>
    obtain ⟨hlow, -, -⟩ := rejection_traced h 50 2 {}
    obtain ⟨-, hhigh, -⟩ := rejection_traced h 50 3 {}
    obtain ⟨houtcome, hlast⟩ := hlow (.inl (by decide))
    obtain ⟨hother, hlines, -⟩ := hhigh (by decide) hunread
    exact ⟨e, rfl, hunread, houtcome, hlast (by decide), hother, hlines⟩

/-- The error that a source was rejected with. -/
def Report.rejection? (r : Report) : Option SyntaxError :=
  match r.outcome with
  | .error (.rejected e) => some e
  | _ => none

/-- The first defect is reported at level 0 and the second one at level 3. -/
theorem rejection_of_twoDefects :
    (runSource 50 0 {} twoDefects).rejection?.map SyntaxError.span = some ⟨0, 1⟩ ∧
      (runSource 50 3 {} twoDefects).rejection?.map SyntaxError.span = some ⟨2, 3⟩ := by
  decide +kernel

end Mandate
