/-
  Mandate.Proofs.StoredRuns

  Storing a program and running what was stored does what running its source does.

    * `normalPath_append`: a source and the tree stored next to it go by names
      that differ in their end only.
    * `run_emit`, `run_load` and `run_file` say which command some words are.
    * `conclude_sourceless`: two runs that came to the same are told apart only by
      how their errors are put.
    * `stored_program_runs` puts the two ways side by side.
-/

import Mathlib.Data.List.TakeWhile
import Mandate.CommandLine
import Mandate.Proofs.LineAddresses
import Mandate.Proofs.StoredTrees
import Mandate.Proofs.Tracing

namespace Mandate.CommandLine

/-! ## Paths -/

/-- A path that ends in a name. -/
def EndsInName (path : String) : Prop :=
  ∃ name ∈ (segmentsOf path).getLast?, isTrivial name = false

/-- What follows the last slash takes in what is put behind it. -/
theorem exists_splitOn_append (cs : List Char) :
    ∃ front name, '/' ∉ name ∧ name <:+ cs ∧
      ∀ ext, '/' ∉ ext → (cs ++ ext).splitOn '/' = front ++ [name ++ ext] := by
  by_cases hslash : '/' ∈ cs
  · obtain ⟨before, name, rfl, hname⟩ := Text.exists_last_of_mem hslash
    refine ⟨before.splitOn '/', name, hname, ?_, fun ext hext => ?_⟩
    · exact (List.suffix_cons _ _).trans (List.suffix_append _ _)
    · rw [List.append_assoc, List.cons_append, List.splitOn_append_cons_self,
        List.splitOn_eq_singleton fun h => (List.mem_append.1 h).elim hname hext]
  · refine ⟨[], cs, hslash, List.suffix_refl cs, fun ext hext => ?_⟩
    rw [List.splitOn_eq_singleton fun h => (List.mem_append.1 h).elim hslash hext]
    rfl

theorem exists_intercalate_concat (sep : String) (parts : List String) :
    ∃ stem, ∀ part, sep.intercalate (parts ++ [part]) = stem ++ part := by
  cases parts with
  | nil => exact ⟨"", fun part => by rw [List.nil_append, String.intercalate_singleton,
      String.empty_append]⟩
  | cons first parts =>
    refine ⟨sep.intercalate (first :: parts) ++ sep, fun part => ?_⟩
    rw [String.intercalate_append_of_ne_nil (List.cons_ne_nil _ _) (List.cons_ne_nil _ _),
      String.intercalate_singleton]

/-- A name stays one whatever is put behind it. -/
theorem isTrivial_append {name : String} (h : isTrivial name = false) (ext : String) :
    isTrivial (name ++ ext) = false := by
  rw [isTrivial, Bool.or_eq_false_iff, beq_eq_false_iff_ne, beq_eq_false_iff_ne] at h ⊢
  obtain ⟨hempty, hdot⟩ := h
  have hlength : name.length ≠ 0 := fun h => hempty (String.length_eq_zero_iff.1 h)
  refine ⟨fun h => ?_, fun h => ?_⟩
  · have hsum := congrArg String.length h
    rw [String.length_append] at hsum
    have : "".length = 0 := rfl
    omega
  · have hsum := congrArg String.length h
    rw [String.length_append] at hsum
    have hone : ".".length = 1 := rfl
    have hext : ext = "" := String.length_eq_zero_iff.1 (by omega)
    rw [hext, String.append_empty] at h
    exact hdot h

/-- The slashes at the front of a path that ends in a name are before the name. -/
theorem takeWhile_slash_append {name cs : List Char} (hname : name ≠ []) (hslash : '/' ∉ name)
    (h : name <:+ cs) (ext : List Char) :
    (cs ++ ext).takeWhile (· = '/') = cs.takeWhile (· = '/') := by
  have hne : (cs.takeWhile (· = '/')).length ≠ cs.length := by
    intro hlength
    have hall := List.takeWhile_eq_self_iff.1
      ((List.takeWhile_prefix _).eq_of_length hlength)
    obtain ⟨c, rest, rfl⟩ := List.exists_cons_of_ne_nil hname
    have hc := hall c (h.subset List.mem_cons_self)
    exact hslash (of_decide_eq_true hc ▸ List.mem_cons_self)
  rw [List.takeWhile_append, if_neg hne]

/-- What is put behind a path that ends in a name is put behind the name. -/
theorem normalPath_append {path ext : String} (h : EndsInName path) (hext : '/' ∉ ext.toList) :
    normalPath (path ++ ext) = normalPath path ++ ext := by
  obtain ⟨name, hlast, hname⟩ := h
  obtain ⟨front, cs, hslash, hsuffix, hsplit⟩ := exists_splitOn_append path.toList
  have hsegments : segmentsOf path = front.map String.ofList ++ [String.ofList cs] := by
    have hnil := hsplit [] (by simp)
    rw [List.append_nil, List.append_nil] at hnil
    rw [segmentsOf, hnil, List.map_append]
    rfl
  have hsegments' : segmentsOf (path ++ ext)
      = front.map String.ofList ++ [String.ofList cs ++ ext] := by
    rw [segmentsOf, String.toList_append, hsplit _ hext, List.map_append, List.map_singleton,
      String.ofList_append, String.ofList_toList]
  have hcs : String.ofList cs = name := by
    rw [hsegments, List.getLast?_concat] at hlast
    exact Option.some.inj hlast
  rw [← hcs] at hname
  have hne : cs ≠ [] := by
    rintro rfl
    cases hname
  obtain ⟨stem, hstem⟩ := exists_intercalate_concat "/"
    ((front.map String.ofList).filter fun part => !isTrivial part)
  have hparts : "/".intercalate (partsOf path) = stem ++ String.ofList cs := by
    rw [partsOf, hsegments, List.filter_append, List.filter_singleton, hname]
    exact hstem _
  have hparts' : "/".intercalate (partsOf (path ++ ext)) = stem ++ String.ofList cs ++ ext := by
    rw [partsOf, hsegments', List.filter_append, List.filter_singleton,
      isTrivial_append hname, String.append_assoc]
    exact hstem _
  have hfull (start back : String) : start ++ (stem ++ String.ofList cs ++ back) ≠ "" := by
    intro hempty
    have hlist := congrArg String.toList hempty
    simp [hne] at hlist
  unfold normalPath
  dsimp only
  rw [hparts, hparts', String.toList_append, takeWhile_slash_append hne hslash hsuffix,
    if_neg (hfull _ ext), ← String.append_empty (s := stem ++ String.ofList cs),
    if_neg (hfull _ ""), String.append_empty]
  exact String.append_assoc.symm

theorem EndsInName.ne_empty {path : String} (h : EndsInName path) : path ≠ "" := by
  rintro rfl
  obtain ⟨name, hlast, hname⟩ := h
  have hsegments : segmentsOf "" = [""] := by
    rw [segmentsOf, String.toList_empty, List.splitOn_nil]
    rfl
  rw [hsegments, List.getLast?_singleton] at hlast
  cases hlast
  cases hname

/-! ## Words -/

theorem classify_of_head {word : String} (h : word.toList.head? ≠ some '-') :
    classify word = some (.operand word) := by
  unfold classify
  split
  all_goals simp_all

theorem named_some {file : String} (h : file ≠ "") : named (some file) = some file :=
  if_pos (decide_eq_true h)

section Words

variable {file : String} (hdash : file.toList.head? ≠ some '-')
include hdash

theorem classifyAll_file : classifyAll [file] = some [.operand file] := by
  have hne : file ≠ "--" := by
    rintro rfl
    exact hdash rfl
  rw [classifyAll, if_neg hne, classify_of_head hdash, classifyAll]

theorem ofWords_file : Options.ofWords [file] = .ok { program? := some file } := by
  rw [Options.ofWords, classifyAll_file hdash]
  rfl

/-- A long word that asks for a task, and the file that goes with it. -/
theorem ofWords_task (word : String) (t : Task) (hword : word ≠ "--")
    (htask : classify word = some (.task t none)) :
    Options.ofWords [word, file] = ({} : Options).withTask t file := by
  rw [Options.ofWords, classifyAll, if_neg hword, htask, classifyAll_file hdash]
  cases t <;> rfl

theorem ofWords_emit : Options.ofWords ["--emit-ast", file] = .ok { emit? := some file } :=
  ofWords_task hdash "--emit-ast" .emit (by decide) (by rfl)

theorem ofWords_load : Options.ofWords ["--ast", file] = .ok { load? := some file } :=
  ofWords_task hdash "--ast" .load (by decide) (by rfl)

variable (hne : file ≠ "") (fuel : Nat) (s : Surroundings)
include hne

theorem run_file : run fuel s [file] = runFile fuel 0 s file := by
  rw [run, ofWords_file hdash]
  dsimp only
  rw [named_some hne]
  rfl

theorem run_emit : run fuel s ["--emit-ast", file] = emitFile s file := by
  rw [run, ofWords_emit hdash]
  dsimp only
  rw [named_some hne]

theorem run_load : run fuel s ["--ast", file] = loadFile fuel 0 s file := by
  rw [run, ofWords_load hdash]
  dsimp only
  rw [named_some hne]
  rfl

end Words

/-! ## Files -/

/-- What there is after a command. -/
def Surroundings.after (s : Surroundings) (e : Effects) : Surroundings :=
  { s with files := e.files ++ s.files }

theorem withFile_of_read {s : Surroundings} {path : String} {text : List Char}
    (h : s.read (normalPath path) = .ok text) (act : List Char → Effects) :
    withFile s path act = act text := by
  rw [withFile, h]

/-- A file that was just made is read by its name. -/
theorem read_made {s : Surroundings} {e : Effects} {path : String} {text : List Char}
    (h : e.files = [(path, String.ofList text)]) :
    (s.after e).read path = .ok (Text.unifyNewlines text) := by
  have hfind : (s.after e).files.find? (fun f => f.1 = path) = some (path, String.ofList text) := by
    rw [Surroundings.after, h, List.singleton_append]
    exact List.find?_cons_of_pos (decide_eq_true rfl)
  rw [Surroundings.read, Files.content, hfind]
  simp only [Except.map, String.toList_ofList]

/-! ## Runs -/

theorem runTree_ne_rejected (fuel : Nat) (filed : Bool) (console : Console) (trace : Trace)
    (program : Node) (e : SyntaxError) :
    (runTree fuel filed console trace program).outcome ≠ .error (.rejected e) := by
  unfold runTree
  dsimp only
  split
  · split <;> simp
  · split <;> simp
  · simp

/-- Runs that came to the same end alike and write the same. Without the source an error is put
with its offsets. -/
theorem conclude_sourceless {r r' : Report} (houtcome : r.outcome = r'.outcome)
    (hconsole : r.console = r'.console) (hran : ∀ e, r'.outcome ≠ .error (.rejected e))
    (source : List Char) :
    (conclude 0 none r).output = (conclude 0 (some source) r').output ∧
    (conclude 0 none r).ending = (conclude 0 (some source) r').ending ∧
    ((conclude 0 none r).errors = [] ∧ (conclude 0 (some source) r').errors = [] ∨
      ∃ e : RuntimeError, (conclude 0 none r).errors = ["Runtime error: " ++ e.text] ∧
        (conclude 0 (some source) r').errors = ["Runtime error: " ++ e.describe source]) := by
  unfold conclude
  dsimp only
  rw [houtcome, hconsole]
  cases houtcome' : r'.outcome with
  | ok result =>
    cases result with
    | none => exact ⟨rfl, rfl, .inl ⟨rfl, rfl⟩⟩
    | some v =>
      dsimp only
      cases v.printed with
      | ok text => exact ⟨rfl, rfl, .inl ⟨rfl, rfl⟩⟩
      | error f => exact ⟨rfl, rfl, .inl ⟨rfl, rfl⟩⟩
  | error f =>
    cases f with
    | rejected e => exact absurd houtcome' (hran e)
    | untraced e => exact ⟨rfl, rfl, .inl ⟨rfl, rfl⟩⟩
    | halted h =>
      cases h with
      | error e => exact ⟨rfl, rfl, .inr ⟨e, rfl, rfl⟩⟩
      | fault f => exact ⟨rfl, rfl, .inl ⟨rfl, rfl⟩⟩
      | exhausted => exact ⟨rfl, rfl, .inl ⟨rfl, rfl⟩⟩

section Stored

variable {s : Surroundings} {file : String} {source : List Char} {program : Node}

theorem emitFile_of_parse (hread : s.read (normalPath file) = .ok source)
    (hparse : parse source = .ok program) (hmake : s.files.refusal? (treeName file) = none) :
    emitFile s file =
      { ending := .exit 0, output := [treeName file],
        files := [(treeName file, String.ofList program.toDatum.toJson.write)] } := by
  rw [emitFile, withFile_of_read hread, hparse]
  dsimp only
  rw [hmake]

theorem loadFile_of_stored {path : String}
    (hread : s.read (normalPath path) = .ok (Text.unifyNewlines program.toDatum.toJson.write))
    (hparse : parse source = .ok program) (hlength : source.length < 10 ^ Json.digitLimit)
    (fuel : Nat) :
    loadFile fuel 0 s path = conclude 0 none (runTree fuel false s.console #[] program) := by
  obtain ⟨hdatum, htree⟩ := load_stored hparse
  rw [loadFile, withFile_of_read hread, read_stored hparse hlength]
  dsimp only
  rw [hdatum]
  dsimp only
  rw [htree]
  rfl

theorem runFile_of_parse (hread : s.read (normalPath file) = .ok source)
    (hparse : parse source = .ok program) (fuel : Nat) :
    runFile fuel 0 s file = conclude 0 (some source)
      (runTree fuel false s.console (openingTrace 0 source []) program) := by
  rw [runFile, withFile_of_read hread]
  show conclude 0 (some source) (runSource fuel 0 s.console source) = _
  rw [runSource_of_lt (by decide), runParsed, hparse]
  rfl

end Stored

/-- Storing the tree of a source and running the stored tree does what running the source does.
The text of the stored tree is read as what was written. -/
theorem stored_program_runs {s : Surroundings} {file : String} {source : List Char}
    {program : Node} (hname : EndsInName file) (hdash : file.toList.head? ≠ some '-')
    (hread : s.read (normalPath file) = .ok source) (hparse : parse source = .ok program)
    (hlength : source.length < 10 ^ Json.digitLimit)
    (hmake : s.files.refusal? (treeName file) = none) (fuel : Nat) :
    let emitted := run fuel s ["--emit-ast", file]
    let loaded := run fuel (s.after emitted) ["--ast", file ++ ".ast.json"]
    let direct := run fuel s [file]
    emitted.ending = .exit 0 ∧ emitted.output = [Text.ofString (treeName file)] ∧
    emitted.errors = [] ∧
    (∃ text, emitted.files = [(treeName file, text)] ∧
      Json.read (Text.unifyNewlines text.toList) = .ok program.toDatum.toJson) ∧
    loaded.output = direct.output ∧ loaded.ending = direct.ending ∧
    (loaded.errors = [] ∧ direct.errors = [] ∨
      ∃ e : RuntimeError, loaded.errors = ["Runtime error: " ++ e.text] ∧
        direct.errors = ["Runtime error: " ++ e.describe source]) := by
  intro emitted loaded direct
  have hne := hname.ne_empty
  -- The file that is asked for is the one that was made.
  have hstored : normalPath (file ++ ".ast.json") = treeName file :=
    normalPath_append hname (by decide)
  have hemitted : emitted = _ :=
    (run_emit hdash hne fuel s).trans (emitFile_of_parse hread hparse hmake)
  have hmade : (s.after emitted).read (normalPath (file ++ ".ast.json"))
      = .ok (Text.unifyNewlines program.toDatum.toJson.write) := by
    rw [hstored]
    exact read_made (by rw [hemitted])
  have hchars : file.toList ≠ [] := fun h => hne (String.toList_eq_nil_iff.1 h)
  have hdash' : (file ++ ".ast.json").toList.head? ≠ some '-' := by
    rwa [String.toList_append, List.head?_append_of_ne_nil _ hchars]
  have hne' : file ++ ".ast.json" ≠ "" := fun h =>
    hne (String.append_eq_empty_iff.1 h).1
  have hloaded : loaded = _ := (run_load hdash' hne' fuel _).trans
    (loadFile_of_stored hmade hparse hlength fuel)
  have hdirect : direct = _ :=
    (run_file hdash hne fuel s).trans (runFile_of_parse hread hparse fuel)
  -- Only the source was traced before the tree was run, which makes no difference to the run.
  have hretraced := runTree_retraced fuel false s.console #[] (openingTrace 0 source []) program
  refine ⟨congrArg Effects.ending hemitted, congrArg Effects.output hemitted,
    congrArg Effects.errors hemitted, ⟨_, congrArg Effects.files hemitted, ?_⟩, ?_⟩
  · rw [String.toList_ofList, read_stored hparse hlength]
  · rw [hloaded, hdirect]
    exact conclude_sourceless hretraced.outcome hretraced.console
      (runTree_ne_rejected _ _ _ _ _) source

/-- A program that asks for a name and then fails. -/
def greeting : List Char := "print input; eval [1][2]".toList

/-- The program in a file, and a name typed in. -/
def greeter : Surroundings where
  files := [("greet.ee", String.ofList greeting)]
  input := "ada\n"

theorem stored_greeting_runs :
    greeter.read (normalPath "greet.ee") = .ok greeting ∧
      let emitted := run 60 greeter ["--emit-ast", "greet.ee"]
      let loaded := run 60 (greeter.after emitted) ["--ast", "greet.ee" ++ ".ast.json"]
      let direct := run 60 greeter ["greet.ee"]
      loaded.output = direct.output ∧ loaded.ending = direct.ending := by
  have hread : greeter.read (normalPath "greet.ee") = .ok greeting := by rfl
  have hname : EndsInName "greet.ee" := ⟨"greet.ee", by rfl, by decide⟩
  have hlength : greeting.length < 10 ^ Json.digitLimit :=
    Nat.lt_of_lt_of_le (m := 10 ^ 2) (by decide) (Nat.pow_le_pow_right (by decide) (by decide))
  obtain ⟨program, hprogram⟩ := exists_of_isOk (x := parse greeting) (by decide +kernel)
  obtain ⟨-, -, -, -, houtput, hending, -⟩ :=
    stored_program_runs hname (by decide) hread hprogram hlength (by rfl) 60
  exact ⟨hread, houtput, hending⟩

end Mandate.CommandLine
