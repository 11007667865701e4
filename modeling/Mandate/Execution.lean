/-
  Mandate.Execution

  Running a source or a program tree from the start, with its trace.

  The trace of a run holds the lines of every level; how verbose a run is only
  matters in two places. From level 3 on the tokens are looked at: there a source
  whose tokens cannot all be read is rejected before it is parsed, without a line
  about it. And from level 1 on the trace is kept in a file, which cannot hold the
  line about every error: of one with half of a surrogate pair in its text it
  cannot, and that is what the run then fails for.
-/

import Mandate.Program
import Mandate.Semantics.Run

namespace Mandate

/-- Why a run has no result. -/
inductive Failure where
  | rejected (e : SyntaxError)
  | halted (h : Halt)
  /-- An error that the trace cannot hold, in the place of that error. -/
  | untraced (e : RuntimeError)
  deriving Inhabited

/-- What a run came to. -/
structure Report where
  outcome : Except Failure (Option Value)
  console : Console
  trace : Trace

/-- Enough fuel for any run that ends in a lifetime. -/
def ampleFuel : Nat := Nat.pow 10 15

/-- The line about a token. -/
def Token.event (t : Token) : Event :=
  ⟨3, "token " ++ t.terminal.label ++ " " ++ Text.quoted t.text ++ " at " ++ toString t.start⟩

/-- Runs a program tree after what was already traced, in a file or elsewhere. A result that
cannot be written out is a fault. -/
def runTree (fuel : Nat) (filed : Bool) (console : Console) (trace : Trace) (program : Node) :
    Report :=
  let start : Machine :=
    { console := console, trace := trace.push ⟨1, "run " ++ program.label⟩ }
  match start.run fuel program with
  | .ok result m =>
    match Value.shownResult result with
    | .ok line => ⟨.ok result, m.console, m.trace.push ⟨1, "result " ++ line⟩⟩
    -- The run itself is over by now, so no line says that it failed.
    | .error f => ⟨.error (.halted (.fault f)), m.console, m.trace⟩
  | .error (.error e) m =>
    if filed && !e.text.isWritable then ⟨.error (.untraced e), m.console, m.trace⟩
    else
      ⟨.error (.halted (.error e)), m.console,
        m.trace.push ⟨1, Text.ofString "runtime error: " ++ e.text⟩⟩
  | .error h m => ⟨.error (.halted h), m.console, m.trace⟩

/-- Parses and runs a source after what was already traced, in a file or elsewhere. -/
def runParsed (fuel : Nat) (filed : Bool) (console : Console) (trace : Trace)
    (source : List Char) : Report :=
  match parse source with
  | .error e => ⟨.error (.rejected e), console, trace.push ⟨1, "syntax error: " ++ e.text⟩⟩
  | .ok program => runTree fuel filed console trace program

/-- Runs a source, with the trace in a file or elsewhere. -/
def runTraced (fuel verbosity : Nat) (filed : Bool) (console : Console) (source : List Char) :
    Report :=
  let trace : Trace := #[⟨1, "parse " ++ toString source.length ++ " characters"⟩]
  if 3 ≤ verbosity then
    match tokenize source with
    | .error e => ⟨.error (.rejected e), console, trace⟩
    | .ok tokens =>
      runParsed fuel filed console (trace ++ (tokens.map Token.event).toArray) source
  else runParsed fuel filed console trace source

/-- Runs a source. If there is to be a trace, it is kept in a file. -/
def runSource (fuel verbosity : Nat) (console : Console) (source : List Char) : Report :=
  runTraced fuel verbosity (decide (1 ≤ verbosity)) console source

/-! ## Several runs -/

/-- Runs one after the other that share a console. The trace goes to a file of its own until the
first run ends, and among the output after that. -/
structure Interpreter where
  verbosity : Nat
  console : Console
  tracesToFile : Bool := true

/-- Runs the next source. -/
def Interpreter.run (i : Interpreter) (fuel : Nat) (source : List Char) : Report × Interpreter :=
  let filed := i.tracesToFile && decide (1 ≤ i.verbosity)
  let report := runTraced fuel i.verbosity filed i.console source
  (report, { i with console := report.console, tracesToFile := false })

/-- The lines of a run that go among the output. -/
def Interpreter.strayLines (i : Interpreter) (report : Report) : List Text :=
  if i.tracesToFile then [] else report.trace.shownAt i.verbosity

/-- Runs a source in a state that was left by others before. -/
def Machine.runSource (m : Machine) (fuel : Nat) (source : List Char) :
    Except Failure (Option Value) × Machine :=
  match parse source with
  | .error e => (.error (.rejected e), m)
  | .ok program =>
    match m.run fuel program with
    | .ok result m => (.ok result, m)
    | .error h m => (.error (.halted h), m)

end Mandate
