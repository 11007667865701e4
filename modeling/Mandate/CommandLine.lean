/-
  Mandate.CommandLine

  What a command line does, given the files around it and what is typed in: the
  lines it writes, the files it makes, and how it ends.

    * A source is run; what it comes to is printed.
    * `--emit-ast` stores the program tree of a source next to it.
    * `--ast` runs a stored tree. Without the source, errors are reported with raw
      offsets.

  With `-v` the trace of a run goes to a file of its own.
-/

import Mandate.CommandLine.Files
import Mandate.CommandLine.Options
import Mandate.Document.Tree
import Mandate.Execution
import Mandate.Text.Lines

namespace Mandate.CommandLine

/-- What there is before a command is carried out. -/
structure Surroundings where
  files : Files := []
  /-- What is typed in. -/
  input : Text := []

/-- How a command ends. -/
inductive Ending where
  | exit (status : Nat)
  | fault (f : Fault)
  /-- A file is not opened. -/
  | file (e : FileError)
  /-- A stored tree is no document. -/
  | notJson
  /-- A document is no program tree. -/
  | document (e : DocumentError)
  | exhausted
  /-- The trace cannot hold an error. -/
  | untraced
  deriving Inhabited

/-- What a command did. -/
structure Effects where
  ending : Ending
  output : List Text := []
  errors : List Text := []
  files : Files := []
  deriving Inhabited

/-! ## Files -/

/-- The text of a file, with its ends of line as `\n`. -/
def Surroundings.read (s : Surroundings) (path : String) : Except FileError (List Char) :=
  (s.files.content path).map fun text => Text.unifyNewlines text.toList

/-- The console with what is typed in. -/
def Surroundings.console (s : Surroundings) : Console :=
  { pending := Text.linesOf s.input }

/-- The file that a trace goes to. -/
def traceName : String := "debug.txt"

/-- The files that a run makes. -/
def traceFiles (verbosity : Nat) (r : Report) : Files :=
  if verbosity = 0 then [] else [(traceName, (Text.ofLines (r.trace.shownAt verbosity)).written)]

/-- The file that the tree of a source is stored in. -/
def treeName (path : String) : String := normalPath path ++ ".ast.json"

/-! ## Commands -/

/-- The line about an error, with line and columns if the source is there. -/
def errorLine (f : Failure) (source? : Option (List Char)) : Option Text :=
  match f with
  | .rejected e => some ("Syntax error: " ++ (source?.map e.describe).getD e.text)
  | .halted (.error e) => some ("Runtime error: " ++ (source?.map e.describe).getD e.text)
  | .halted _ | .untraced _ => none

/-- How a run that failed ends. -/
def failureEnding : Failure → Ending
  | .rejected _ | .halted (.error _) => .exit 1
  | .halted (.fault f) => .fault f
  | .halted .exhausted => .exhausted
  | .untraced _ => .untraced

/-- What a run does: its lines, then its result, or a line about its error. -/
def conclude (verbosity : Nat) (source? : Option (List Char)) (r : Report) : Effects :=
  let lines := r.console.lines
  let files := traceFiles verbosity r
  match r.outcome with
  | .ok none => { ending := .exit 0, output := lines, files := files }
  | .ok (some v) =>
    match v.printed with
    | .ok text => { ending := .exit 0, output := lines ++ [text], files := files }
    | .error f => { ending := .fault f, output := lines, files := files }
  | .error f =>
    { ending := failureEnding f, output := lines, errors := (errorLine f source?).toList,
      files := files }

/-- Why the trace of a run cannot be kept, if that is so. -/
def Surroundings.traceRefusal? (s : Surroundings) (verbosity : Nat) : Option FileError :=
  if verbosity = 0 then none else s.files.refusal? traceName

/-- Does something with the text of a file that is named. A name that leads nowhere is reported;
any other obstacle ends the command. -/
def withFile (s : Surroundings) (path : String) (act : List Char → Effects) : Effects :=
  match s.read (normalPath path) with
  | .ok text => act text
  | .error .missing | .error .blocked | .error .unnameable =>
    { ending := .exit 1, errors := ["Error: file " ++ normalPath path ++ " not found"] }
  | .error e => { ending := .file e }

/-- Runs a source. -/
def runFile (fuel verbosity : Nat) (s : Surroundings) (path : String) : Effects :=
  withFile s path fun source =>
    match s.traceRefusal? verbosity with
    | some e => { ending := .file e }
    | none => conclude verbosity (some source) (runSource fuel verbosity s.console source)

/-- Stores the tree of a source. -/
def emitFile (s : Surroundings) (path : String) : Effects :=
  withFile s path fun source =>
    match parse source with
    | .error e => { ending := .exit 1, errors := ["Syntax error: " ++ e.describe source] }
    | .ok program =>
      match s.files.refusal? (treeName path) with
      | some e => { ending := .file e }
      | none =>
        { ending := .exit 0, output := [treeName path],
          files := [(treeName path, String.ofList program.toDatum.toJson.write)] }

/-- Runs a stored tree. -/
def loadFile (fuel verbosity : Nat) (s : Surroundings) (path : String) : Effects :=
  withFile s path fun text =>
    match Json.read text with
    | .error .malformed => { ending := .notJson }
    | .error .tooManyDigits => { ending := .fault .unreadable }
    | .ok j =>
      match Datum.ofJson j with
      | .error e => { ending := .document e }
      | .ok d =>
        match s.traceRefusal? verbosity with
        | some e => { ending := .file e }
        | none =>
          let filed := decide (1 ≤ verbosity)
          conclude verbosity none (runTree fuel filed s.console #[] (Node.ofDatum d))

/-- How to use this. -/
def usage : List Text :=
  ["usage: mandate [-h] [-v] [--emit-ast FILE | --ast FILE] [FILE]",
   "",
   "  -h, --help       show this text",
   "  -v               trace the run in debug.txt; more with -vv and -vvv",
   "  --emit-ast FILE  store the program tree of a source",
   "  --ast FILE       run a stored program tree",
   "  FILE             run a source"]

/-- A file that was named, unless by an empty name. -/
def named (file? : Option String) : Option String := file?.filter (· ≠ "")

/-- Carries out a command line. -/
def run (fuel : Nat) (s : Surroundings) (words : List String) : Effects :=
  match Options.ofWords words with
  | .error .help => { ending := .exit 0, output := usage }
  | .error .misuse => { ending := .exit 2 }
  | .ok o =>
    match named o.emit?, named o.load?, named o.program? with
    | some file, _, _ => emitFile s file
    | none, some file, _ => loadFile fuel o.verbosity s file
    | none, none, some file => runFile fuel o.verbosity s file
    | none, none, none => { ending := .exit 2 }

/-- Runs a source from a file for its value, if the file can be opened. -/
def runModule (fuel verbosity : Nat) (s : Surroundings) (path : String) :
    Except FileError Report := do
  let source ← s.read path
  match s.traceRefusal? verbosity with
  | some e => .error e
  | none => return runSource fuel verbosity s.console source

end Mandate.CommandLine
