/-
  Mandate.CommandLine.Options

  The words of a command line.

    -v                 more of a trace, once for each time it is given
    --emit-ast FILE    store the program tree of a source
    --ast FILE         run a stored program tree
    -h, --help         say how to use this
    FILE               run a source

  Letters can share one dash, with an equals sign after the first or not. Long
  words can be cut short as long as they stay apart, and what belongs to a long
  word can follow it or an equals sign. After `--` nothing is taken for an option,
  and attached to a long word it names no file. A single dash, a negative number,
  and what holds a blank and is no known option are taken for files.
-/

import Mandate.Number.Reading

namespace Mandate.CommandLine

/-- An option without anything to follow. -/
inductive Flag where
  | verbose | help
  deriving DecidableEq, Repr, Inhabited

/-- What to do with a file other than to run it. -/
inductive Task where
  | emit | load
  deriving DecidableEq, Repr, Inhabited

/-- A long option. -/
inductive LongOption where
  | help
  | task (t : Task)
  deriving DecidableEq, Repr, Inhabited

/-- The long options as they are written, after the dashes. -/
def longOptions : List (List Char × LongOption) :=
  [("help".toList, .help), ("emit-ast".toList, .task .emit), ("ast".toList, .task .load)]

/-- A word of a command line. -/
inductive Argument where
  /-- A file, or what belongs to the option before. -/
  | operand (text : String)
  | flags (fs : List Flag)
  /-- A task, with its file if that is part of the word. -/
  | task (t : Task) (attached : Option String)
  /-- The end of the options. -/
  | divider
  /-- An option that no one knows. -/
  | unknown
  /-- An option with something attached that it does not take. -/
  | malformed
  deriving DecidableEq, Repr, Inhabited

/-- Why a command line is not carried out. -/
inductive Refusal where
  | help | misuse
  deriving DecidableEq, Repr, Inhabited

/-! ## Single words -/

/-- The flag of a letter. -/
def flagOf (c : Char) : Option Flag :=
  if c = 'v' then some .verbose else if c = 'h' then some .help else none

/-- Flags that share a dash, after those taken before. All of them have to be flags. -/
def cluster (taken : List Flag) : List Char → Argument
  | [] => .flags taken.reverse
  | c :: rest =>
    match flagOf c with
    | some f => cluster (f :: taken) rest
    | none => .malformed

/-- A flag with the characters after it. More flags can follow an equals sign, but not none. -/
def flagArgument (f : Flag) : List Char → Argument
  | ['='] => .malformed
  | '=' :: rest => cluster [f] rest
  | rest => cluster [f] rest

/-- The part before the first equals sign, and the part after it if there is one. -/
def splitAttached (cs : List Char) : List Char × Option String :=
  match cs.dropWhile (· ≠ '=') with
  | _ :: after => (cs.takeWhile (· ≠ '='), some (String.ofList after))
  | [] => (cs, none)

/-- A long option with what is attached to it. A divider that is attached names no file. -/
def longArgument (o : LongOption) (attached : Option String) : Argument :=
  match o, attached with
  | .help, none => .flags [.help]
  | .help, some _ => .malformed
  | .task t, some "--" => .task t (some "")
  | .task t, attached => .task t attached

/-- Whether the characters after a dash make it a negative number, with or without an end of
line. -/
def isNegative (cs : List Char) : Bool :=
  let (whole, rest) := Number.spanDigits cs
  match rest with
  | [] | ['\n'] => !whole.isEmpty
  | '.' :: after =>
    let (fraction, rest) := Number.spanDigits after
    !fraction.isEmpty && (rest.isEmpty || rest == ['\n'])
  | _ => false

/-- A word with a dash that is no known option. -/
def dashed (word : String) : Argument :=
  if isNegative (word.toList.drop 1) || word.toList.contains ' ' then .operand word else .unknown

/-- A word, unless it is short for more than one option. -/
def classify (word : String) : Option Argument :=
  match word.toList with
  | '-' :: '-' :: name =>
    let (key, attached) := splitAttached name
    match longOptions.find? fun o => o.1 = key with
    | some (_, o) => some (longArgument o attached)
    | none =>
      match longOptions.filter fun o => key.isPrefixOf o.1 with
      | [] => some (dashed word)
      | [(_, o)] => some (longArgument o attached)
      | _ => none
  | ['-'] => some (.operand word)
  | '-' :: letter :: rest =>
    match flagOf letter with
    | some f => some (flagArgument f rest)
    | none => some (dashed word)
  | _ => some (.operand word)

/-- The words of a command line. -/
def classifyAll : List String → Option (List Argument)
  | [] => some []
  | word :: rest =>
    if word = "--" then some (.divider :: rest.map Argument.operand)
    else
      match classify word, classifyAll rest with
      | some a, some as => some (a :: as)
      | _, _ => none

/-! ## The whole line -/

/-- What a command line asks for. -/
structure Options where
  verbosity : Nat := 0
  emit? : Option String := none
  load? : Option String := none
  program? : Option String := none
  deriving DecidableEq, Repr, Inhabited

/-- Takes flags in order; help ends all else. -/
def Options.withFlags (o : Options) : List Flag → Except Refusal Options
  | [] => .ok o
  | .verbose :: fs => { o with verbosity := o.verbosity + 1 }.withFlags fs
  | .help :: _ => .error .help

/-- Takes a task. Two different ones do not go together. -/
def Options.withTask (o : Options) (t : Task) (file : String) : Except Refusal Options :=
  match t with
  | .emit => if o.load?.isSome then .error .misuse else .ok { o with emit? := some file }
  | .load => if o.emit?.isSome then .error .misuse else .ok { o with load? := some file }

/-- Takes words from left to right. `vacant` tells whether there is room for a file to run, and
`surplus` whether there was a word too many. -/
def Options.withArguments (o : Options) (vacant surplus : Bool) :
    List Argument → Except Refusal Options
  | [] => if surplus then .error .misuse else .ok o
  | .flags fs :: rest => do (← o.withFlags fs).withArguments vacant surplus rest
  | .task t (some file) :: rest => do (← o.withTask t file).withArguments vacant surplus rest
  | .task t none :: .operand file :: rest => do
    (← o.withTask t file).withArguments vacant surplus rest
  | .task _ none :: _ | .malformed :: _ => .error .misuse
  | .unknown :: rest => o.withArguments vacant true rest
  | .operand file :: .divider :: rest =>
    if vacant then { o with program? := some file }.withArguments false surplus rest
    else o.withArguments false true rest
  | .operand file :: rest =>
    if vacant then { o with program? := some file }.withArguments false surplus rest
    else o.withArguments false true rest
  | .divider :: .operand file :: rest =>
    if vacant then { o with program? := some file }.withArguments false surplus rest
    else o.withArguments false true rest
  | .divider :: rest => o.withArguments false (surplus || !vacant) rest

/-- What a command line asks for. -/
def Options.ofWords (words : List String) : Except Refusal Options :=
  match classifyAll words with
  | some as => ({} : Options).withArguments true false as
  | none => .error .misuse

end Mandate.CommandLine
