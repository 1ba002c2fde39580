import TinyLisp.Engine

/-!
# The command line

Arguments are files and options, in any order. `-e` or `--eval` takes an
expression, `-p` or `--print` asks for the results, `-v` or `--verbose` for a
log. Single letters may be run together, and a value may be attached to its
option. A value of its own must not look like an option, though a single dash
may stand. Two dashes end the options.

Files are run first, then expressions, all against one engine. The first failure
ends the run.
-/

namespace TinyLisp

structure Options where
  files : List String := []
  expressions : List String := []
  print : Bool := false
  verbose : Bool := false
deriving DecidableEq, Repr

namespace Options

/-- Add a file. It must have a name. -/
def addFile (o : Options) (path : String) : Option Options :=
  if path.isEmpty then none else some { o with files := o.files ++ [path] }

def addExpression (o : Options) (source : String) : Options :=
  { o with expressions := o.expressions ++ [source] }

/-- Set the print flag, which may be given once. -/
def setPrint (o : Options) : Option Options :=
  if o.print then none else some { o with print := true }

/-- Set the verbose flag, which may be given once. -/
def setVerbose (o : Options) : Option Options :=
  if o.verbose then none else some { o with verbose := true }

/-- Read the letters behind a dash. The flag says whether the last one takes its
value from the next argument. -/
def letters (o : Options) : List Char → Option (Options × Bool)
  | [] => some (o, false)
  | 'e' :: [] => some (o, true)
  | 'e' :: '=' :: value => some (o.addExpression (String.ofList value), false)
  | 'e' :: value => some (o.addExpression (String.ofList value), false)
  | 'p' :: rest =>
    match o.setPrint with
    | some o => letters o rest
    | none => none
  | 'v' :: rest =>
    match o.setVerbose with
    | some o => letters o rest
    | none => none
  | _ :: _ => none

/-- Read an option of two dashes, without them. The flag says whether it takes
its value from the next argument. -/
def long (o : Options) (name : String) : Option (Options × Bool) :=
  if name = "eval" then some (o, true)
  else if name = "print" then o.setPrint.map (·, false)
  else if name = "verbose" then o.setVerbose.map (·, false)
  else if "eval=".toList.isPrefixOf name.toList then
    some (o.addExpression (String.ofList (name.toList.drop 5)), false)
  else none

/-- Read an argument that is not the value of an option. -/
def argument (o : Options) (arg : String) : Option (Options × Bool) :=
  match arg.toList with
  | '-' :: '-' :: name => o.long (String.ofList name)
  | '-' :: c :: rest => o.letters (c :: rest)
  | _ => (o.addFile arg).map (·, false)

def looksLikeOption (arg : String) : Bool :=
  match arg.toList with
  | '-' :: _ :: _ => true
  | _ => false

def addFiles (o : Options) : List String → Option Options
  | [] => some o
  | path :: paths => (o.addFile path).bind (addFiles · paths)

/-- Read arguments. With `awaiting`, the next one is the value of an option.
Nothing is given for arguments that are refused. -/
def parseFrom (o : Options) (awaiting : Bool) : List String → Option Options
  | [] => if awaiting then none else some o
  | arg :: args =>
    if awaiting then
      if looksLikeOption arg then none
      else parseFrom (o.addExpression arg) false args
    else if arg = "--" then o.addFiles args
    else
      match o.argument arg with
      | some (o, awaiting) => parseFrom o awaiting args
      | none => none

def parse (args : List String) : Option Options :=
  parseFrom {} false args

end Options

namespace CommandLine

/-- What one source did: what it printed and, if results are asked for, the
readable text of its value. -/
structure Entry where
  output : String
  value : Option String
deriving DecidableEq, Repr

/-- What the sources did in turn, and the failure that ended the run
if one did. -/
structure Report where
  entries : List Entry
  failure : Option Failure

/-- Run sources, each an action with a value, on a store that has printed
nothing. Nothing is given when the budget runs out. -/
def runAll (print : Bool) : List (Action Value) → Store → Option Report
  | [], _ => some ⟨[], none⟩
  | x :: xs, s =>
    match x s with
    | .exhausted => none
    | .failure e s => some ⟨[⟨s.heap.output, none⟩], some e⟩
    | .result v s =>
      let value := if print then some (v.render s.heap.cells true) else none
      (runAll print xs s.silenced).map fun r =>
        { r with entries := ⟨s.heap.output, value⟩ :: r.entries }

/-- Run what the options ask for. `read` gives the text of a file. -/
def run (engine : Engine) (read : String → Engine.FileText) (o : Options) :
    Option Report :=
  let files := o.files.map fun path => engine.loadFile path (read path)
  let expressions := o.expressions.map fun source => engine.load source "<eval>"
  runAll o.print (files ++ expressions) .initial

end CommandLine

end TinyLisp
