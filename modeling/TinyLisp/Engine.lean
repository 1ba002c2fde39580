import TinyLisp.Eval.Machine

/-!
# The engine

An engine is a host and a store with one root scope. Sources are run against the
root form by form: an error in the characters stops a source before anything is
run, an error in the tokens stops it behind the forms before it, and a failure
stops it at the form that fails. What was done stays done.

All runs take a budget for the evaluator.
-/

namespace TinyLisp

namespace Store

def root : Scope := ⟨0, []⟩

/-- A store with an empty root frame. -/
def bare : Store := { frames := #[[]] }

/-- Bind built-in functions in the root frame, each with an identity
of its own. -/
def install (s : Store) : List Builtin → Store
  | [] => s
  | b :: bs =>
    let id := s.heap.nextId
    let s := s.bind root b.name (.native b.name (.builtin b) id)
    install { s with heap := { s.heap with nextId := id + 1 } } bs

/-- A store with the built-in functions. -/
def initial : Store := bare.install Builtin.all

end Store

/-- A host, and the budget for runs on it. -/
structure Engine where
  host : Host
  budget : Nat

namespace Engine

variable (engine : Engine)

def evalIn (form : Value) (scope : Scope) : Action Value :=
  Machine.eval engine.host .deferring engine.budget form scope

def eval (form : Value) : Action Value :=
  engine.evalIn form Store.root

/-- Run forms one after the other. The value is that of the last one, or `last`
if there are none. -/
def evalForms (last : Value) : List Value → Action Value
  | [] => pure last
  | form :: forms => do
    let v ← engine.eval form
    evalForms v forms

/-- Run a program: its forms, then the error behind them if there is one. -/
def run (p : Program) : Action Value := do
  let v ← engine.evalForms .nil p.forms
  match p.error with
  | none => pure v
  | some e => Action.rethrow (.ofReadError e)

/-- Run a source text, called `file` in the places of failures. -/
def load (source file : String) : Action Value :=
  match tokenize source file with
  | .error e => Action.rethrow (.ofLexError e)
  | .ok tokens => engine.run (Program.ofTokens tokens)

/-- What reading a file may give: its text, or why it cannot be read. -/
abbrev FileText := Except String String

def loadFile (path : String) (text : FileText) : Action Value :=
  match text with
  | .ok source => engine.load source path
  | .error reason => Action.fail (.unreadable path reason)

def call (name : String) (args : List Value) : Action Value := do
  let f ← Action.resolve Store.root name
  Machine.apply engine.host .deferring engine.budget f args

end Engine

def readFirst (source file : String) : Except Failure (Option Value) :=
  match tokenize source file with
  | .error e => .error (.ofLexError e)
  | .ok tokens => ((Program.ofTokens tokens).first).mapError .ofReadError

def readAll (source file : String) : Except Failure (List Value) :=
  match tokenize source file with
  | .error e => .error (.ofLexError e)
  | .ok tokens => ((Program.ofTokens tokens).complete).mapError .ofReadError

end TinyLisp
