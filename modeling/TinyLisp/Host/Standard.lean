import TinyLisp.Host.Basic
import TinyLisp.Text.Case

/-!
# The standard host

A small platform: the numeric functions of `Math`, growing texts called
`StringBuilder`, the function `parseFloat`, and a few members of strings.
-/

namespace TinyLisp

namespace StandardHost

/-- The argument at an index as a number. -/
def numberArg (member : String) (args : List Value) (i : Nat) :
    Except Fault Float :=
  match args[i]? with
  | some (.number x) => .ok x
  | some other => .error (.wrongType member "number" other)
  | none => .error (.wrongCount member (i + 1) args.length)

/-- The argument at an index as a text. -/
def stringArg (member : String) (args : List Value) (i : Nat) :
    Except Fault String :=
  match args[i]? with
  | some (.string s) => .ok s
  | some other => .error (.wrongType member "string" other)
  | none => .error (.wrongCount member (i + 1) args.length)

def unary (member : String) (args : List Value) (f : Float → Float) :
    Except Fault Value := do
  return .number (f (← numberArg member args 0))

/-- All arguments, which must be numbers. -/
def numberArgs (member : String) (args : List Value) :
    Except Fault (List Float) :=
  args.mapM fun
    | .number x => .ok x
    | other => .error (.wrongType member "number" other)

/-- The larger of two numbers. Not-a-number counts for nothing. -/
def larger (x y : Float) : Float :=
  if x.isNaN then y else if y.isNaN then x else if x < y then y else x

/-- The smaller of two numbers. Not-a-number counts for nothing. -/
def smaller (x y : Float) : Float :=
  if x.isNaN then y else if y.isNaN then x else if y < x then y else x

/-- The members of `Math`. Halves are rounded up. -/
def math (member : String) (args : List Value) : Except Fault Value :=
  match member with
  | "PI" => .ok (.number 3.141592653589793)
  | "E" => .ok (.number 2.718281828459045)
  | "floor" => unary member args Float.floor
  | "ceil" => unary member args Float.ceil
  | "round" => unary member args fun x => (x + 0.5).floor
  | "sqrt" => unary member args Float.sqrt
  | "abs" => unary member args Float.abs
  | "pow" => do
    let x ← numberArg member args 0
    let y ← numberArg member args 1
    return .number (Float.pow x y)
  | "max" => do
    return .number ((← numberArgs member args).foldl larger (-Number.infinity))
  | "min" => do
    return .number ((← numberArgs member args).foldl smaller Number.infinity)
  | _ => .error (.host ("Math has no member '" ++ member ++ "'"))

/-- The members of strings. Lengths count characters. -/
def stringMember (s member : String) (args : List Value) : Except Fault Value :=
  match member with
  | "toUpperCase" => .ok (.string (Text.toUpper s))
  | "toLowerCase" => .ok (.string (Text.toLower s))
  | "trim" => .ok (.string (Text.trim s))
  | "length" => .ok (.number (Float.ofNat s.length))
  | "includes" => do
    let part ← stringArg member args 0
    return .bool (Text.occursIn part.toList s.toList)
  | "startsWith" => do
    let part ← stringArg member args 0
    return .bool (part.toList.isPrefixOf s.toList)
  | _ => .error (.host ("string has no member '" ++ member ++ "'"))

/-- The members of text buffers. Appending gives the buffer itself. -/
def bufferMember (target : Value) (buffer : Nat) (member : String)
    (args : List Value) : HeapAction Value :=
  match member with
  | "append" => do
    HeapAction.appendBuffer buffer
      (String.join (← HeapAction.renderAll false args))
    return target
  | "toString" => do
    return .string (← HeapAction.readBuffer buffer)
  | "length" => do
    return .number (Float.ofNat (← HeapAction.readBuffer buffer).length)
  | _ =>
    HeapAction.fail (.host ("StringBuilder has no member '" ++ member ++ "'"))

/-- The globals. Each mention of one makes a new object. -/
def global (name : String) : HeapAction Value :=
  match name with
  | "Math" => do
    return .host "Math" .bare (← HeapAction.freshId)
  | "StringBuilder" => do
    return .host "Constructor" (.constructor "StringBuilder")
      (← HeapAction.freshId)
  | "parseFloat" => do
    return .native "parseFloat" (.builtin (.primitive .parseFloat))
      (← HeapAction.freshId)
  | _ => HeapAction.fail (.unbound ("host/" ++ name))

/-- New objects. The only constructor is that of text buffers, which start with
the display texts of the arguments. -/
def construct (ctor : Value) (args : List Value) : HeapAction Value :=
  match ctor with
  | .host "Constructor" (.constructor "StringBuilder") _ => do
    let buffer ← HeapAction.newBuffer
        (String.join (← HeapAction.renderAll false args))
    return .host "StringBuilder" (.buffer buffer) (← HeapAction.freshId)
  | other => do
    HeapAction.fail
      (.host ((← HeapAction.render true other) ++ " is not a constructor"))

/-- Members of strings, of `Math` and of text buffers. -/
def invoke (target : Value) (member : String) (args : List Value) :
    HeapAction Value :=
  match target with
  | .string s => HeapAction.ofExcept (stringMember s member args)
  | .host "Math" _ _ => HeapAction.ofExcept (math member args)
  | .host "StringBuilder" (.buffer buffer) _ =>
    bufferMember target buffer member args
  | .host "StringBuilder" _ _ => HeapAction.fail (.host "corrupt StringBuilder")
  | other =>
    HeapAction.fail
      (.host ("Cannot invoke '" ++ member ++ "' on " ++ other.typeName))

end StandardHost

/-- The standard host. It puts no functions of its own into the environment. -/
def Host.standard : Host where
  global := StandardHost.global
  construct := StandardHost.construct
  invoke := StandardHost.invoke
  call := fun key _ _ => HeapAction.fail (.noCode key)

end TinyLisp
