import TinyLisp.Builtin.Arithmetic
import TinyLisp.Builtin.Mapping
import TinyLisp.Builtin.Sequence
import TinyLisp.Host.Standard

/-!
# Running primitives

Most primitives only compute. A few look at or change the heap: they print, or
they work on atoms. None sees the frames.
-/

namespace TinyLisp

/-- The display texts of the arguments with spaces between them. -/
def displayed (args : List Value) : HeapAction String := do
  return Value.spaced (← HeapAction.renderAll false args)

/-- The cell of an argument that must be an atom. -/
def cellOf (name : String) : Value → Except Fault CellId
  | .atom cell => .ok cell
  | other => .error (.wrongType name "atom" other)

/-- The number that a text is, or not-a-number. White space around it
does not count. -/
def parseFloatOf (args : List Value) : Except Fault Value := do
  let s ← StandardHost.stringArg "parseFloat" args 0
  return .number ((Number.read (Text.trim s)).getD Number.nan)

namespace Primitive

open Arguments Arithmetic Sequence Mapping

def call (p : Primitive) (args : List Value) : HeapAction Value :=
  match p with
  | add => .ofExcept (sumOf args)
  | sub => .ofExcept (differenceOf args)
  | mul => .ofExcept (productOf args)
  | div => .ofExcept (quotientOf args)
  | rem => .ofExcept (remainderOf args)
  | same => .ofExcept ((allSame "=" args).map .bool)
  | notSame => .ofExcept ((allSame "not=" args).map fun b => .bool !b)
  | lt => .ofExcept (compareOf "<" (fun x y => x < y) args)
  | gt => .ofExcept (compareOf ">" (fun x y => y < x) args)
  | le => .ofExcept (compareOf "<=" (fun x y => x ≤ y) args)
  | ge => .ofExcept (compareOf ">=" (fun x y => y ≤ x) args)
  | not => .ofExcept ((one "not" args).map fun v => .bool !v.truthy)
  | str => do
    let shown := args.filter fun v => !v.isNil
    return .string (String.join (← HeapAction.renderAll false shown))
  | prStr => do
    return .string (Value.spaced (← HeapAction.renderAll true args))
  | print => do
    HeapAction.print (← displayed args)
    return .nil
  | println => do
    HeapAction.print ((← displayed args) ++ "\n")
    return .nil
  | list => return .list args none
  | vector => return .vectorOf args
  | first => .ofExcept (firstOf args)
  | rest => .ofExcept (restOf args)
  | count => .ofExcept (countOf args)
  | isEmpty => .ofExcept (emptyOf args)
  | cons => .ofExcept (consOf args)
  | nth => .ofExcept (nthOf args)
  | conj => .ofExcept (conjOf args)
  | hashMap => .ofExcept (hashMapOf args)
  | get => .ofExcept (getOf args)
  | assoc => .ofExcept (assocOf args)
  | dissoc => .ofExcept (dissocOf args)
  | keys => .ofExcept (keysOf args)
  | vals => .ofExcept (valsOf args)
  | contains => .ofExcept (containsOf args)
  | atom => do
    let v ← HeapAction.ofExcept (one "atom" args)
    return .atom (← HeapAction.newCell v)
  | isAtom =>
    .ofExcept ((one "atom?" args).map fun v => .bool (v.typeName == "atom"))
  | deref => do
    let v ← HeapAction.ofExcept (one "deref" args)
    HeapAction.readCell (← HeapAction.ofExcept (cellOf "deref" v))
  | reset => do
    let (a, v) ← HeapAction.ofExcept (two "reset!" args)
    HeapAction.writeCell (← HeapAction.ofExcept (cellOf "reset!" a)) v
    return v
  | identity => .ofExcept (one "identity" args)
  | type => .ofExcept ((one "type" args).map fun v => .keyword v.typeName)
  | parseFloat => .ofExcept (parseFloatOf args)

end Primitive

end TinyLisp
