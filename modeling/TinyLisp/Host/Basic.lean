import TinyLisp.Store.Action

/-!
# Hosts

What surrounds a program. The language asks four things of it: a global by name
(`host/Name`), a new object (`new`), a member of an object (`.member`), and a
run of one of the functions that the host itself has put into the environment.
-/

namespace TinyLisp

/-- A platform that programs run on. -/
structure Host where
  /-- The global of this name. -/
  global : String → HeapAction Value
  /-- The object that a constructor makes of its arguments. -/
  construct : Value → List Value → HeapAction Value
  /-- What a member of a target gives for arguments. -/
  invoke : Value → String → List Value → HeapAction Value
  /-- What the host's function under a key, with its cell, gives for
  arguments. -/
  call : String → CellId → List Value → HeapAction Value

end TinyLisp
