import TinyLisp.Host.Basic

/-!
# A host that counts

The smallest host with something to remember. It has one object, whose members
do nothing but be counted: there are as many lines in the journal as members
have been invoked.
-/

namespace TinyLisp

namespace CountingHost

def global (name : String) : HeapAction Value :=
  match name with
  | "Counter" => do
    return .host "Counter" .bare (← HeapAction.freshId)
  | _ => HeapAction.fail (.unbound ("host/" ++ name))

/-- Whatever is constructed is the vector of the arguments. -/
def construct (_ : Value) (args : List Value) : HeapAction Value :=
  pure (.vectorOf args)

/-- Every member gives its own name. -/
def invoke (_ : Value) (member : String) (_ : List Value) :
    HeapAction Value := do
  HeapAction.note member
  return .string member

end CountingHost

/-- The counting host. It puts no functions of its own into the environment. -/
def Host.counting : Host where
  global := CountingHost.global
  construct := CountingHost.construct
  invoke := CountingHost.invoke
  call := fun key _ _ => HeapAction.fail (.noCode key)

end TinyLisp
