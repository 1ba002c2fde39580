import TinyLisp.CommandLine

/-!
# The program

Reads the files that the command line names, runs what it asks for, and prints
the output, the reports and the failure.
-/

namespace TinyLisp.CommandLine

/-- Why a file cannot be read, in the words and with the number of the
system. -/
def reason : IO.Error → String
  | .noFileOrDirectory _ _ _ => "No such file or directory (os error 2)"
  | .permissionDenied _ _ _ => "Permission denied (os error 13)"
  | .inappropriateType _ 21 _ => "Is a directory (os error 21)"
  | .inappropriateType _ _ _ => "Not a directory (os error 20)"
  | other => other.toString

def readFileText (path : String) : IO Engine.FileText := do
  try
    match String.fromUTF8? (← IO.FS.readBinFile path) with
    | some text => return .ok text
    | none => return .error "stream did not contain valid UTF-8"
  catch e =>
    return .error (reason e)

def usage : String :=
  "usage: [FILE]... [-e EXPR]... [-p] [-v]"

/-- The budget of the program: more steps than a machine takes in its life. -/
def endless : Nat := 0x4000000000000000

end TinyLisp.CommandLine

open TinyLisp CommandLine

def main (args : List String) : IO UInt32 := do
  match Options.parse args with
  | none =>
    IO.eprintln usage
    return 2
  | some options =>
    let texts ← options.files.mapM fun path =>
      return (path, ← readFileText path)
    let read := fun path => (texts.lookup path).getD (.error "not read")
    match run ⟨.standard, endless⟩ read options with
    | none => return 1
    | some report =>
      report.entries.forM fun entry => do
        IO.print entry.output
        entry.value.forM fun text => IO.println text
      match report.failure with
      | none => return 0
      | some e =>
        IO.eprintln ("error: " ++ e.text)
        return 1
