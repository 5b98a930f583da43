import Tromp.Command.Plan

/-!
# The program

Reads the input file if there is one, makes the plan for the command line and carries it out.
-/

namespace Tromp

/-- Why an access to a file failed. -/
def faultOf : IO.Error → FileFault
  | .alreadyExists .. => .taken
  | .inappropriateType .. => .isFolder
  | _ => .missing

/-- Reads a file. -/
def readInput (path : Path) : IO (Except FileFailure String) := do
  try
    return .ok (← IO.FS.readFile path.text)
  catch e => return .error ⟨faultOf e, path⟩

/-- Carries out an action. -/
def carryOut (level : Severity) : Action → IO Unit
  | .print text => IO.print text
  | .report text => IO.eprint text
  | .tell record => IO.eprint (record.linesFrom level)
  | .needFolder path => IO.FS.createDirAll path.text
  | .write path content => IO.FS.writeFile path.text content
  | .image _ path => throw (IO.userError ("no image can be made for " ++ path.text))

end Tromp

open Tromp in
def main (arguments : List String) : IO UInt32 := do
  let content ← match Request.ofArguments arguments with
    | .ok { input := some path, .. } => readInput path
    | _ => pure (.ok "")
  let plan := Plan.ofArguments arguments fun _ => content
  plan.actions.forM (carryOut plan.level)
  match plan.ending with
  | .ok status => return status.toUInt32
  | .error fault => throw (IO.userError fault.message)
