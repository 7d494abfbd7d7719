import RoutePolicy.Command.Run

set_option autoImplicit false

/-! # The command on a disk -/

namespace RoutePolicy

/-- An action, or nothing if it does not work. -/
def attempt {α : Type} (action : IO α) : IO (Option α) := do
  try return some (← action)
  catch _ => return none

/-- The folder that a path leads through last, if it names one. -/
def folderOf (path : String) : String := String.intercalate "/" (FileTree.names path).dropLast

instance : Host IO where
  contains path := do return (← attempt (IO.FS.Handle.mk path .read)).isSome
  read path := attempt (IO.FS.readFile path)
  write path text := do
    let folder := folderOf path
    let made ← attempt (do if folder ≠ "" then IO.FS.createDirAll folder)
    if made.isNone then return false
    return (← attempt (IO.FS.writeFile path text)).isSome
  print text := do
    let out ← IO.getStdout
    out.putStr text
    out.flush

end RoutePolicy

open RoutePolicy in
/-- Verifies the request named by the arguments and by the variable `RV_FLAGS`. -/
def main (arguments : List String) : IO UInt32 := do
  let flags := (← IO.getEnv "RV_FLAGS").getD ""
  let status ← Command.run (m := IO) flags arguments
  return status.code.toUInt32
