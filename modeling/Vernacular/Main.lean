import Vernacular.Command

set_option autoImplicit false

namespace Vernacular

def readState (path : String) : IO FileState := do
  try
    return .content (← IO.FS.readFile path)
  catch
    | .noFileOrDirectory .. => return .absent
    | e => return .failing ("open " ++ path ++ ": " ++ toString e)

end Vernacular

def main (args : List String) : IO UInt32 := do
  let response ← Vernacular.Command.run Vernacular.readState args
  IO.print response.output
  IO.eprint response.errors
  return response.exitCode.toUInt32
