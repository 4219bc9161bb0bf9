import NandLang.Command.Execute

/-! The command line program: reads the source, prints the response. -/
namespace NandLang.Command

/-- More rounds than any loop will be waited for. -/
def loopRounds : Nat := Nat.pow 2 62

def sourceAt (path : String) : IO Source := do
  try
    return .content (← IO.FS.readBinFile path).toList
  catch
    | .inappropriateType .. => return .directory
    | .permissionDenied .. => return .denied
    | .invalidArgument .. => return .tooLong
    | _ => return .missing

partial def readStdin (input : IO.FS.Stream) (bytes : ByteArray) : IO ByteArray := do
  let more ← input.read 65536
  if more.isEmpty then return bytes else readStdin input (bytes ++ more)

def readTarget : Target → IO Input
  | .stdin => return .stdin (← readStdin (← IO.getStdin) ByteArray.empty).toList
  | .file path => return .file path (← sourceAt path)

/-- The home directory of the user who asks; other users are not looked up. -/
def readHomes : IO Homes := do
  match ← IO.getEnv "HOME" with
  | some home => return [("", home)]
  | none => return []

def emit (r : Response) : IO UInt32 := do
  (← IO.getStdout).putStr r.out
  (← IO.getStderr).putStr r.err
  return r.exit.code.toUInt32

def emitAbort (a : Abort) : IO UInt32 := do
  (← IO.getStderr).putStr (a.message ++ "\n")
  return 1

def serve (arguments : List String) : IO UInt32 := do
  match Invocation.ofArguments arguments with
  | .error response => emit response
  | .ok invocation =>
    match invocation.target (← readHomes) with
    | .error abort => emitAbort abort
    | .ok target =>
      match invocation.respond loopRounds (← readTarget target) with
      | .ok response => emit response
      | .error abort => emitAbort abort

end NandLang.Command

def main (arguments : List String) : IO UInt32 := NandLang.Command.serve arguments
