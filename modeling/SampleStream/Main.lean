import SampleStream.Command.Outcome

/-!
# The program

Reads what an invocation may need, runs it, and prints what came of it.
-/

namespace SampleStream

/-- The fault that the system reports. -/
def faultOf : IO.Error → FileFault
  | .noFileOrDirectory .. => .missing
  | .inappropriateType _ 21 _ => .directory
  | .inappropriateType .. => .notDirectory
  | .permissionDenied _ code text => .system text code.toNat
  | .invalidArgument _ code text => .system text code.toNat
  | .resourceExhausted _ code text => .system text code.toNat
  | .otherError code text => .system text code.toNat
  | _ => .notText

def readFile (path : String) : IO (Except FileFault String) := do
  try
    return .ok (← IO.FS.readFile path)
  catch e =>
    return .error (faultOf e)

/-- The bytes of a stream from here to its end. -/
partial def readBytes (stream : IO.FS.Stream) (front : ByteArray) : IO ByteArray := do
  let bytes ← stream.read 65536
  if bytes.isEmpty then return front else readBytes stream (front ++ bytes)

def readInput : IO (Except FileFault String) := do
  match String.fromUTF8? (← readBytes (← IO.getStdin) .empty) with
  | some text => return .ok text
  | none => return .error .notText

def surroundings (i : Invocation) : IO Surroundings := do
  let files ← i.paths.mapM fun path => return (path, ← readFile path)
  let input ← if i.readsInput then readInput else pure (.ok "")
  return ⟨fun path => (files.lookup path).getD (.error .missing), input⟩

def perform (words : List String) : IO Run := do
  match Invocation.ofWords words with
  | .ok i => return i.run (← surroundings i)
  | .error s => return ⟨[], .stopped s⟩

end SampleStream

def main (words : List String) : IO UInt32 := do
  let run ← SampleStream.perform words
  IO.print (run.standardOutput toString)
  IO.eprint run.standardError
  return run.exitCode
