import CssInliner.Cli.Command
import CssInliner.Cli.Words

/-!
The command on a real machine.
-/

namespace CssInliner.Cli

partial def readAll (stream : IO.FS.Stream) (bytes : ByteArray) : IO ByteArray := do
  let part ← stream.read 65536
  if part.isEmpty then return bytes
  readAll stream (bytes ++ part)

def accessError : IO.Error → AccessError
  | .noFileOrDirectory .. => .notFound
  | .inappropriateType _ 20 _ => .notFolder
  | .inappropriateType _ 21 _ => .isFolder
  | e => .other e.toString.toList

def attemptAccess {α : Type} (access : IO α) : IO (Except AccessError α) := do
  try return .ok (← access)
  catch e => return .error (accessError e)

def decode (bytes : ByteArray) : Except AccessError Text :=
  match String.fromUTF8? bytes with
  | some s => .ok s.toList
  | none => .error .notText

def appendTo (path text : String) : IO Unit := do
  let file ← IO.FS.Handle.mk path .append
  file.putStr text

/-- Puts text on standard output at once, so that a refusal is noticed. -/
def printOut (text : String) : IO Unit := do
  let stdout ← IO.getStdout
  stdout.putStr text
  stdout.flush

def machine : Host IO where
  read
    | some path => do
        return (← attemptAccess (IO.FS.readBinFile (String.ofList path))).bind decode
    | none => do
        let stdin ← IO.getStdin
        return (← attemptAccess (readAll stdin ByteArray.empty)).bind decode
  create path := attemptAccess (appendTo (String.ofList path) "")
  append path text := do
    let _ ← attemptAccess (appendTo (String.ofList path) (String.ofList text))
  write path text := attemptAccess (IO.FS.writeFile (String.ofList path) (String.ofList text))
  out text := attemptAccess (printOut (String.ofList text))
  err text := IO.eprint (String.ofList text)

end CssInliner.Cli

def main (words : List String) : IO UInt32 := do
  let words := words.map String.toList
  return (← CssInliner.Cli.run CssInliner.Cli.machine CssInliner.Cli.wordParser words).toUInt32
