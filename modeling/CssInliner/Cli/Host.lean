import CssInliner.Text.Basic

/-!
What a command needs from the machine it runs on: files, standard input and two
channels for output. Every access succeeds or fails as a whole. What becomes of a record
or of a message on the error channel nobody asks.
-/

namespace CssInliner.Cli

inductive AccessError where
  | notFound
  /-- A path leads through something that is not a folder. -/
  | notFolder
  /-- A file is asked for where a folder is. -/
  | isFolder
  /-- What was read is not text. -/
  | notText
  | other (message : Text)
deriving DecidableEq, Repr

def AccessError.message : AccessError → Text
  | notFound => "No such file or directory (os error 2)".toList
  | notFolder => "Not a directory (os error 20)".toList
  | isFolder => "Is a directory (os error 21)".toList
  | notText => "stream did not contain valid UTF-8".toList
  | other message => message

structure Host (m : Type → Type) where
  /-- The text of a file, or of standard input where no path is given. -/
  read : Option Text → m (Except AccessError Text)
  /-- Makes sure that a file exists, and leaves what is in it. -/
  create : Text → m (Except AccessError Unit)
  /-- Adds text at the end of a file. -/
  append : (path text : Text) → m Unit
  /-- Replaces the text of a file. -/
  write : (path text : Text) → m (Except AccessError Unit)
  /-- Puts text on standard output. -/
  out : Text → m (Except AccessError Unit)
  err : Text → m Unit

end CssInliner.Cli
