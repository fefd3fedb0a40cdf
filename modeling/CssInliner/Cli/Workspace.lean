import CssInliner.Cli.Command
import CssInliner.Cli.Path
import CssInliner.Cli.Words
import Std.Data.TreeMap

/-!
A machine in memory: a set of files, a standard input and what was put out. A folder is
there if a file is in it or below it. A file can be made only in a folder that is there.
Beside that the machine may refuse any access for reasons of its own.
-/

namespace CssInliner.Cli

inductive Access where
  | read
  | write
deriving DecidableEq, Repr

/-- What a machine refuses for reasons of its own. -/
structure Refusals where
  access : Access → (path : Text) → Option AccessError
  /-- By what is out already and what is to follow. -/
  out : (before text : Text) → Option AccessError

def Refusals.none : Refusals := ⟨fun _ _ => .none, fun _ _ => .none⟩

structure Workspace where
  /-- The files by the shortest spelling of their paths. -/
  files : Std.TreeMap Text Text
  stdin : Except AccessError Text
  out : Text
  err : Text

namespace Workspace

def ofFiles (files : List (Text × Text)) (stdin : Except AccessError Text) : Workspace where
  files := files.foldl (fun m file => m.insert (canonical file.1) file.2) ∅
  stdin
  out := []
  err := []

def isFile (w : Workspace) (a : Address) : Bool := w.files.contains a.toPath

def isFolder (w : Workspace) (a : Address) : Bool :=
  a.isGiven || w.files.keys.any fun path => a.isSuffixOf (Address.ofPath path).tail

/-- What stands in the way where the parts of a path are to lead through folders. -/
def obstacle (w : Workspace) (a : Address) : List Text → Option AccessError
  | [] => none
  | part :: rest =>
      let next := a.follow part
      if w.isFolder next then w.obstacle next rest
      else some (if w.isFile next then .notFolder else .notFound)

/-- What stands in the way of an access to the file that a path leads to. A path
that ends with a slash can only mean a folder. -/
def fault (w : Workspace) (access : Access) (path : Text) : Option AccessError :=
  match w.obstacle (.start path) (parts path).dropLast with
  | some e => some e
  | none =>
      let a := Address.ofPath path
      if w.isFolder a then some .isFolder
      else
        match access, w.isFile a with
        | .read, false => some .notFound
        | .read, true => if path.getLast? = some '/' then some .notFolder else none
        | .write, _ => if path.getLast? = some '/' then some .isFolder else none

section

variable (r : Refusals) (w : Workspace)

def trouble (access : Access) (path : Text) : Option AccessError :=
  (r.access access path).or (w.fault access path)

/-- The text of a file; a file that is not there yet is empty. -/
def textOf (path : Text) : Text := (w.files[canonical path]?).getD []

def read : Option Text → Except AccessError Text
  | none => w.stdin
  | some path =>
      match w.trouble r .read path with
      | some e => .error e
      | none => .ok (w.textOf path)

def change (path : Text) (f : Text → Text) : Except AccessError Workspace :=
  match w.trouble r .write path with
  | some e => .error e
  | none => .ok { w with files := w.files.insert (canonical path) (f (w.textOf path)) }

def print (text : Text) : Except AccessError Workspace :=
  match r.out w.out text with
  | some e => .error e
  | none => .ok { w with out := w.out ++ text }

/-- The files in the working folder and below, by name. They are what there is to compare
after a run: a path may lead out of the folder that it started in. -/
def localFiles : List (Text × Text) :=
  w.files.toList.filter fun file => (Address.ofPath file.1).isLocal

end

end Workspace

/-- Runs an access that may change the workspace; one that fails leaves it. -/
def commit (change : Workspace → Except AccessError Workspace) :
    StateM Workspace (Except AccessError Unit) := fun w =>
  match change w with
  | .ok w => (.ok (), w)
  | .error e => (.error e, w)

def workspaceHost (r : Refusals) : Host (StateM Workspace) where
  read path := fun w => (w.read r path, w)
  create path := commit fun w => w.change r path id
  append path text := fun w => ((), (w.change r path (· ++ text)).toOption.getD w)
  write path text := commit fun w => w.change r path fun _ => text
  out text := commit fun w => w.print r text
  err text := fun w => ((), { w with err := w.err ++ text })

/-- Runs a command line in a workspace that refuses nothing: the exit code and the
workspace behind it. -/
def runIn (w : Workspace) (words : List Text) : Nat × Workspace :=
  (run (workspaceHost .none) wordParser words : StateM Workspace Nat) w

end CssInliner.Cli
