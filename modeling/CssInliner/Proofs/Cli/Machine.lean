import CssInliner.Cli.Workspace
import Mathlib.Logic.Function.Basic

/-!
What a command may count on in the machine it runs on. Of a state of the machine all
that matters is what there is to see: the files, each under something that all paths to
it share, the standard input, and what was put out. An access that succeeds does what
it says and nothing else, and one that fails does nothing. The machine in memory is of
this kind, whatever it refuses.
-/

namespace CssInliner.Cli

/-- What there is to see of a machine, with its files under keys of a type `κ`. -/
structure Sight (κ : Type) where
  files : κ → Option Text
  stdin : Except AccessError Text
  out : Text
  err : Text

namespace Sight

variable {κ : Type}

/-- The text of a file; a file that is not there has none. -/
def textOf (v : Sight κ) (file : κ) : Text := (v.files file).getD []

def put [DecidableEq κ] (v : Sight κ) (file : κ) (text : Text) : Sight κ :=
  { v with files := Function.update v.files file (some text) }

theorem files_put_of_ne [DecidableEq κ] (v : Sight κ) {file other : κ} (h : other ≠ file)
    (text : Text) : (v.put file text).files other = v.files other :=
  Function.update_of_ne h ..

end Sight

/-- Every access succeeds or fails as a whole. `locate` tells which file a path leads to
and `view` what there is to see of a state. -/
structure Host.Atomic {σ κ : Type} [DecidableEq κ] (host : Host (StateM σ)) (locate : Text → κ)
    (view : σ → Sight κ) : Prop where
  view_read : ∀ input s, view (host.read input s).2 = view s
  read_stdin : ∀ s, (host.read none s).1 = (view s).stdin
  read_file : ∀ path s text, (host.read (some path) s).1 = .ok text →
    (view s).files (locate path) = some text
  create : ∀ path s, view (host.create path s).2 =
    match (host.create path s).1 with
    | .ok () => (view s).put (locate path) ((view s).textOf (locate path))
    | .error _ => view s
  /-- Nobody asks whether text could be added. -/
  append : ∀ path text s, view (host.append path text s).2 = view s ∨
    view (host.append path text s).2 =
      (view s).put (locate path) ((view s).textOf (locate path) ++ text)
  write : ∀ path text s, view (host.write path text s).2 =
    match (host.write path text s).1 with
    | .ok () => (view s).put (locate path) text
    | .error _ => view s
  out : ∀ text s, view (host.out text s).2 =
    match (host.out text s).1 with
    | .ok () => { view s with out := (view s).out ++ text }
    | .error _ => view s
  err : ∀ text s, view (host.err text s).2 = { view s with err := (view s).err ++ text }

namespace Workspace

variable {r : Refusals} {w : Workspace}

end Workspace

end CssInliner.Cli
