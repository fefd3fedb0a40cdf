import CssInliner.Proofs.Cli.Machine
import CssInliner.Proofs.Cli.Words

/-!
What a command line does to the machine. A run that succeeds delivers what the library
makes of the input, and tells its warnings in order; one that fails has done nothing
but to keep its log and to say what went wrong. The one exception is a standard output
that takes the result and refuses the line end behind it. Log file, input and output may
all be the same file: the log is opened before the input is read, and the output comes
last.
-/

namespace CssInliner.Cli

/-- What is put on the standard error channel while a run goes on. -/
inductive Line where
  | logged (event : Event)
  | warned (warning : Warning)

namespace Line

def text : Line → Text
  | logged event => event.record
  | warned warning => "warning: ".toList ++ warning.message ++ ['\n']

def warning? : Line → Option Warning
  | logged _ => none
  | warned warning => some warning

end Line

namespace Arguments

variable (a : Arguments (Text × Text))

variable {κ : Type}

/-- All that has happened is that the log file may have changed, and that `told` was put
on the standard error channel. -/
structure OnlyTells (locate : Text → κ) (told : Text) (v v' : Sight κ) : Prop where
  files : ∀ file, file ∉ a.logFile.map locate → v'.files file = v.files file
  stdin : v'.stdin = v.stdin
  out : v'.out = v.out
  err : v'.err = v.err ++ told

variable {a} {locate : Text → κ} {v v' v'' : Sight κ} {told more : Text}

theorem OnlyTells.refl (a : Arguments (Text × Text)) (locate : Text → κ) (v : Sight κ) :
    a.OnlyTells locate [] v v :=
  ⟨fun _ _ => rfl, rfl, rfl, (List.append_nil _).symm⟩

theorem OnlyTells.trans (h : a.OnlyTells locate told v v') (h' : a.OnlyTells locate more v' v'') :
    a.OnlyTells locate (told ++ more) v v'' where
  files file hfile := (h'.files file hfile).trans (h.files file hfile)
  stdin := h'.stdin.trans h.stdin
  out := h'.out.trans h.out
  err := by rw [h'.err, h.err, List.append_assoc]

/-- The log file is the one that may change. -/
theorem OnlyTells.put [DecidableEq κ] {path : Text} (hpath : a.logFile = some path) (text : Text) :
    a.OnlyTells locate [] v (v.put (locate path) text) where
  files file hfile := by
    rw [hpath, Option.map_some, Option.mem_some] at hfile
    exact v.files_put_of_ne (Ne.symm hfile) text
  stdin := rfl
  out := rfl
  err := (List.append_nil _).symm

end Arguments

theorem bind_apply {σ α β : Type} (x : StateM σ α) (f : α → StateM σ β) (s : σ) :
    (x >>= f) s = f (x s).1 (x s).2 :=
  rfl

section

variable {σ κ : Type} [DecidableEq κ] {host : Host (StateM σ)} {locate : Text → κ}
  {view : σ → Sight κ} (hhost : host.Atomic locate view) (a : Arguments (Text × Text))

include hhost

end

/-- An output that refuses no more than the line end is left with the result. -/
example :
    let r : Refusals :=
      { Refusals.none with
        out := fun _ text => if text = ['\n'] then some (.other "full".toList) else none }
    let w := Workspace.ofFiles [] (.ok "a \x7b b: c \x7d".toList)
    let ended : Nat × Workspace := run (workspaceHost r) wordParser [] w
    ended.1 = 1 ∧ ended.2.out = "a\x7bb:c\x7d".toList := by
  decide +kernel

end CssInliner.Cli
