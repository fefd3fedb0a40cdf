import CssInliner.Transform

/-!
Runs that share one store. The result of a run can be the source of the next.
-/

namespace CssInliner

inductive Source where
  | given (css : Text)
  /-- The result of the last run that succeeded. -/
  | again

inductive Step where
  | merge (pairs : List (Text × Text))
  | reset
  | get (name : Text)
  | transform (source : Source) (settings : Settings) (useStore : Bool)

inductive Reply where
  | done
  | found (value : Option Text)
  | transformed (result : Except SyntaxError Transformation)

structure Session where
  store : Store
  last : Text

namespace Session

def start : Session := ⟨.empty, []⟩

def source (s : Session) : Source → Text
  | .given css => css
  | .again => s.last

/-- The session after a run; a run that fails leaves it as it was. -/
def record (s : Session) : Except SyntaxError Transformation → Session
  | .error _ => s
  | .ok r => ⟨r.store.getD s.store, r.css⟩

def step (s : Session) : Step → Reply × Session
  | .merge pairs => (.done, { s with store := s.store.merge pairs })
  | .reset => (.done, { s with store := .empty })
  | .get name => (.found (s.store.get? name), s)
  | .transform source settings useStore =>
      let result := CssInliner.transform settings (if useStore then some s.store else none)
        (s.source source)
      (.transformed result, s.record result)

def run (s : Session) : List Step → List (Reply × Session)
  | [] => []
  | step :: steps =>
      let after := s.step step
      after :: run after.2 steps

end Session

end CssInliner
