import CssInliner.Proofs.Variables.Precedence
import CssInliner.Session

/-!
The life of a store over a whole session: from merge to reset, whatever runs come
in between, a name is stored in its normal form only, and no run takes away or
changes what is stored.
-/

namespace CssInliner

/-- A run hands on the store it is given, with the overrides that it lacks if
variables persist. -/
theorem Stylesheet.store_transform (settings : Settings) (store : Option Store)
    (sheet : Stylesheet) :
    (sheet.transform settings store).store =
      if settings.persist then store.map (·.supplement settings.overrides.normalize)
      else store := by
  cases hpersist : settings.persist with
  | false => simp [Stylesheet.transform, hpersist]
  | true => cases store <;> simp [Stylesheet.transform, Stylesheet.harvest, hpersist]

def Step.isTransform : Step → Bool
  | transform .. => true
  | _ => false

namespace Session

/-- What each of the steps keeps, every session of a run has. -/
theorem of_mem_run {P : Session → Prop} {s : Session} {steps : List Step} (h : P s)
    (hstep : ∀ s, ∀ step ∈ steps, P s → P (s.step step).2) :
    ∀ entry ∈ s.run steps, P entry.2 := by
  induction steps generalizing s with
  | nil =>
      intro entry hentry
      contradiction
  | cons step steps ih =>
      have hfirst : P (s.step step).2 := hstep s step List.mem_cons_self h
      intro entry hentry
      rcases List.mem_cons.1 hentry with rfl | hentry
      · exact hfirst
      · exact ih hfirst (fun s step hmem => hstep s step (List.mem_cons_of_mem _ hmem)) entry hentry

theorem step_transform_of_error {s : Session} {source : Source} {e : SyntaxError}
    (h : Stylesheet.parse (s.source source) = .error e) (settings : Settings) (useStore : Bool) :
    s.step (.transform source settings useStore) = (.transformed (.error e), s) := by
  simp only [step, CssInliner.transform, h]
  rfl

theorem step_transform_of_ok {s : Session} {source : Source} {sheet : Stylesheet}
    (h : Stylesheet.parse (s.source source) = .ok sheet) (settings : Settings) (useStore : Bool) :
    s.step (.transform source settings useStore) =
      (.transformed (.ok (sheet.transform settings (if useStore then some s.store else none))),
        s.record (.ok (sheet.transform settings (if useStore then some s.store else none)))) := by
  simp only [step, CssInliner.transform, h]
  rfl

theorem store_step_transform (s : Session) (source : Source) (settings : Settings)
    (useStore : Bool) :
    (s.step (.transform source settings useStore)).2.store =
      if useStore && settings.persist && (Stylesheet.parse (s.source source)).isOk then
        s.store.supplement settings.overrides.normalize
      else s.store := by
  cases hparse : Stylesheet.parse (s.source source) with
  | error e =>
      rw [step_transform_of_error hparse]
      simp [Except.isOk, Except.toBool]
  | ok sheet =>
      rw [step_transform_of_ok hparse]
      simp only [record, Stylesheet.store_transform]
      cases useStore <;> cases settings.persist <;> rfl

theorem held_step_transform (s : Session) (source : Source) (settings : Settings)
    (useStore : Bool) (name : Text) :
    (s.step (.transform source settings useStore)).2.store.entries[name]? =
      s.store.entries[name]?.or
        (if useStore && settings.persist && (Stylesheet.parse (s.source source)).isOk then
          settings.overrides.effective name
        else none) := by
  rw [store_step_transform]
  split
  · rw [Store.getElem?_supplement _ fun _ => VariableMap.normalizeName_of_mem_normalize,
      VariableMap.getElem?_normalize]
  · rw [Option.or_none]

theorem normal_step {s : Session} (h : s.store.Normal) (step : Step) :
    (s.step step).2.store.Normal := by
  cases step with
  | merge pairs => exact h.merge pairs
  | reset => exact Store.normal_empty
  | get name => exact h
  | transform source settings useStore =>
      rw [store_step_transform]
      split
      · exact h.merge _
      · exact h

/-- What is stored under a name stays through every run on a source. -/
theorem held_step_of_isTransform {s : Session} {step : Step} (hstep : step.isTransform)
    {name value : Text} (h : s.store.entries[name]? = some value) :
    (s.step step).2.store.entries[name]? = some value := by
  cases step with
  | transform source settings useStore => rw [held_step_transform, h, Option.some_or]
  | _ => contradiction

/-- How the steps of a session treat the store. -/
structure Lawful (s : Session) : Prop where
  /-- Every stored name is its own normal form. -/
  normal : ∀ name ∈ s.store.entries, normalizeName name = name
  /-- A name in any spelling is looked up under its normal form. -/
  get : ∀ name : Text, s.step (.get name) = (.found (s.store.entries[normalizeName name]?), s)
  /-- The last pair for a name is stored under the normal form. -/
  merge : ∀ (pairs : List (Text × Text)) (name : Text),
    (s.step (.merge pairs)).2.store.entries[name]? =
    (lastValue? name (pairs.map fun pair => (normalizeName pair.1, pair.2))).or
      s.store.entries[name]?
  reset : ∀ name : Text, (s.step .reset).2.store.entries[name]? = none
  /-- A run adds the overrides that are not stored, if it is given the store, variables
  persist and the source can be read; otherwise nothing. -/
  transform : ∀ (source : Source) (settings : Settings) (useStore : Bool) (name : Text),
    (s.step (.transform source settings useStore)).2.store.entries[name]? =
      s.store.entries[name]?.or
        (if useStore && settings.persist && (Stylesheet.parse (s.source source)).isOk then
          settings.overrides.effective name
        else none)
  /-- A run that fails leaves the session as it was. -/
  failure : ∀ (source : Source) (settings : Settings) (useStore : Bool) (e : SyntaxError),
    Stylesheet.parse (s.source source) = .error e →
    s.step (.transform source settings useStore) = (.transformed (.error e), s)
  /-- What is stored stays through any number of runs. -/
  lasting : ∀ (steps : List Step) (name value : Text), (∀ step ∈ steps, step.isTransform) →
    s.store.entries[name]? = some value →
      ∀ entry ∈ s.run steps, entry.2.store.entries[name]? = some value

theorem lawful_of_normal {s : Session} (h : s.store.Normal) : s.Lawful where
  normal := h
  get _ := rfl
  merge pairs name := s.store.getElem?_merge pairs name
  reset _ := Std.TreeMap.getElem?_emptyc
  transform := s.held_step_transform
  failure _ settings useStore _ he := step_transform_of_error he settings useStore
  lasting _ _ _ hsteps hvalue :=
    of_mem_run (P := fun s => s.store.entries[_]? = some _) hvalue fun _ step hmem hs =>
      held_step_of_isTransform (hsteps step hmem) hs

/-- Every session that steps lead to from the start is lawful. -/
theorem lawful_of_run (steps : List Step) :
    ∀ s ∈ start :: (start.run steps).map Prod.snd, s.Lawful := by
  intro s hs
  rcases List.mem_cons.1 hs with rfl | hs
  · exact lawful_of_normal Store.normal_empty
  · obtain ⟨entry, hentry, rfl⟩ := List.mem_map.1 hs
    refine lawful_of_normal ?_
    exact of_mem_run (P := fun s => s.store.Normal) Store.normal_empty
      (fun _ step _ h => normal_step h step) entry hentry

/-- A stored value stays when a run brings another for its name, and of two spellings
of a new name the greater is stored. -/
theorem lawful_of_run_sample :
    let overrides := VariableMap.insertAll ∅
      [("a".toList, "2".toList), ("b".toList, "4".toList), ("--b".toList, "5".toList)]
    let steps : List Step :=
      [.merge [("a".toList, "3".toList)],
        .transform (.given ":root\x7b--c:1\x7d".toList)
          { Settings.standard with persist := true, overrides } true]
    ∃ s, ((start.run steps).map Prod.snd).getLast? = some s ∧ s.Lawful ∧
      s.store.toList = [("--a".toList, "3".toList), ("--b".toList, "4".toList)] := by
  intro overrides steps
  obtain ⟨s, hs⟩ : ∃ s, ((start.run steps).map Prod.snd).getLast? = some s := ⟨_, rfl⟩
  refine ⟨s, hs, lawful_of_run steps s (List.mem_cons_of_mem _ (List.mem_of_getLast? hs)), ?_⟩
  obtain rfl := Option.some.inj hs
  decide +kernel

end Session

end CssInliner
