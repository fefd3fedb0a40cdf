import CssInliner.Proofs.Declarations
import CssInliner.Transform
import Mathlib.Data.List.Basic

/-!
What keeping only variables costs: declarations that neither define nor mention
one. So the variables of a run, its warnings and its store do not depend on whether
the rest was dropped beforehand.
-/

namespace CssInliner

/-- The rules are cut down from others, and of the declarations that pass the test
none is missing. -/
structure CutFrom (test : Declaration → Bool) (rules whole : List Rule) : Prop where
  sublist : (declarations rules).Sublist (declarations whole)
  filter_eq : (declarations rules).filter test = (declarations whole).filter test

section CutFrom

variable {test : Declaration → Bool}

theorem CutFrom.refl (rules : List Rule) : CutFrom test rules rules := ⟨.refl _, rfl⟩

theorem CutFrom.append {rules whole rules' whole' : List Rule} (h : CutFrom test rules whole)
    (h' : CutFrom test rules' whole') : CutFrom test (rules ++ rules') (whole ++ whole') := by
  constructor
  · rw [declarations_append, declarations_append]
    exact h.sublist.append h'.sublist
  · rw [declarations_append, declarations_append, List.filter_append, List.filter_append,
      h.filter_eq, h'.filter_eq]

theorem cutFrom_flatMap {f g : Rule → List Rule} {rules : List Rule}
    (h : ∀ rule ∈ rules, CutFrom test (f rule) (g rule)) :
    CutFrom test (rules.flatMap f) (rules.flatMap g) := by
  induction rules with
  | nil => exact .refl []
  | cons rule rules ih =>
      rw [List.flatMap_cons, List.flatMap_cons]
      exact (h rule List.mem_cons_self).append (ih fun r hr => h r (List.mem_cons_of_mem _ hr))

/-- What comes of the declarations is cut down in the same way, if nothing comes of
those that fail the test. -/
theorem CutFrom.flatMap_eq {β : Type} {rules whole : List Rule} (h : CutFrom test rules whole)
    {f : Declaration → List β} (hf : ∀ d, test d = false → f d = []) :
    (declarations rules).flatMap f = (declarations whole).flatMap f := by
  have hfilter : ∀ ds : List Declaration, ds.flatMap f = (ds.filter test).flatMap f := by
    intro ds
    induction ds with
    | nil => rfl
    | cons d ds ih =>
        rw [List.flatMap_cons, List.filter_cons]
        cases htest : test d with
        | true => rw [if_pos rfl, List.flatMap_cons, ih]
        | false => rw [hf d htest, List.nil_append, ih]; rfl
  rw [hfilter, h.filter_eq, ← hfilter]

theorem CutFrom.congr {rules rules' whole whole' : List Rule} (h : CutFrom test rules whole)
    (hrules : declarations rules' = declarations rules)
    (hwhole : declarations whole' = declarations whole) : CutFrom test rules' whole' := by
  constructor
  · rw [hrules, hwhole]
    exact h.sublist
  · rw [hrules, hwhole]
    exact h.filter_eq

theorem CutFrom.mono {rules whole : List Rule} (h : CutFrom test rules whole)
    {weaker : Declaration → Bool} (hweaker : ∀ d, weaker d = true → test d = true) :
    CutFrom weaker rules whole := by
  refine ⟨h.sublist, ?_⟩
  have hfilter : ∀ ds : List Declaration, ds.filter weaker = (ds.filter test).filter weaker := by
    intro ds
    rw [List.filter_filter]
    refine List.filter_congr fun d _ => ?_
    cases hd : weaker d with
    | false => rfl
    | true => rw [hweaker d hd]; rfl
  rw [hfilter, h.filter_eq, ← hfilter]

theorem cutFrom_of_filter {rules whole : List Rule} (ds : List Declaration)
    (hrules : declarations rules = ds.filter test) (hwhole : declarations whole = ds) :
    CutFrom test rules whole := by
  constructor
  · rw [hrules, hwhole]
    exact List.filter_sublist
  · rw [hrules, hwhole, List.filter_filter]
    simp only [Bool.and_self]

/-- A rule that is dropped for want of declarations that pass the test. -/
theorem cutFrom_nil {whole : List Rule} (h : (declarations whole).any test = false) :
    CutFrom test [] whole := by
  refine cutFrom_of_filter _ ?_ rfl
  rw [List.any_eq_false] at h
  exact (List.filter_eq_nil_iff.2 h).symm

end CutFrom

theorem declarations_of_comments {rules : List Rule} (h : rules.all Rule.isComment) :
    declarations rules = [] := by
  induction rules with
  | nil => rfl
  | cons rule rules ih =>
      obtain ⟨hrule, hrules⟩ := Bool.and_eq_true_iff.1 (List.all_cons.symm.trans h)
      rw [declarations_cons, ih hrules]
      cases rule with
      | comment text => rfl
      | _ => contradiction

theorem declarations_singleton_group (kind : GroupKind) (header : Text) (rules : List Rule) :
    declarations [.group kind header rules] = declarations rules := by
  rw [declarations_cons, declarations_nil, List.append_nil]
  rfl

mutual

theorem Rule.cutFrom_keepVariables (rule : Rule) :
    CutFrom Declaration.involvesVariables rule.keepVariables.toList [rule] := by
  cases rule with
  | style selectors ds | page selectors ds =>
      refine cutFrom_of_filter ds ?_ (by simp [declarations, blocks, Rule.blocks])
      rw [Rule.keepVariables]
      split
      · next hempty => rw [List.isEmpty_iff.1 hempty]; rfl
      · simp [declarations, blocks, Rule.blocks]
  | fontFace ds =>
      rw [Rule.keepVariables]
      split
      · exact .refl _
      · next hany => exact cutFrom_nil (by simpa [declarations, blocks, Rule.blocks] using hany)
  | keyframes vendor name frames =>
      rw [Rule.keepVariables]
      split
      · exact .refl _
      · next hany => exact cutFrom_nil (by simpa [declarations, blocks, Rule.blocks] using hany)
  | group kind header rules =>
      have hrules := CssInliner.cutFrom_keepVariables rules
      have hwhole := declarations_singleton_group kind header rules
      rw [Rule.keepVariables]
      split
      · next hcomments => exact hrules.congr (declarations_of_comments hcomments).symm hwhole
      · exact hrules.congr (declarations_singleton_group kind header _) hwhole
  | customMedia name media | statement kind value | comment text => exact .refl _

theorem cutFrom_keepVariables (rules : List Rule) :
    CutFrom Declaration.involvesVariables (keepVariables rules) rules := by
  cases rules with
  | nil => exact .refl []
  | cons rule rules => exact rule.cutFrom_keepVariables.append (cutFrom_keepVariables rules)

end

theorem Declaration.involvesVariables_of_mentions (d : Declaration)
    (h : d.mentionsVariable = true) : d.involvesVariables = true := by
  rw [involvesVariables, h, Bool.or_true]

theorem keepVariables_eq_flatMap (rules : List Rule) :
    keepVariables rules = rules.flatMap fun rule => rule.keepVariables.toList := by
  induction rules with
  | nil => rfl
  | cons rule rules ih => rw [keepVariables, ih, List.flatMap_cons]

namespace Rule

/-- Every variable that a rule declares for the whole document is kept. -/
theorem rootVariables_keepVariables (rule : Rule) :
    rule.keepVariables.toList.flatMap rootVariables = rule.rootVariables := by
  cases rule with
  | style selectors ds =>
      have hkept : (ds.filter Declaration.involvesVariables).filter Declaration.isCustom =
          ds.filter Declaration.isCustom := by
        rw [List.filter_filter]
        refine List.filter_congr fun d _ => ?_
        simp only [Declaration.involvesVariables]
        cases d.isCustom <;> rfl
      rw [rootVariables, ← hkept, keepVariables]
      split
      · next hempty => simp [List.isEmpty_iff.1 hempty]
      · simp [rootVariables]
  | page | fontFace | keyframes | group =>
      rw [keepVariables]
      split <;> rfl
  | _ => rfl

theorem withoutRootVariables_style (selectors : List Text) (ds : List Declaration) :
    (style selectors ds).withoutRootVariables =
      style selectors (ds.filter fun d => !(isRoot selectors && d.isCustom)) := by
  cases hroot : isRoot selectors with
  | true => simp [withoutRootVariables, hroot]
  | false =>
      have hall : ds.filter (fun d => !(false && d.isCustom)) = ds :=
        List.filter_eq_self.2 fun _ _ => rfl
      rw [hall, withoutRootVariables, hroot]
      rfl

/-- Taking out the variables for the whole document leaves all that mentions one. -/
theorem cutFrom_withoutRootVariables (rule : Rule) :
    CutFrom Declaration.mentionsVariable
      (rule.keepVariables.toList.map withoutRootVariables) [rule.withoutRootVariables] := by
  have hcut := rule.cutFrom_keepVariables.mono Declaration.involvesVariables_of_mentions
  cases rule with
  | style selectors ds =>
      have hrules : declarations ((style selectors ds).keepVariables.toList.map
          withoutRootVariables) = (ds.filter Declaration.involvesVariables).filter fun d =>
            !(isRoot selectors && d.isCustom) := by
        rw [keepVariables]
        split
        · next hempty => simp [List.isEmpty_iff.1 hempty]
        · rw [Option.toList_some, List.map_singleton, withoutRootVariables_style]
          simp [declarations, CssInliner.blocks, blocks]
      have hwhole : declarations [(style selectors ds).withoutRootVariables] =
          ds.filter fun d => !(isRoot selectors && d.isCustom) := by
        rw [withoutRootVariables_style]
        simp [declarations, CssInliner.blocks, blocks]
      constructor
      · rw [hrules, hwhole]
        exact List.filter_sublist.filter _
      · rw [hrules, hwhole, List.filter_filter, List.filter_filter, List.filter_filter]
        refine List.filter_congr fun d _ => ?_
        cases hd : d.mentionsVariable with
        | false => rfl
        | true => rw [d.involvesVariables_of_mentions hd, Bool.and_true]
  | page selectors ds | fontFace ds | keyframes vendor name frames | group kind header rules =>
      refine hcut.congr ?_ rfl
      rw [keepVariables]
      split <;> rfl
  | customMedia name media | statement kind value | comment text => exact .refl _

end Rule

namespace Stylesheet

theorem rootVariables_keepVariables (sheet : Stylesheet) :
    rootVariables (keepVariables sheet) = sheet.rootVariables := by
  have hlist : (keepVariables sheet).flatMap Rule.rootVariables =
      sheet.flatMap Rule.rootVariables := by
    rw [keepVariables_eq_flatMap, List.flatMap_assoc]
    exact List.flatMap_congr fun rule _ => rule.rootVariables_keepVariables
  rw [rootVariables, hlist, rootVariables]

section harvest

variable (sheet : Stylesheet) (overrides : VariableMap) (preserve : Bool) (store : Option Store)

theorem bindings_harvest_keepVariables :
    (harvest (keepVariables sheet) overrides preserve store).bindings =
      (sheet.harvest overrides preserve store).bindings := by
  cases store with
  | none => simp only [harvest, rootVariables_keepVariables]
  | some s => simp only [harvest, rootVariables_keepVariables]

theorem store_harvest_keepVariables :
    (harvest (keepVariables sheet) overrides preserve store).store =
      (sheet.harvest overrides preserve store).store := by
  cases store <;> rfl

/-- What is left of a sheet after its variables are collected, apart from what is added
at its end. -/
theorem cutFrom_rest :
    CutFrom Declaration.mentionsVariable
      (if preserve then keepVariables sheet
        else (keepVariables sheet).map Rule.withoutRootVariables)
      (if preserve then sheet else sheet.map Rule.withoutRootVariables) := by
  cases preserve with
  | true => exact (cutFrom_keepVariables sheet).mono Declaration.involvesVariables_of_mentions
  | false =>
      simp only [Bool.false_eq_true, if_false]
      rw [keepVariables_eq_flatMap, List.map_flatMap, ← List.flatMap_singleton' (sheet.map _),
        List.flatMap_map]
      exact cutFrom_flatMap fun rule _ => rule.cutFrom_withoutRootVariables

theorem cutFrom_harvest :
    CutFrom Declaration.mentionsVariable
      (harvest (keepVariables sheet) overrides preserve store).sheet
      (sheet.harvest overrides preserve store).sheet := by
  have hrest := cutFrom_rest sheet preserve
  cases store with
  | none => exact hrest
  | some s => exact hrest.append (.refl _)

end harvest

/-- Resolving what is cut down tells of the same events, for only declarations that
mention a variable have any. -/
theorem events_resolve_of_cutFrom {rules whole : Stylesheet}
    (h : CutFrom Declaration.mentionsVariable rules whole) (vars : VariableMap)
    (preserve : Bool) : (rules.resolve vars preserve).2 = (whole.resolve vars preserve).2 := by
  rw [resolve_eq, resolve_eq]
  refine h.flatMap_eq fun d hd => ?_
  rw [resolveDeclaration_of_not_mentions hd]

theorem sublist_resolve_of_cutFrom {rules whole : Stylesheet}
    (h : CutFrom Declaration.mentionsVariable rules whole) (vars : VariableMap)
    (preserve : Bool) :
    (declarations (rules.resolve vars preserve).1).Sublist
      (declarations (whole.resolve vars preserve).1) := by
  rw [declarations_resolve, declarations_resolve]
  exact h.sublist.flatMap _

theorem warnings_transform (s : Settings) (store : Option Store) (sheet : Stylesheet) :
    let harvest := (sheet.selected s).1.harvest s.overrides s.preserve
      (if s.persist then store else none)
    (sheet.transform s store).warnings =
      warnings (harvest.sheet.resolve harvest.bindings s.preserve).2 := by
  intro harvest
  have hfiltered : (sheet.selected s).2.filterMap Event.warning? = [] := by
    rw [selected]
    split <;> rfl
  have hevents : (sheet.transform s store).events =
      [.parsed sheet.length] ++ (sheet.selected s).2 ++ [.harvested harvest.declared] ++
        (harvest.sheet.resolve harvest.bindings s.preserve).2 ++
          [.produced (sheet.transform s store).css.byteLength
            (warnings (harvest.sheet.resolve harvest.bindings s.preserve).2).length] := rfl
  rw [Transformation.warnings, hevents]
  simp only [warnings, List.filterMap_append, List.filterMap_cons, List.filterMap_nil,
    Event.warning?, hfiltered, List.nil_append, List.append_nil]

end Stylesheet

/-- Whether all that has nothing to do with variables is dropped beforehand makes no
difference to the errors, the warnings and the store of a run. What is dropped is
missing from the resolved sheet, and nothing else. -/
theorem transform_onlyVariables (s : Settings) (store : Option Store) (source : Text) :
    match transform { s with onlyVariables := true } store source,
      transform { s with onlyVariables := false } store source with
    | .ok kept, .ok full =>
        kept.warnings = full.warnings ∧
          kept.warnings.map Warning.message = full.warnings.map Warning.message ∧
            kept.store = full.store ∧
              (declarations kept.resolved).Sublist (declarations full.resolved)
    | .error e, .error e' => e = e'
    | _, _ => False := by
  cases hparse : Stylesheet.parse source with
  | error e => simp only [transform, hparse, bind, Except.bind]
  | ok sheet =>
      simp only [transform, hparse, bind, Except.bind, pure, Except.pure]
      -- both runs collect the same variables, from sheets of which one is cut from the other
      let given := if s.persist then store else none
      let cut := Stylesheet.harvest (keepVariables sheet) s.overrides s.preserve given
      let whole := sheet.harvest s.overrides s.preserve given
      have hcut : CutFrom Declaration.mentionsVariable cut.sheet whole.sheet :=
        sheet.cutFrom_harvest s.overrides s.preserve given
      have hbindings : cut.bindings = whole.bindings :=
        sheet.bindings_harvest_keepVariables s.overrides s.preserve given
      have hstore : cut.store = whole.store :=
        sheet.store_harvest_keepVariables s.overrides s.preserve given
      have hwarnings : (sheet.transform { s with onlyVariables := true } store).warnings =
          (sheet.transform { s with onlyVariables := false } store).warnings := by
        rw [Stylesheet.warnings_transform, Stylesheet.warnings_transform]
        change warnings (cut.sheet.resolve cut.bindings s.preserve).2 =
          warnings (whole.sheet.resolve whole.bindings s.preserve).2
        rw [hbindings, Stylesheet.events_resolve_of_cutFrom hcut]
      refine ⟨hwarnings, congrArg _ hwarnings, ?_, ?_⟩
      · change (if s.persist then cut.store else store) = if s.persist then whole.store else store
        rw [hstore]
      · change (declarations (cut.sheet.resolve cut.bindings s.preserve).1).Sublist
          (declarations (whole.sheet.resolve whole.bindings s.preserve).1)
        rw [hbindings]
        exact Stylesheet.sublist_resolve_of_cutFrom hcut whole.bindings s.preserve

end CssInliner
