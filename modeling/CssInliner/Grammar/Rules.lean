import CssInliner.Grammar.AtRule

/-!
Lists of rules and whole stylesheets. Groups nest, so the reader keeps the
groups that are open with the rules read before each of them; every turn takes
at least a character.
-/

namespace CssInliner.Grammar

/-- A group whose block is being read. -/
structure OpenGroup where
  kind : GroupKind
  header : Text
  /-- The rules read before the group in the list it belongs to, last one first. -/
  before : List Rule

/-- The group with its rules, which come last one first. -/
def OpenGroup.close (g : OpenGroup) (rules : List Rule) : Rule :=
  .group g.kind g.header rules.reverse

def openBlock : Parser (List Rule) := do
  openBrace.require .missingOpenBrace
  comments

theorem advances_openBlock : openBlock.Advances :=
  (advances_openBrace.require _).bind fun _ => walks_comments

def closeBlock : Parser (List Rule) := do
  closeBrace
  comments

theorem advances_closeBlock : closeBlock.Advances :=
  advances_closeBrace.bind fun _ => walks_comments

/-- An item and the comments behind it: behind a rule, or behind the opening
brace of a group. -/
def itemWithComments : Parser (Item × List Rule) := do
  match ← item with
  | .rule rule =>
      let found ← comments
      return (.rule rule, found)
  | .groupHeader kind header =>
      let found ← openBlock
      return (.groupHeader kind header, found)

theorem advances_itemWithComments : itemWithComments.Advances := by
  refine advances_item.bind fun a => ?_
  cases a with
  | rule rule => exact walks_comments.bind fun _ => Parser.walks_pure _
  | groupHeader kind header =>
      exact advances_openBlock.walks.bind fun _ => Parser.walks_pure _

/-- Reads rules to the end of the list. `groups` are open inside the list, the
innermost first, and `rules` have been read in the innermost, the last one
first. A bare list ends with the text, any other with a closing brace. -/
def readRules (bare : Bool) (groups : List OpenGroup) (rules : List Rule) (t : Text) :
    Outcome (List Rule) :=
  match t, bare && groups.isEmpty with
  | [], true => .matched rules.reverse []
  | [], false => .failure .missingCloseBrace []
  | c :: t, outermost =>
      if c = '\x7d' && !outermost then
        match groups with
        | [] => .matched rules.reverse t
        | g :: groups =>
            match h : closeBlock (c :: t) with
            | .matched found rest =>
                have hlt : rest.length < (c :: t).length := by
                  have := advances_closeBlock (c :: t)
                  rw [h] at this
                  exact this.2
                readRules bare groups (found.reverse ++ g.close rules :: g.before) rest
            | .mismatch => .mismatch
            | .failure d rest => .failure d rest
      else
        match h : itemWithComments (c :: t) with
        | .matched (entry, found) rest =>
            have hlt : rest.length < (c :: t).length := by
              have := advances_itemWithComments (c :: t)
              rw [h] at this
              exact this.2
            match entry with
            | .rule rule => readRules bare groups (found.reverse ++ rule :: rules) rest
            | .groupHeader kind header =>
                readRules bare (⟨kind, header, rules⟩ :: groups) found.reverse rest
        | .mismatch => .mismatch
        | .failure d rest => .failure d rest
termination_by t.length
decreasing_by all_goals exact hlt

theorem readRules_eq (bare : Bool) (groups : List OpenGroup) (rules : List Rule)
    (t : Text) :
    readRules bare groups rules t =
      match t, bare && groups.isEmpty with
      | [], true => .matched rules.reverse []
      | [], false => .failure .missingCloseBrace []
      | c :: t, outermost =>
          if c = '\x7d' && !outermost then
            match groups with
            | [] => .matched rules.reverse t
            | g :: groups =>
                match closeBlock (c :: t) with
                | .matched found rest =>
                    readRules bare groups (found.reverse ++ g.close rules :: g.before) rest
                | .mismatch => .mismatch
                | .failure d rest => .failure d rest
          else
            match itemWithComments (c :: t) with
            | .matched (.rule rule, found) rest =>
                readRules bare groups (found.reverse ++ rule :: rules) rest
            | .matched (.groupHeader kind header, found) rest =>
                readRules bare (⟨kind, header, rules⟩ :: groups) found.reverse rest
            | .mismatch => .mismatch
            | .failure d rest => .failure d rest := by
  rw [readRules.eq_def]
  split
  · rfl
  · rfl
  · split
    · split
      · rfl
      · split <;> simp only [*]
    · split <;> simp only [*]
      split <;> rfl

theorem within_readRules (bare : Bool) (groups : List OpenGroup) (rules : List Rule)
    (t : Text) : (readRules bare groups rules t).Within t := by
  fun_induction readRules bare groups rules t with
  | case1 => exact List.suffix_refl _
  | case2 => exact List.suffix_refl _
  | case3 => exact List.suffix_cons _ _
  | case4 _ c t _ _ _ _ h _ _ ih =>
      have := advances_closeBlock (c :: t)
      rw [h] at this
      exact ih.trans this.1
  | case5 => trivial
  | case6 _ c t _ _ _ _ h _ =>
      have := advances_closeBlock (c :: t)
      rwa [h] at this
  | case7 _ _ c t _ _ _ _ _ h _ ih =>
      have := advances_itemWithComments (c :: t)
      rw [h] at this
      exact ih.trans this.1
  | case8 _ _ c t _ _ _ _ _ _ h _ ih =>
      have := advances_itemWithComments (c :: t)
      rw [h] at this
      exact ih.trans this.1
  | case9 => trivial
  | case10 _ _ c t d rest h =>
      have := advances_itemWithComments (c :: t)
      rwa [h] at this

def listStart (bare : Bool) : Parser (List Rule) := if bare then comments else openBlock

theorem walks_listStart (bare : Bool) : (listStart bare).Walks := by
  cases bare
  · exact advances_openBlock.walks
  · exact walks_comments

/-- The rules up to the end of the text or, in braces, up to the closing one. -/
def ruleList (bare : Bool) : Parser (List Rule) := do
  let found ← listStart bare
  readRules bare [] found.reverse

theorem walks_ruleList (bare : Bool) : (ruleList bare).Walks :=
  (walks_listStart bare).bind fun found t => within_readRules bare [] found.reverse t

def atRule : Parser Rule := do
  match ← atItem with
  | .rule rule => return rule
  | .groupHeader kind header =>
      let rules ← ruleList false
      return .group kind header rules

theorem advances_atRule : atRule.Advances := by
  refine advances_atItem.bind fun a => ?_
  cases a with
  | rule rule => exact Parser.walks_pure _
  | groupHeader kind header =>
      exact (walks_ruleList false).bind fun _ => Parser.walks_pure _

end CssInliner.Grammar

namespace CssInliner

/-- Reads a stylesheet. The error points to where its defect was noticed. -/
def Stylesheet.parse (source : Text) : Except SyntaxError Stylesheet :=
  match Grammar.ruleList true source with
  | .matched rules _ => .ok rules
  | .mismatch => .error (.atOffset .missingSelector source 0)
  | .failure defect rest =>
      .error (.atOffset defect source (source.byteLength - rest.byteLength))

end CssInliner
