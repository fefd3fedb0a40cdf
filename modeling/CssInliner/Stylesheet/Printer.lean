import CssInliner.Stylesheet.Basic

/-!
Writing a stylesheet in its shortest form. Comments are left out, and so are
style and page rules without declarations; the delimiter follows each style or
page rule that is written.
-/

namespace CssInliner

def Declaration.render (d : Declaration) : Text := d.property ++ ':' :: d.value

def renderBlock (ds : List Declaration) : Text :=
  '\x7b' :: Text.join [';'] (ds.map Declaration.render) ++ ['\x7d']

def Keyframe.render (frame : Keyframe) : Text :=
  Text.join [','] frame.selectors ++ renderBlock frame.declarations

def GroupKind.render (header : Text) : GroupKind → Text
  | media => "@media ".toList ++ header
  | supports => "@supports ".toList ++ header
  | host => "@host".toList
  | document vendor => '@' :: vendor.getD [] ++ "document ".toList ++ header

/-- The selectors of a page rule with the blank that sets them off. -/
def renderPageSelectors (selectors : List Text) : Text :=
  if selectors.isEmpty then [] else ' ' :: Text.join ", ".toList selectors

mutual

def Rule.render (delimiter : Text) : Rule → Text
  | .style selectors ds =>
      if ds.isEmpty then []
      else Text.join [','] selectors ++ renderBlock ds ++ delimiter
  | .page selectors ds =>
      if ds.isEmpty then []
      else "@page".toList ++ renderPageSelectors selectors ++ renderBlock ds ++ delimiter
  | .fontFace ds => "@font-face".toList ++ renderBlock ds
  | .keyframes vendor name frames =>
      '@' :: vendor.getD [] ++ "keyframes ".toList ++ name ++
        '\x7b' :: frames.flatMap Keyframe.render ++ ['\x7d']
  | .group kind header rules =>
      kind.render header ++ '\x7b' :: renderRules delimiter rules ++ ['\x7d']
  | .customMedia name media => "@custom-media ".toList ++ name ++ ' ' :: media ++ [';']
  | .statement kind value => '@' :: kind.keyword ++ ' ' :: value ++ [';']
  | .comment _ => []

def renderRules (delimiter : Text) : List Rule → Text
  | [] => []
  | rule :: rules => rule.render delimiter ++ renderRules delimiter rules

end

theorem Rule.render_style (delimiter : Text) (selectors : List Text) (ds : List Declaration) :
    (Rule.style selectors ds).render delimiter =
      if ds.isEmpty then [] else Text.join [','] selectors ++ renderBlock ds ++ delimiter := rfl

theorem Rule.render_page (delimiter : Text) (selectors : List Text) (ds : List Declaration) :
    (Rule.page selectors ds).render delimiter =
      if ds.isEmpty then []
      else '@' :: "page".toList ++ renderPageSelectors selectors ++ renderBlock ds ++ delimiter :=
  rfl

theorem Rule.render_fontFace (delimiter : Text) (ds : List Declaration) :
    (Rule.fontFace ds).render delimiter = '@' :: "font-face".toList ++ renderBlock ds := rfl

theorem Rule.render_keyframes (delimiter : Text) (vendor : Option Text) (name : Text)
    (frames : List Keyframe) :
    (Rule.keyframes vendor name frames).render delimiter =
      '@' :: vendor.getD [] ++ ("keyframes".toList ++ [' ']) ++ name ++
        '\x7b' :: frames.flatMap Keyframe.render ++ ['\x7d'] := rfl

theorem Rule.render_group (delimiter : Text) (kind : GroupKind) (header : Text)
    (rules : List Rule) :
    (Rule.group kind header rules).render delimiter =
      kind.render header ++ '\x7b' :: renderRules delimiter rules ++ ['\x7d'] := rfl

theorem Rule.render_customMedia (delimiter name media : Text) :
    (Rule.customMedia name media).render delimiter =
      '@' :: ("custom-media".toList ++ [' ']) ++ name ++ ' ' :: media ++ [';'] := rfl

theorem Rule.render_statement (delimiter : Text) (kind : StatementKind) (value : Text) :
    (Rule.statement kind value).render delimiter =
      '@' :: kind.keyword ++ ' ' :: value ++ [';'] := rfl

theorem GroupKind.render_document (vendor : Option Text) (header : Text) :
    (GroupKind.document vendor).render header =
      '@' :: vendor.getD [] ++ ("document".toList ++ [' ']) ++ header := rfl

theorem renderRules_append (delimiter : Text) (rules more : List Rule) :
    renderRules delimiter (rules ++ more) =
      renderRules delimiter rules ++ renderRules delimiter more := by
  induction rules with
  | nil => rfl
  | cons rule rules ih =>
      rw [List.cons_append, renderRules, renderRules, ih, List.append_assoc]

def Stylesheet.render (delimiter : Text) (sheet : Stylesheet) : Text :=
  renderRules delimiter sheet

end CssInliner
