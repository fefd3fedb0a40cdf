import CssInliner.Grammar.Declaration

/-!
Keyframes rules. The vendor is what the keyword carries before `keyframes`; once
the keyword is read every further misfit is a defect.
-/

namespace CssInliner.Grammar

def digits : Parser Text := Parser.takeWhile1 Text.isDigit

theorem advances_digits : digits.Advances := Parser.advances_takeWhile1 _

def fraction : Parser Text := do
  Parser.char '.'
  let ds ← digits
  return '.' :: ds

theorem advances_fraction : fraction.Advances :=
  (Parser.advances_char _).bind fun _ =>
    advances_digits.walks.bind fun _ => Parser.walks_pure _

def decimal : Parser Text := do
  let whole ← digits
  let part ← fraction
  return whole ++ part

theorem advances_decimal : decimal.Advances :=
  advances_digits.bind fun _ =>
    advances_fraction.walks.bind fun _ => Parser.walks_pure _

def percentage : Parser Text := do
  let number ← decimal.orElse (fraction.orElse digits)
  let sign ← (Parser.char '%').optional
  return number ++ if sign.isSome then ['%'] else []

theorem advances_percentage : percentage.Advances :=
  (advances_decimal.orElse (advances_fraction.orElse advances_digits)).bind fun _ =>
    (Parser.advances_char _).walks.optional.bind fun _ => Parser.walks_pure _

def keyframeSelector : Parser Text :=
  percentage.orElse (Parser.takeWhile1 Text.isLowercase)

theorem advances_keyframeSelector : keyframeSelector.Advances :=
  advances_percentage.orElse (Parser.advances_takeWhile1 _)

def comma : Parser Unit := do
  Parser.char ','
  let _ ← layout
  return ()

theorem advances_comma : comma.Advances :=
  (Parser.advances_char _).bind fun _ => walks_layout.bind fun _ => Parser.walks_pure _

/-- A selector of a frame with what separates it from the next; the comma may
be missing. -/
def keyframeSelectorItem : Parser Text := do
  let selector ← keyframeSelector
  let _ ← layout
  let _ ← comma.optional
  return selector

theorem advances_keyframeSelectorItem : keyframeSelectorItem.Advances :=
  advances_keyframeSelector.bind fun _ =>
    walks_layout.bind fun _ =>
      advances_comma.walks.optional.bind fun _ => Parser.walks_pure _

def keyframe : Parser Keyframe := do
  let _ ← layout
  let selectors ← Parser.many keyframeSelectorItem advances_keyframeSelectorItem
  if selectors.isEmpty then Parser.mismatch
  else
    let ds ← declarationBlock
    return ⟨selectors, ds⟩

theorem advances_keyframe : keyframe.Advances := by
  refine walks_layout.bind_advances fun _ => (Parser.walks_many _).bind_advances fun _ => ?_
  split
  · exact Parser.advances_mismatch
  · exact advances_declarationBlock.bind fun _ => Parser.walks_pure _

def keyframeItem : Parser Keyframe := do
  let frame ← keyframe
  let _ ← comments
  return frame

theorem advances_keyframeItem : keyframeItem.Advances :=
  advances_keyframe.bind fun _ => walks_comments.bind fun _ => Parser.walks_pure _

def identifier : Parser Text := Parser.takeWhile1 Text.isIdentifierChar

theorem advances_identifier : identifier.Advances := Parser.advances_takeWhile1 _

/-- The keyword behind an at sign, with the vendor mark it may begin with. -/
def atKeyword : Parser Text := do
  Parser.char '@'
  Parser.takeWhile Text.isIdentifierChar

theorem advances_atKeyword : atKeyword.Advances :=
  (Parser.advances_char _).bind fun _ => Parser.walks_takeWhile _

/-- An at keyword that ends in `base`: the vendor mark before it, if any. -/
def vendored (base : Text) : Parser (Option Text) := do
  let keyword ← atKeyword
  match Text.dropTail? base keyword with
  | none => Parser.mismatch
  | some vendor => return vendor.nonempty?

theorem advances_vendored (base : Text) : (vendored base).Advances := by
  refine advances_atKeyword.bind fun _ => ?_
  split
  · exact Parser.advances_mismatch.walks
  · exact Parser.walks_pure _

def keyframes : Parser Rule := do
  let vendor ← vendored "keyframes".toList
  let _ ← layout
  let name ← identifier.require .keyframesMissingName
  let _ ← layout
  openBrace.require .missingOpenBrace
  let _ ← comments
  let frames ← Parser.many keyframeItem advances_keyframeItem
  closeBrace.require .missingCloseBrace
  return .keyframes vendor name frames

theorem advances_keyframes : keyframes.Advances :=
  (advances_vendored _).bind fun _ =>
    walks_layout.bind fun _ =>
      (advances_identifier.require _).walks.bind fun _ =>
        walks_layout.bind fun _ =>
          (advances_openBrace.require _).walks.bind fun _ =>
            walks_comments.bind fun _ =>
              (Parser.walks_many _).bind fun _ =>
                (advances_closeBrace.require _).walks.bind fun _ => Parser.walks_pure _

end CssInliner.Grammar
