import CssInliner.Grammar.Keyframes
import CssInliner.Grammar.Selector

/-!
Rules and the headers of groups. An at rule that is none of the known ones is
read as a style rule. Keywords of fixed spelling are compared without looking at
the character behind them.
-/

namespace CssInliner.Grammar

/-- What a list of rules goes on with: a whole rule, or a group up to its block. -/
inductive Item where
  | rule (rule : Rule)
  | groupHeader (kind : GroupKind) (header : Text)

def spaces : Parser Text := Parser.takeWhile (· = ' ')

theorem walks_spaces : spaces.Walks := Parser.walks_takeWhile _

/-- The text up to a brace; there must be some. -/
def blockHeader : Parser Text := do
  let _ ← spaces
  let header ← Parser.takeWhile1 (· ≠ '\x7b')
  return header.trim

theorem walks_blockHeader : blockHeader.Walks :=
  walks_spaces.bind fun _ =>
    (Parser.advances_takeWhile1 _).walks.bind fun _ => Parser.walks_pure _

def supportsHeader : Parser Item := do
  Parser.literal "@supports".toList
  let header ← blockHeader
  return .groupHeader .supports header

theorem advances_supportsHeader : supportsHeader.Advances :=
  (Parser.advances_literal (by simp)).bind fun _ =>
    walks_blockHeader.bind fun _ => Parser.walks_pure _

def hostHeader : Parser Item := do
  Parser.literal "@host".toList
  let _ ← layout
  return .groupHeader .host []

theorem advances_hostHeader : hostHeader.Advances :=
  (Parser.advances_literal (by simp)).bind fun _ =>
    walks_layout.bind fun _ => Parser.walks_pure _

def mediaHeader : Parser Item := do
  Parser.literal "@media".toList
  let header ← blockHeader
  return .groupHeader .media header

theorem advances_mediaHeader : mediaHeader.Advances :=
  (Parser.advances_literal (by simp)).bind fun _ =>
    walks_blockHeader.bind fun _ => Parser.walks_pure _

def documentHeader : Parser Item := do
  let vendor ← vendored "document".toList
  let header ← blockHeader
  return .groupHeader (.document vendor) header

theorem advances_documentHeader : documentHeader.Advances :=
  (advances_vendored _).bind fun _ =>
    walks_blockHeader.bind fun _ => Parser.walks_pure _

/-- A name for a media query: two dashes and at least one more character up to
a blank. -/
def customMediaName : Parser Text := do
  Parser.literal "--".toList
  let name ← Parser.takeWhile1 fun c => !Text.isBlank c
  return "--".toList ++ name

theorem advances_customMediaName : customMediaName.Advances :=
  (Parser.advances_literal (by simp)).bind fun _ =>
    (Parser.advances_takeWhile1 _).walks.bind fun _ => Parser.walks_pure _

def customMedia : Parser Rule := do
  Parser.literal "@custom-media".toList
  let _ ← Parser.takeWhile1 Text.isLayout
  let name ← customMediaName
  let _ ← layout
  let media ← Parser.takeWhile1 fun c => c ≠ '\x7b' && c ≠ ';'
  Parser.char ';'
  return .customMedia name media.trim

theorem advances_customMedia : customMedia.Advances :=
  (Parser.advances_literal (by simp)).bind fun _ =>
    (Parser.advances_takeWhile1 _).walks.bind fun _ =>
      advances_customMediaName.walks.bind fun _ =>
        walks_layout.bind fun _ =>
          (Parser.advances_takeWhile1 _).walks.bind fun _ =>
            (Parser.advances_char _).walks.bind fun _ => Parser.walks_pure _

/-- The selectors of a page rule may be missing. -/
def page : Parser Rule := do
  Parser.literal "@page".toList
  let _ ← spaces
  let selectors ← selectorList
  let ds ← declarationBlock
  return .page selectors ds

theorem advances_page : page.Advances :=
  (Parser.advances_literal (by simp)).bind fun _ =>
    walks_spaces.bind fun _ =>
      walks_selectorList.bind fun _ =>
        advances_declarationBlock.walks.bind fun _ => Parser.walks_pure _

def fontFace : Parser Rule := do
  Parser.literal "@font-face".toList
  let _ ← layout
  let ds ← declarationBlock
  return .fontFace ds

theorem advances_fontFace : fontFace.Advances :=
  (Parser.advances_literal (by simp)).bind fun _ =>
    walks_layout.bind fun _ =>
      advances_declarationBlock.walks.bind fun _ => Parser.walks_pure _

def statement : Parser Rule := do
  let keyword ← atKeyword
  match StatementKind.ofKeyword? keyword with
  | none => Parser.mismatch
  | some kind =>
      let _ ← layout
      let value ← Parser.takeWhile1 (· ≠ ';')
      Parser.char ';'
      return .statement kind value.trim

theorem advances_statement : statement.Advances := by
  refine advances_atKeyword.bind fun _ => ?_
  split
  · exact Parser.advances_mismatch.walks
  · exact walks_layout.bind fun _ =>
      (Parser.advances_takeWhile1 _).walks.bind fun _ =>
        (Parser.advances_char _).walks.bind fun _ => Parser.walks_pure _

def whole (p : Parser Rule) : Parser Item := do
  let rule ← p
  return .rule rule

theorem advances_whole {p : Parser Rule} (hp : p.Advances) : (whole p).Advances :=
  hp.bind fun _ => Parser.walks_pure _

/-- The known at rules in the order they are tried. -/
def knownAtItem : Parser Item :=
  (whole keyframes).orElse <| supportsHeader.orElse <| hostHeader.orElse <|
    mediaHeader.orElse <| (whole customMedia).orElse <| (whole page).orElse <|
      documentHeader.orElse <| (whole fontFace).orElse <| whole statement

theorem advances_knownAtItem : knownAtItem.Advances :=
  (advances_whole advances_keyframes).orElse <|
    advances_supportsHeader.orElse <| advances_hostHeader.orElse <|
      advances_mediaHeader.orElse <|
        (advances_whole advances_customMedia).orElse <|
          (advances_whole advances_page).orElse <|
            advances_documentHeader.orElse <|
              (advances_whole advances_fontFace).orElse <|
                advances_whole advances_statement

/-- An at rule with the layout before it, up to its block if it is a group. -/
def atItem : Parser Item := do
  let _ ← layout
  knownAtItem

theorem advances_atItem : atItem.Advances :=
  walks_layout.bind_advances fun _ => advances_knownAtItem

/-- Selectors and a block. A missing selector is noticed at the very start. -/
def styleRule : Parser Rule := fun t =>
  (do
    let selectors ← selectorList
    if selectors.isEmpty then fun _ => .failure .missingSelector t
    else
      let ds ← declarationBlock
      return .style selectors ds : Parser Rule) t

theorem advances_styleRule : styleRule.Advances := by
  intro t
  have ht := walks_selectorList t
  unfold styleRule
  rw [Parser.bind_apply]
  cases hs : selectorList t with
  | mismatch => trivial
  | failure d rest => rwa [hs] at ht
  | matched selectors rest =>
      rw [hs] at ht
      have hblock : Parser.Advances (do
          let ds ← declarationBlock
          return Rule.style selectors ds) :=
        advances_declarationBlock.bind fun _ => Parser.walks_pure _
      simp only
      cases selectors.isEmpty with
      | true => exact List.suffix_refl t
      | false => exact (hblock rest).trans ht

def item : Parser Item := atItem.orElse (whole styleRule)

theorem advances_item : item.Advances :=
  advances_atItem.orElse (advances_whole advances_styleRule)

end CssInliner.Grammar
