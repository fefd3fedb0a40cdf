import CssInliner.Proofs.Concatenation
import CssInliner.Proofs.Text.Position

/-!
A defect that is reported is really there. Some readers go on for a while before they
give up, and what one gives up another may try again; all the same the text at the
point of a report shows the defect, and the line and column are those of that point.
-/

namespace CssInliner

open CssInliner.Grammar

/-- The text shows the defect at its very start. -/
def Defect.PresentAt (t : Text) : Defect → Prop
  | unterminatedComment => ∃ body, t = commentOpen ++ body ∧ ¬ commentClose <:+: body
  | missingSelector => ∃ rest, selectorList t = .matched [] rest
  | missingColon => t.head? ≠ some ':'
  | missingOpenBrace => t.head? ≠ some '\x7b'
  | missingCloseBrace => t.head? ≠ some '\x7d'
  | keyframesMissingName => ∀ c ∈ t.head?, Text.isIdentifierChar c = false
  | extraClosingBrace => t.head? = some '\x7d'

namespace Parser

variable {α β : Type} {p q : Parser α} {d : Defect} {t r : Text}

/-- Whatever defect is reported is present at the point of the report. -/
def Truthful (p : Parser α) : Prop := ∀ ⦃t d r⦄, p t = .failure d r → d.PresentAt r

theorem bind_eq_failure {f : α → Parser β} :
    (p >>= f) t = .failure d r ↔
      p t = .failure d r ∨ ∃ a m, p t = .matched a m ∧ f a m = .failure d r := by
  rw [bind_apply]
  cases hp : p t <;> simp [and_assoc]

theorem orElse_eq_failure :
    (p.orElse q) t = .failure d r ↔
      p t = .failure d r ∨ p t = .mismatch ∧ q t = .failure d r := by
  unfold Parser.orElse
  cases hp : p t <;> simp

theorem truthful_pure (a : α) : (pure a : Parser α).Truthful := by
  intro t d r h
  rw [pure_apply] at h
  contradiction

theorem Truthful.bind {f : α → Parser β} (hp : p.Truthful) (hf : ∀ a, (f a).Truthful) :
    (p >>= f).Truthful := by
  intro t d r h
  rcases bind_eq_failure.1 h with hpt | ⟨a, m, -, hfm⟩
  · exact hp hpt
  · exact hf a hfm

theorem truthful_mismatch : (mismatch : Parser α).Truthful :=
  fun _ _ _ h => by simp [mismatch] at h

theorem Truthful.orElse (hp : p.Truthful) (hq : q.Truthful) : (p.orElse q).Truthful := by
  intro t d r h
  rcases orElse_eq_failure.1 h with hpt | ⟨-, hqt⟩
  · exact hp hpt
  · exact hq hqt

theorem Truthful.optional (hp : p.Truthful) : p.optional.Truthful := by
  intro t d r h
  unfold Parser.optional at h
  cases hpt : p t with
  | matched a m | mismatch =>
      rw [hpt] at h
      contradiction
  | failure d' r' =>
      rw [hpt] at h
      obtain ⟨rfl, rfl⟩ := Outcome.failure.inj h
      exact hp hpt

/-- A mismatch may be turned into a defect that is present where there is a mismatch. -/
theorem Truthful.require (hp : p.Truthful) (hd : ∀ t, p t = .mismatch → d.PresentAt t) :
    (p.require d).Truthful := by
  intro t d' r h
  rcases orElse_eq_failure.1 h with hpt | ⟨hpt, hfail⟩
  · exact hp hpt
  · obtain ⟨rfl, rfl⟩ := Outcome.failure.inj hfail
    exact hd t hpt

theorem truthful_takeWhile (test : Char → Bool) : (takeWhile test).Truthful :=
  fun _ _ _ h => by simp [takeWhile] at h

theorem truthful_takeWhile1 (test : Char → Bool) : (takeWhile1 test).Truthful := by
  intro t d r h
  unfold takeWhile1 at h
  repeat' split at h
  all_goals contradiction

theorem truthful_literal (text : Text) : (literal text).Truthful := by
  intro t d r h
  unfold literal at h
  split at h <;> contradiction

theorem truthful_char (c : Char) : (char c).Truthful := truthful_literal [c]

theorem Truthful.many (hp : p.Truthful) (hadv : p.Advances) :
    Truthful (Parser.many p hadv) := by
  intro t d r h
  fun_induction Parser.many p hadv t with
  | case2 t d' r' hpt =>
      obtain ⟨rfl, rfl⟩ := Outcome.failure.inj h
      exact hp hpt
  | case5 t a m hpt _ d' r' hmany ih =>
      obtain ⟨rfl, rfl⟩ := Outcome.failure.inj h
      exact ih hmany
  | _ => contradiction

theorem head?_ne_of_char_eq_mismatch {c : Char} (h : char c t = .mismatch) :
    t.head? ≠ some c := by
  intro hhead
  obtain ⟨rest, rfl⟩ := List.head?_eq_some_iff.1 hhead
  exact literal_eq_mismatch.1 h ⟨rest, rfl⟩

theorem truthful_require_char {c : Char} (hd : ∀ t : Text, t.head? ≠ some c → d.PresentAt t) :
    ((char c).require d).Truthful :=
  (truthful_char c).require fun t h => hd t (head?_ne_of_char_eq_mismatch h)

end Parser

namespace Grammar

open CssInliner.Parser

theorem truthful_layout : layout.Truthful := truthful_takeWhile _

theorem truthful_comment : comment.Truthful := by
  intro t d r h
  unfold comment at h
  cases hlead : Text.dropLead? commentOpen t with
  | none =>
      rw [hlead] at h
      contradiction
  | some body =>
      cases hsplit : Text.splitFirst? commentClose body with
      | some found =>
          simp only [hlead, hsplit] at h
          contradiction
      | none =>
          simp only [hlead, hsplit] at h
          obtain ⟨rfl, rfl⟩ := Outcome.failure.inj h
          exact ⟨body, Text.eq_append_of_dropLead? hlead, Text.splitFirst?_eq_none_iff.1 hsplit⟩

theorem truthful_comments : comments.Truthful :=
  ((truthful_layout.bind fun _ => truthful_comment.bind fun _ => truthful_pure _).many _).bind
    fun _ => truthful_layout.bind fun _ => truthful_pure _

theorem truthful_filler : filler.Truthful :=
  ((truthful_takeWhile1 _).orElse truthful_comment).many _

theorem truthful_openBrace : openBrace.Truthful :=
  (truthful_char _).bind fun _ => truthful_layout.bind fun _ => truthful_pure _

theorem truthful_require_openBrace : (openBrace.require .missingOpenBrace).Truthful := by
  refine truthful_openBrace.require fun t h => ?_
  rcases bind_eq_mismatch.1 h with hbrace | ⟨_, m, -, hlayout⟩
  · exact head?_ne_of_char_eq_mismatch hbrace
  · exact absurd hlayout (insists_layout.bind (fun _ => insists_pure _) m)

theorem truthful_require_closeBrace : (closeBrace.require .missingCloseBrace).Truthful :=
  truthful_require_char fun _ h => h

theorem truthful_selectorList : selectorList.Truthful := by
  refine truthful_layout.bind fun _ t d r h => ?_
  by_cases hbrace : t.head? = some '\x7d'
  · rw [if_pos hbrace] at h
    obtain ⟨rfl, rfl⟩ := Outcome.failure.inj h
    exact hbrace
  · rw [if_neg hbrace] at h
    contradiction

theorem truthful_rawValue : rawValue.Truthful := fun _ _ _ h => by simp [rawValue] at h

theorem truthful_propertyName : propertyName.Truthful :=
  (truthful_takeWhile1 _).bind fun _ =>
    (((truthful_char _).bind fun _ => (truthful_takeWhile1 _).bind fun _ =>
      (truthful_char _).bind fun _ => truthful_pure _).optional).bind fun _ => truthful_pure _

theorem truthful_require_colon : ((char ':').require .missingColon).Truthful :=
  truthful_require_char fun _ h => h

theorem truthful_declaration : declaration.Truthful :=
  truthful_propertyName.bind fun _ =>
    truthful_layout.bind fun _ =>
      truthful_require_colon.bind fun _ =>
        truthful_layout.bind fun _ =>
          truthful_rawValue.bind fun _ =>
            (truthful_takeWhile _).bind fun _ => truthful_pure _

theorem truthful_declarationBlock : declarationBlock.Truthful :=
  truthful_require_openBrace.bind fun _ =>
    truthful_filler.bind fun _ =>
      ((truthful_declaration.bind fun _ =>
        truthful_filler.bind fun _ => truthful_pure _).many _).bind fun _ =>
          truthful_require_closeBrace.bind fun _ => truthful_pure _

theorem truthful_digits : digits.Truthful := truthful_takeWhile1 _

theorem truthful_fraction : fraction.Truthful :=
  (truthful_char _).bind fun _ => truthful_digits.bind fun _ => truthful_pure _

theorem truthful_percentage : percentage.Truthful :=
  ((truthful_digits.bind fun _ => truthful_fraction.bind fun _ => truthful_pure _).orElse
    (truthful_fraction.orElse truthful_digits)).bind fun _ =>
      (truthful_char _).optional.bind fun _ => truthful_pure _

theorem truthful_keyframeSelectorItem : keyframeSelectorItem.Truthful :=
  (truthful_percentage.orElse (truthful_takeWhile1 _)).bind fun _ =>
    truthful_layout.bind fun _ =>
      ((truthful_char _).bind fun _ =>
        truthful_layout.bind fun _ => truthful_pure _).optional.bind fun _ => truthful_pure _

theorem truthful_keyframe : keyframe.Truthful := by
  refine truthful_layout.bind fun _ =>
    (truthful_keyframeSelectorItem.many _).bind fun selectors => ?_
  split
  · exact truthful_mismatch
  · exact truthful_declarationBlock.bind fun _ => truthful_pure _

theorem truthful_require_identifier : (identifier.require .keyframesMissingName).Truthful :=
  (truthful_takeWhile1 _).require fun _ h => takeWhile1_eq_mismatch.1 h

theorem truthful_atKeyword : atKeyword.Truthful :=
  (truthful_char _).bind fun _ => truthful_takeWhile _

theorem truthful_vendored (base : Text) : (vendored base).Truthful := by
  refine truthful_atKeyword.bind fun _ => ?_
  split
  · exact truthful_mismatch
  · exact truthful_pure _

theorem truthful_keyframes : keyframes.Truthful :=
  (truthful_vendored _).bind fun _ =>
    truthful_layout.bind fun _ =>
      truthful_require_identifier.bind fun _ =>
        truthful_layout.bind fun _ =>
          truthful_require_openBrace.bind fun _ =>
            truthful_comments.bind fun _ =>
              ((truthful_keyframe.bind fun _ =>
                truthful_comments.bind fun _ => truthful_pure _).many _).bind fun _ =>
                  truthful_require_closeBrace.bind fun _ => truthful_pure _

theorem truthful_blockHeader : blockHeader.Truthful :=
  (truthful_takeWhile _).bind fun _ => (truthful_takeWhile1 _).bind fun _ => truthful_pure _

theorem truthful_customMedia : customMedia.Truthful :=
  (truthful_literal _).bind fun _ =>
    (truthful_takeWhile1 _).bind fun _ =>
      ((truthful_literal _).bind fun _ =>
        (truthful_takeWhile1 _).bind fun _ => truthful_pure _).bind fun _ =>
          truthful_layout.bind fun _ =>
            (truthful_takeWhile1 _).bind fun _ =>
              (truthful_char _).bind fun _ => truthful_pure _

theorem truthful_page : page.Truthful :=
  (truthful_literal _).bind fun _ =>
    (truthful_takeWhile _).bind fun _ =>
      truthful_selectorList.bind fun _ =>
        truthful_declarationBlock.bind fun _ => truthful_pure _

theorem truthful_fontFace : fontFace.Truthful :=
  (truthful_literal _).bind fun _ =>
    truthful_layout.bind fun _ => truthful_declarationBlock.bind fun _ => truthful_pure _

theorem truthful_statement : statement.Truthful := by
  refine truthful_atKeyword.bind fun _ => ?_
  split
  · exact truthful_mismatch
  · exact truthful_layout.bind fun _ =>
      (truthful_takeWhile1 _).bind fun _ => (truthful_char _).bind fun _ => truthful_pure _

theorem truthful_whole {p : Parser Rule} (hp : p.Truthful) : (whole p).Truthful :=
  hp.bind fun _ => truthful_pure _

/-- Headers report nothing, and at rules are tried as long as none of them does. -/
theorem truthful_atItem : atItem.Truthful := by
  have hheader : ∀ (keyword : Text) (kind : GroupKind), Truthful (do
      literal keyword
      let header ← blockHeader
      return Item.groupHeader kind header) := fun keyword kind =>
    (truthful_literal keyword).bind fun _ => truthful_blockHeader.bind fun _ => truthful_pure _
  have hhost : hostHeader.Truthful :=
    (truthful_literal _).bind fun _ => truthful_layout.bind fun _ => truthful_pure _
  have hdocument : documentHeader.Truthful :=
    (truthful_vendored _).bind fun _ => truthful_blockHeader.bind fun _ => truthful_pure _
  exact truthful_layout.bind fun _ =>
    (truthful_whole truthful_keyframes).orElse <| (hheader _ _).orElse <| hhost.orElse <|
      (hheader _ _).orElse <| (truthful_whole truthful_customMedia).orElse <|
        (truthful_whole truthful_page).orElse <| hdocument.orElse <|
          (truthful_whole truthful_fontFace).orElse <| truthful_whole truthful_statement

/-- The selectors are missing from the text that the rule was tried on, not from where
they were looked for. -/
theorem truthful_styleRule : styleRule.Truthful := by
  intro t d r h
  rcases bind_eq_failure.1 h with hsel | ⟨selectors, m, hsel, hblock⟩
  · exact truthful_selectorList hsel
  · cases selectors with
    | nil =>
        obtain ⟨rfl, rfl⟩ := Outcome.failure.inj hblock
        exact ⟨m, hsel⟩
    | cons s ss =>
        exact (truthful_declarationBlock.bind fun _ => truthful_pure _) hblock

theorem truthful_item : item.Truthful :=
  truthful_atItem.orElse (truthful_whole truthful_styleRule)

theorem truthful_openBlock : openBlock.Truthful :=
  truthful_require_openBrace.bind fun _ => truthful_comments

theorem truthful_itemWithComments : itemWithComments.Truthful := by
  refine truthful_item.bind fun i => ?_
  cases i with
  | rule rule => exact truthful_comments.bind fun _ => truthful_pure _
  | groupHeader kind header => exact truthful_openBlock.bind fun _ => truthful_pure _

/-- A turn reports what its item or its closing brace reports, and a list that ends with
the text reports its own brace. -/
theorem truthful_readRules (bare : Bool) (groups : List OpenGroup) (rules : List Rule) :
    Truthful (readRules bare groups rules) := by
  intro t d r h
  fun_induction readRules bare groups rules t with
  | case2 =>
      obtain ⟨rfl, rfl⟩ := Outcome.failure.inj h
      show List.head? [] ≠ some '\x7d'
      simp
  | case4 _ _ _ _ _ _ _ _ _ _ ih => exact ih h
  | case6 _ _ _ _ _ d' r' hclose _ =>
      obtain ⟨rfl, rfl⟩ := Outcome.failure.inj h
      exact ((truthful_char _).bind fun _ => truthful_comments) hclose
  | case7 _ _ _ _ _ _ _ _ _ _ _ ih => exact ih h
  | case8 _ _ _ _ _ _ _ _ _ _ _ _ ih => exact ih h
  | case10 _ _ _ _ d' r' hitem =>
      obtain ⟨rfl, rfl⟩ := Outcome.failure.inj h
      exact truthful_itemWithComments hitem
  | _ => contradiction

theorem truthful_ruleList (bare : Bool) : (ruleList bare).Truthful := by
  have hstart : (listStart bare).Truthful := by
    cases bare
    · exact truthful_openBlock
    · exact truthful_comments
  exact hstart.bind fun found => truthful_readRules bare [] found.reverse

end Grammar

namespace Stylesheet

/-- A source that is not accepted shows the defect it is refused for, at the line and
column that are reported. A list of rules without braces is never simply not matched. -/
theorem parse_error_present (source : Text) :
    ruleList true source ≠ .mismatch ∧ ∀ e, parse source = .error e →
      ∃ read unread, source = read ++ unread ∧ e.position.line = 1 + read.count '\n' ∧
        e.position.column = 1 + (read.rtakeWhile (· ≠ '\n')).length ∧
          e.defect.PresentAt unread := by
  refine ⟨insists_ruleList_bare source, fun e he => ?_⟩
  obtain ⟨read, unread, rfl, hfailure, hoffset⟩ := ruleList_of_parse_eq_error he
  have hposition : e.position = Position.after read := by
    rw [hoffset]
    exact Position.atOffset_byteLength_append read unread
  refine ⟨read, unread, rfl, ?_, ?_, truthful_ruleList true hfailure⟩
  · rw [hposition, Position.line_after]
  · rw [hposition, Position.column_after]

/-- The name of a keyframes rule is missing behind the blank, in the second line. -/
theorem parse_error_present_sample :
    let source := "a\x7bb:c\x7d\n@keyframes \x7b\x7d".toList
    parse source = .error ⟨.keyframesMissingName, ⟨2, 12⟩⟩ ∧
      ∃ read unread, source = read ++ unread ∧ 2 = 1 + read.count '\n' ∧
        12 = 1 + (read.rtakeWhile (· ≠ '\n')).length ∧
          Defect.keyframesMissingName.PresentAt unread := by
  intro source
  have he : parse source = .error ⟨.keyframesMissingName, ⟨2, 12⟩⟩ := by decide +kernel
  exact ⟨he, (parse_error_present source).2 _ he⟩

end Stylesheet

end CssInliner
