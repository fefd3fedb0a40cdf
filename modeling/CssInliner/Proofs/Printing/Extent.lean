import CssInliner.Proofs.Printing.Item
import CssInliner.Proofs.Printing.ReadsBack

/-!
Where an item begins and where it ends. In print an item begins with no blank; a
rule ends with a brace or a semicolon, in print and in the text it is read from.
-/

namespace CssInliner

namespace Parser

variable {α β : Type} {p : Parser α}

def EndsAtBound (p : Parser α) : Prop :=
  ∀ ⦃t a r⦄, p t = .matched a r → ∃ (s : Text) (c : Char), t = s ++ c :: r ∧ isBound c = true

theorem endsAtBound_char {c : Char} (hc : isBound c = true) : (char c).EndsAtBound := by
  intro t a r h
  obtain rfl := literal_eq_matched.1 h
  exact ⟨[], c, rfl, hc⟩

theorem endsAtBound_mismatch : (mismatch : Parser α).EndsAtBound :=
  fun _ _ _ h => by simp [mismatch] at h

theorem EndsAtBound.require (hp : p.EndsAtBound) (d : Defect) : (p.require d).EndsAtBound :=
  fun _ _ _ h => hp (require_eq_matched.1 h)

theorem EndsAtBound.pure (hp : p.EndsAtBound) (f : α → β) :
    (p >>= fun a => Pure.pure (f a)).EndsAtBound := by
  intro t b r h
  obtain ⟨a, m, hpt, hpure⟩ := bind_eq_matched.1 h
  obtain ⟨-, rfl⟩ := Outcome.matched.inj hpure
  exact hp hpt

theorem endsAtBound_of_next {f : α → Parser β} (hp : p.Walks) (hf : ∀ a, (f a).EndsAtBound) :
    (p >>= f).EndsAtBound := by
  intro t b r h
  obtain ⟨a, m, hpt, hft⟩ := bind_eq_matched.1 h
  obtain ⟨s, rfl⟩ := suffix_of_matched hp hpt
  obtain ⟨s', c, rfl, hc⟩ := hf a hft
  exact ⟨s ++ s', c, by simp, hc⟩

end Parser

namespace Grammar

open CssInliner.Parser

section ends

theorem endsAtBound_declarationBlock : declarationBlock.EndsAtBound :=
  endsAtBound_of_next (advances_openBrace.require _).walks fun _ =>
    endsAtBound_of_next walks_filler fun _ => endsAtBound_of_next (walks_many _) fun ds =>
      ((endsAtBound_char rfl).require _).pure fun _ => ds

theorem endsAtBound_keyframes : keyframes.EndsAtBound :=
  endsAtBound_of_next (advances_vendored _).walks fun _ =>
    endsAtBound_of_next walks_layout fun _ =>
      endsAtBound_of_next (advances_identifier.require _).walks fun _ =>
        endsAtBound_of_next walks_layout fun _ =>
          endsAtBound_of_next (advances_openBrace.require _).walks fun _ =>
            endsAtBound_of_next walks_comments fun _ =>
              endsAtBound_of_next (walks_many _) fun _ =>
                ((endsAtBound_char rfl).require _).pure _

theorem endsAtBound_customMedia : customMedia.EndsAtBound :=
  endsAtBound_of_next (advances_literal (by simp)).walks fun _ =>
    endsAtBound_of_next (advances_takeWhile1 _).walks fun _ =>
      endsAtBound_of_next advances_customMediaName.walks fun _ =>
        endsAtBound_of_next walks_layout fun _ =>
          endsAtBound_of_next (advances_takeWhile1 _).walks fun _ =>
            (endsAtBound_char rfl).pure _

theorem endsAtBound_page : page.EndsAtBound :=
  endsAtBound_of_next (advances_literal (by simp)).walks fun _ =>
    endsAtBound_of_next walks_spaces fun _ => endsAtBound_of_next walks_selectorList fun _ =>
      endsAtBound_declarationBlock.pure _

theorem endsAtBound_fontFace : fontFace.EndsAtBound :=
  endsAtBound_of_next (advances_literal (by simp)).walks fun _ =>
    endsAtBound_of_next walks_layout fun _ => endsAtBound_declarationBlock.pure _

theorem endsAtBound_statement : statement.EndsAtBound := by
  refine endsAtBound_of_next advances_atKeyword.walks fun keyword => ?_
  cases StatementKind.ofKeyword? keyword with
  | none => exact endsAtBound_mismatch
  | some kind =>
      exact endsAtBound_of_next walks_layout fun _ =>
        endsAtBound_of_next (advances_takeWhile1 _).walks fun _ => (endsAtBound_char rfl).pure _

theorem endsAtBound_styleRule : styleRule.EndsAtBound := by
  intro t rule r h
  obtain ⟨selectors, m, ds, hselectors, -, hds, -⟩ := styleRule_eq_matched.1 h
  obtain ⟨s, rfl⟩ := suffix_of_matched walks_selectorList hselectors
  obtain ⟨s', c, rfl, hc⟩ := endsAtBound_declarationBlock hds
  exact ⟨s ++ s', c, by simp, hc⟩

/-- Where an item ends, with the brace of the block if it is a header. -/
def ClosesItems (p : Parser Item) : Prop :=
  ∀ ⦃t i u⦄, p t = .matched i (i.brace ++ u) →
    ∃ (s : Text) (c : Char), t = s ++ c :: u ∧ isBound c = true

theorem closesItems_whole {p : Parser Rule} (hp : p.EndsAtBound) : ClosesItems (whole p) := by
  intro t i u h
  obtain ⟨rule, rfl, hrule⟩ := whole_eq_matched.1 h
  exact hp hrule

theorem closesItems_header {p : Parser Item} (hp : p.Walks)
    (hheader : p.Yields fun i => ∃ kind header, i = .groupHeader kind header) :
    ClosesItems p := by
  intro t i u h
  obtain ⟨kind, header, rfl⟩ := hheader h
  obtain ⟨s, rfl⟩ := suffix_of_matched hp h
  exact ⟨s, '\x7b', rfl, rfl⟩

theorem ClosesItems.orElse {p q : Parser Item} (hp : ClosesItems p) (hq : ClosesItems q) :
    ClosesItems (p.orElse q) := by
  intro t i u h
  rcases orElse_eq_matched.1 h with hpt | ⟨-, hqt⟩
  · exact hp hpt
  · exact hq hqt

theorem closesItems_item : ClosesItems item := by
  have hknown : ClosesItems knownAtItem :=
    (closesItems_whole endsAtBound_keyframes).orElse <|
      (closesItems_header advances_supportsHeader.walks yields_supportsHeader).orElse <|
        (closesItems_header advances_hostHeader.walks yields_hostHeader).orElse <|
          (closesItems_header advances_mediaHeader.walks yields_mediaHeader).orElse <|
            (closesItems_whole endsAtBound_customMedia).orElse <|
              (closesItems_whole endsAtBound_page).orElse <|
                (closesItems_header advances_documentHeader.walks yields_documentHeader).orElse <|
                  (closesItems_whole endsAtBound_fontFace).orElse <|
                    closesItems_whole endsAtBound_statement
  refine ClosesItems.orElse ?_ (closesItems_whole endsAtBound_styleRule)
  intro t i u h
  obtain ⟨blank, m, hblank, hitem⟩ := bind_eq_matched.1 h
  obtain ⟨s, rfl⟩ := suffix_of_matched walks_layout hblank
  obtain ⟨s', c, rfl, hc⟩ := hknown hitem
  exact ⟨s ++ s', c, by simp, hc⟩

end ends

section print

def Item.isGroup : Item → Bool
  | .rule (.group _ _ _) => true
  | _ => false

/-- What is read as an item: in print it does not begin with a blank, and groups
are read as headers. -/
structure Item.Proper (i : Item) : Prop where
  head : ∀ c, i.print.head? = some c → Text.isBlank c = false
  not_group : i.isGroup = false

theorem isBlank_head_at {t : Text} :
    ∀ c, List.head? ('@' :: t) = some c → Text.isBlank c = false := by
  intro c hc
  obtain rfl : '@' = c := by simpa using hc
  rfl

def YieldsProper (p : Parser Rule) : Prop := p.Yields fun rule => (Item.rule rule).Proper

theorem yieldsProper_keyframes : YieldsProper keyframes :=
  yields_of_next fun _ => yields_of_next fun _ => yields_of_next fun _ => yields_of_next fun _ =>
    yields_of_next fun _ => yields_of_next fun _ => yields_of_next fun _ => yields_of_next fun _ =>
      yields_pure ⟨isBlank_head_at, rfl⟩

theorem yieldsProper_customMedia : YieldsProper customMedia :=
  yields_of_next fun _ => yields_of_next fun _ => yields_of_next fun _ => yields_of_next fun _ =>
    yields_of_next fun _ => yields_of_next fun _ => yields_pure ⟨isBlank_head_at, rfl⟩

theorem yieldsProper_page : YieldsProper page := by
  refine yields_of_next fun _ => yields_of_next fun _ => yields_of_next fun selectors =>
    yields_of_next fun ds => yields_pure ?_
  cases ds with
  | nil => exact ⟨by simp [Item.print, Rule.render_page], rfl⟩
  | cons d ds => exact ⟨isBlank_head_at, rfl⟩

theorem yieldsProper_fontFace : YieldsProper fontFace :=
  yields_of_next fun _ => yields_of_next fun _ => yields_of_next fun _ =>
    yields_pure ⟨isBlank_head_at, rfl⟩

theorem yieldsProper_statement : YieldsProper statement := by
  refine yields_of_next fun keyword => ?_
  cases StatementKind.ofKeyword? keyword with
  | none => exact yields_mismatch
  | some kind =>
      exact yields_of_next fun _ => yields_of_next fun _ => yields_of_next fun _ =>
        yields_pure ⟨isBlank_head_at, rfl⟩

theorem yieldsProper_styleRule : YieldsProper styleRule := by
  intro t rule r h
  obtain ⟨selectors, m, ds, hselectors, hne, -, rfl⟩ := styleRule_eq_matched.1 h
  refine ⟨fun c hc => ?_, rfl⟩
  obtain ⟨s, ss, rfl⟩ := List.exists_cons_of_ne_nil hne
  obtain ⟨blank, n, -, -, hsplit, -⟩ := selectorList_eq_matched.1 hselectors
  obtain ⟨hs, htrim⟩ := of_mem_splitSelectors (hsplit ▸ List.mem_cons_self)
  obtain ⟨d, s, rfl⟩ := List.exists_cons_of_ne_nil hs
  obtain ⟨x, hjoin⟩ := join_cons [','] d s ss
  cases ds with
  | nil => simp [Item.print, Rule.render_style] at hc
  | cons e ds =>
      have hprint : (Item.rule (.style ((d :: s) :: ss) (e :: ds))).print =
          d :: (x ++ renderBlock (e :: ds) ++ []) := by
        rw [Item.print, Rule.render_style, hjoin]
        rfl
      rw [hprint] at hc
      obtain rfl : d = c := by simpa using hc
      exact Text.isBlank_of_trim_eq_cons htrim

theorem YieldsProper.whole {p : Parser Rule} (hp : YieldsProper p) :
    (whole p).Yields Item.Proper :=
  Yields.bind hp fun _ hrule => yields_pure hrule

theorem proper_of_header {p : Parser Item}
    (hp : p.Yields fun i => ∃ kind header, i = .groupHeader kind header) :
    p.Yields Item.Proper := by
  intro t i r h
  obtain ⟨kind, header, rfl⟩ := hp h
  cases kind
  all_goals exact ⟨isBlank_head_at, rfl⟩

theorem proper_item : item.Yields Item.Proper := by
  have hknown : knownAtItem.Yields Item.Proper :=
    yieldsProper_keyframes.whole.orElse <|
      (proper_of_header yields_supportsHeader).orElse <|
        (proper_of_header yields_hostHeader).orElse <|
          (proper_of_header yields_mediaHeader).orElse <|
            yieldsProper_customMedia.whole.orElse <| yieldsProper_page.whole.orElse <|
              (proper_of_header yields_documentHeader).orElse <|
                yieldsProper_fontFace.whole.orElse yieldsProper_statement.whole
  exact Yields.orElse (yields_of_next fun _ => hknown) yieldsProper_styleRule.whole

/-- In print the item, with its brace, ends with a bound if it is anything at all. -/
theorem Item.print_brace_ends (i : Item) :
    i.print ++ i.brace = [] ∨
      ∃ (s : Text) (c : Char), i.print ++ i.brace = s ++ [c] ∧ isBound c = true := by
  cases i with
  | groupHeader kind header => exact .inr ⟨kind.render header, '\x7b', rfl, rfl⟩
  | rule rule =>
      rw [show (Item.rule rule).print ++ (Item.rule rule).brace = rule.render [] from
        List.append_nil _]
      cases rule with
      | style selectors ds =>
          rw [Rule.render_style]
          split
          · exact .inl rfl
          · exact .inr ⟨_, '\x7d', by rw [List.append_nil, renderBlock, ← List.append_assoc], rfl⟩
      | page selectors ds =>
          rw [Rule.render_page]
          split
          · exact .inl rfl
          · exact .inr ⟨_, '\x7d', by rw [List.append_nil, renderBlock, ← List.append_assoc], rfl⟩
      | fontFace ds =>
          exact .inr ⟨_, '\x7d', by rw [Rule.render_fontFace, renderBlock, ← List.append_assoc],
            rfl⟩
      | keyframes vendor name frames =>
          exact .inr ⟨_, '\x7d', by rw [Rule.render_keyframes], rfl⟩
      | group kind header rules => exact .inr ⟨_, '\x7d', by rw [Rule.render_group], rfl⟩
      | customMedia name media => exact .inr ⟨_, ';', by rw [Rule.render_customMedia], rfl⟩
      | statement kind value => exact .inr ⟨_, ';', by rw [Rule.render_statement], rfl⟩
      | comment text => exact .inl rfl

end print

end Grammar

end CssInliner
