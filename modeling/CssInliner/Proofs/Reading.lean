import CssInliner.Grammar.Rules
import CssInliner.Proofs.Lookahead.Item

/-!
Reading a list of rules as a run. What has been read so far is the state; every
turn reads a closing brace or an item and goes on, so a fact about a whole run
comes from a fact about one turn. Comments are read together with what they
follow, whatever layout lies between them.
-/

namespace CssInliner

def Outcome.map {α β : Type} (f : α → β) : Outcome α → Outcome β
  | .matched a rest => .matched (f a) rest
  | .mismatch => .mismatch
  | .failure d rest => .failure d rest

theorem Outcome.map_map {α β γ : Type} (f : α → β) (g : β → γ) (o : Outcome α) :
    (o.map f).map g = o.map (g ∘ f) := by
  cases o <;> rfl

namespace Grammar

open CssInliner.Parser

section comments

theorem comments_eq (t : Text) :
    comments t =
      match many commentRule advances_commentRule t with
      | .matched found r => .matched found (r.dropWhile Text.isLayout)
      | .mismatch => .mismatch
      | .failure d r => .failure d r := by
  refine (bind_apply (many commentRule advances_commentRule) _ t).trans ?_
  cases many commentRule advances_commentRule t <;> rfl

theorem layout_append {blank : Text} (hblank : ∀ c ∈ blank, Text.isLayout c = true) (t : Text) :
    layout (blank ++ t) = .matched (blank ++ t.takeWhile Text.isLayout)
      (t.dropWhile Text.isLayout) := by
  rw [layout, takeWhile, List.takeWhile_append_of_pos hblank, List.dropWhile_append_of_pos hblank]

theorem commentRule_append {blank : Text} (hblank : ∀ c ∈ blank, Text.isLayout c = true)
    (t : Text) : commentRule (blank ++ t) = commentRule t := by
  rw [commentRule, bind_apply, bind_apply, layout_append hblank t]
  rfl

theorem comments_append {blank : Text} (hblank : ∀ c ∈ blank, Text.isLayout c = true)
    (t : Text) : comments (blank ++ t) = comments t := by
  rw [comments_eq, comments_eq, many_eq, many_eq, commentRule_append hblank t]
  cases commentRule t with
  | matched rule r => rfl
  | failure d r => rfl
  | mismatch =>
      dsimp only
      rw [List.dropWhile_append_of_pos hblank]

theorem steady_commentRule : commentRule.Steady := by
  refine ⟨advances_commentRule.walks, ?_⟩
  intro t rule r h u
  obtain ⟨blank, m, hblank, hrule⟩ := bind_eq_matched.1 h
  obtain ⟨text, n, hcomment, -⟩ := bind_eq_matched.1 hrule
  have hm : m ≠ [] := by
    obtain ⟨body, rfl, -⟩ := comment_eq_matched.1 hcomment
    simp [commentOpen]
  obtain ⟨rfl, hin, hout⟩ := takeWhile_eq_matched.1 hblank
  refine bind_eq_matched.2 ⟨blank, m ++ u, takeWhile_eq_matched.2 ⟨by simp, hin, ?_⟩, ?_⟩
  · rwa [head?_append_of_ne_nil hm]
  · exact (steady_comment.bind fun _ => steady_pure _).append hrule u

theorem comments_of_commentRule {t r : Text} {rule : Rule}
    (h : commentRule t = .matched rule r) : comments t = (comments r).map (rule :: ·) := by
  rw [comments_eq, comments_eq, many_eq, h]
  dsimp only
  cases many commentRule advances_commentRule r <;> rfl

theorem comments_append_of_nil {t : Text} {found : List Rule}
    (h : comments t = .matched found []) (u : Text) :
    comments (t ++ u) = (comments u).map (found ++ ·) := by
  rw [comments_eq] at h
  cases hmany : many commentRule advances_commentRule t with
  | mismatch =>
      rw [hmany] at h
      contradiction
  | failure d r =>
      rw [hmany] at h
      contradiction
  | matched fs r =>
      rw [hmany] at h
      obtain ⟨rfl, hr⟩ := Outcome.matched.inj h
      clear h
      have hblank : ∀ c ∈ r, Text.isLayout c = true := List.dropWhile_eq_nil_iff.1 hr
      -- comment by comment: each ends within the text, and layout at its end joins what follows
      induction hmany using many_induction with
      | nil =>
          rw [comments_append hblank u]
          cases comments u <;> rfl
      | cons t rule m fs r h hnext hrule ih =>
          rw [comments_of_commentRule (steady_commentRule.append hrule u), ih hr hblank,
            Outcome.map_map]
          rfl

end comments

/-- Goes on behind something that has been read: its comments, and then rules. -/
def readOn (bare : Bool) (groups : List OpenGroup) (rules : List Rule) :
    Parser (List Rule) := do
  let found ← comments
  readRules bare groups (found.reverse ++ rules)

theorem readOn_apply (bare : Bool) (groups : List OpenGroup) (rules : List Rule) (t : Text) :
    readOn bare groups rules t =
      match comments t with
      | .matched found r => readRules bare groups (found.reverse ++ rules) r
      | .mismatch => .mismatch
      | .failure d r => .failure d r := by
  refine (bind_apply comments _ t).trans ?_
  cases comments t <;> rfl

theorem ruleList_bare : ruleList true = readOn true [] [] := by
  funext t
  show (comments >>= fun found => readRules true [] found.reverse) t =
    (comments >>= fun found => readRules true [] (found.reverse ++ [])) t
  simp only [List.append_nil]

section turns

variable {bare : Bool} {groups : List OpenGroup} {rules : List Rule} {t m : Text}

theorem openBlock_cons (m : Text) : openBlock ('\x7b' :: m) = comments m := by
  have hbrace : openBrace ('\x7b' :: m) = .matched () (m.dropWhile Text.isLayout) := rfl
  have hin : ∀ c ∈ m.takeWhile Text.isLayout, Text.isLayout c = true :=
    fun c hc => List.all_eq_true.1 List.all_takeWhile c hc
  calc openBlock ('\x7b' :: m)
      = comments (m.dropWhile Text.isLayout) := by
        rw [openBlock, bind_apply, require_eq_matched.2 hbrace]
    _ = comments m := by
        rw [← comments_append hin, List.takeWhile_append_dropWhile]

theorem exists_of_openBlock {r : Text} {found : List Rule} (h : openBlock t = .matched found r) :
    ∃ m, t = '\x7b' :: m ∧ comments m = .matched found r := by
  obtain ⟨u, n, hbrace, -⟩ := bind_eq_matched.1 h
  obtain ⟨u, m, hopen, -⟩ := bind_eq_matched.1 (require_eq_matched.1 hbrace)
  obtain rfl := literal_eq_matched.1 hopen
  exact ⟨m, rfl, by rw [← openBlock_cons]; exact h⟩

theorem readRules_close (g : OpenGroup) (t : Text) :
    readRules bare (g :: groups) rules ('\x7d' :: t) =
      readOn bare groups (g.close rules :: g.before) t := by
  have hclose : closeBlock ('\x7d' :: t) = comments t := rfl
  rw [readRules_eq, readOn_apply]
  cases hfound : comments t
  all_goals simp only [List.isEmpty_cons, Bool.and_false, Bool.not_false, decide_true,
    Bool.and_self, if_true, hclose, hfound]

/-- Where an item may stand: a closing brace is one only outside all groups. -/
def ItemsAllowed (bare : Bool) (groups : List OpenGroup) (t : Text) : Prop :=
  t.head? = some '\x7d' → bare = true ∧ groups = []

theorem itemsAllowed_of_not_close
    (h : ¬ ∃ g outer m, t = '\x7d' :: m ∧ groups = g :: outer) : ItemsAllowed true groups t := by
  intro hhead
  obtain ⟨m, rfl⟩ := List.head?_eq_some_iff.1 hhead
  cases groups with
  | nil => exact ⟨rfl, rfl⟩
  | cons g outer => exact absurd ⟨g, outer, m, rfl, rfl⟩ h

theorem readRules_of_allowed (hne : t ≠ []) (ht : ItemsAllowed bare groups t) :
    readRules bare groups rules t =
      match itemWithComments t with
      | .matched (.rule rule, found) rest =>
          readRules bare groups (found.reverse ++ rule :: rules) rest
      | .matched (.groupHeader kind header, found) rest =>
          readRules bare (⟨kind, header, rules⟩ :: groups) found.reverse rest
      | .mismatch => .mismatch
      | .failure d rest => .failure d rest := by
  obtain ⟨c, t, rfl⟩ := List.exists_cons_of_ne_nil hne
  have hbrace : (decide (c = '\x7d') && !(bare && groups.isEmpty)) = false := by
    by_cases hc : c = '\x7d'
    · obtain ⟨rfl, rfl⟩ := ht (by simp [hc])
      simp
    · simp [hc]
  rw [readRules_eq]
  cases hitem : itemWithComments (c :: t) with
  | mismatch => simp only [hbrace, Bool.false_eq_true, if_false, hitem]
  | failure d r => simp only [hbrace, Bool.false_eq_true, if_false, hitem]
  | matched both r =>
      obtain ⟨i, found⟩ := both
      cases i
      all_goals simp only [hbrace, Bool.false_eq_true, if_false, hitem]

theorem ne_nil_of_item {i : Item} (h : item t = .matched i m) : t ≠ [] := by
  rintro rfl
  have := advances_item []
  rw [h] at this
  exact absurd this.2 (Nat.not_lt_zero _)

theorem readRules_of_rule {rule : Rule} (h : item t = .matched (.rule rule) m)
    (ht : ItemsAllowed bare groups t) :
    readRules bare groups rules t = readOn bare groups (rule :: rules) m := by
  have hitem : itemWithComments t = (comments m).map fun found => (.rule rule, found) := by
    refine (bind_apply item _ t).trans ?_
    rw [h]
    refine (bind_apply comments _ m).trans ?_
    cases comments m <;> rfl
  rw [readRules_of_allowed (ne_nil_of_item h) ht, hitem, readOn_apply]
  cases comments m <;> rfl

theorem readRules_of_header {kind : GroupKind} {header : Text}
    (h : item t = .matched (.groupHeader kind header) ('\x7b' :: m))
    (ht : ItemsAllowed bare groups t) :
    readRules bare groups rules t = readOn bare (⟨kind, header, rules⟩ :: groups) [] m := by
  have hitem : itemWithComments t =
      (comments m).map fun found => (.groupHeader kind header, found) := by
    refine (bind_apply item _ t).trans ?_
    rw [h]
    refine (bind_apply openBlock _ ('\x7b' :: m)).trans ?_
    rw [openBlock_cons]
    cases comments m <;> rfl
  rw [readRules_of_allowed (ne_nil_of_item h) ht, hitem, readOn_apply]
  simp only [List.append_nil]
  cases comments m <;> rfl

theorem exists_of_itemWithComments {i : Item} {found : List Rule} {r : Text}
    (h : itemWithComments t = .matched (i, found) r) :
    (∃ rule m, i = .rule rule ∧ item t = .matched (.rule rule) m) ∨
      ∃ kind header m, i = .groupHeader kind header ∧
        item t = .matched (.groupHeader kind header) ('\x7b' :: m) := by
  obtain ⟨i', m, hitem, h⟩ := bind_eq_matched.1 h
  cases i' with
  | rule rule =>
      left
      obtain ⟨fs, n, -, h⟩ := bind_eq_matched.1 h
      obtain ⟨hpair, rfl⟩ := Outcome.matched.inj h
      obtain ⟨rfl, rfl⟩ := Prod.mk.inj hpair
      exact ⟨rule, m, rfl, hitem⟩
  | groupHeader kind header =>
      right
      obtain ⟨fs, n, hopen, h⟩ := bind_eq_matched.1 h
      obtain ⟨hpair, rfl⟩ := Outcome.matched.inj h
      obtain ⟨rfl, rfl⟩ := Prod.mk.inj hpair
      obtain ⟨m, rfl, -⟩ := exists_of_openBlock hopen
      exact ⟨kind, header, m, rfl, hitem⟩

theorem turn_of_readRules {result : List Rule} {r : Text}
    (h : readRules true groups rules t = .matched result r) :
    (t = [] ∧ groups = [] ∧ result = rules.reverse ∧ r = []) ∨
      (∃ g outer m, t = '\x7d' :: m ∧ groups = g :: outer ∧
        readOn true outer (g.close rules :: g.before) m = .matched result r) ∨
      (∃ rule m, ItemsAllowed true groups t ∧ item t = .matched (.rule rule) m ∧
        readOn true groups (rule :: rules) m = .matched result r) ∨
      (∃ kind header m, ItemsAllowed true groups t ∧
        item t = .matched (.groupHeader kind header) ('\x7b' :: m) ∧
        readOn true (⟨kind, header, rules⟩ :: groups) [] m = .matched result r) := by
  -- the list ends
  by_cases hend : t = [] ∧ groups = []
  · left
    obtain ⟨rfl, rfl⟩ := hend
    rw [readRules_eq] at h
    obtain ⟨rfl, rfl⟩ := Outcome.matched.inj h
    exact ⟨rfl, rfl, rfl, rfl⟩
  right
  -- the innermost group ends
  by_cases hclose : ∃ g outer m, t = '\x7d' :: m ∧ groups = g :: outer
  · left
    obtain ⟨g, outer, m, rfl, rfl⟩ := hclose
    rw [readRules_close] at h
    exact ⟨g, outer, m, rfl, rfl, h⟩
  right
  -- an item comes next, since a text that ends inside a group is a defect
  have ht : ItemsAllowed true groups t := itemsAllowed_of_not_close hclose
  have hne : t ≠ [] := by
    rintro rfl
    cases groups with
    | nil => exact hend ⟨rfl, rfl⟩
    | cons g outer =>
        rw [readRules_eq] at h
        contradiction
  have hturn := h
  rw [readRules_of_allowed hne ht] at hturn
  cases hboth : itemWithComments t with
  | mismatch =>
      rw [hboth] at hturn
      contradiction
  | failure d n =>
      rw [hboth] at hturn
      contradiction
  | matched both n =>
      obtain ⟨i, found⟩ := both
      rcases exists_of_itemWithComments hboth with
        ⟨rule, m, -, hitem⟩ | ⟨kind, header, m, -, hitem⟩
      · rw [readRules_of_rule hitem ht] at h
        exact .inl ⟨rule, m, ht, hitem, h⟩
      · rw [readRules_of_header hitem ht] at h
        exact .inr ⟨kind, header, m, ht, hitem, h⟩

/-- A fact about the reading of a bare list is proved turn by turn, from the last
turn to the first. -/
@[elab_as_elim]
theorem readOn_induction {result : List Rule} {r : Text}
    {motive : ∀ groups rules t, readOn true groups rules t = .matched result r → Prop}
    (finish : ∀ rules t found (h : readOn true [] rules t = .matched result r),
      comments t = .matched found [] → result = (found.reverse ++ rules).reverse → r = [] →
        motive [] rules t h)
    (close : ∀ g outer rules t found m (h : readOn true (g :: outer) rules t = .matched result r)
      (hnext : readOn true outer (g.close (found.reverse ++ rules) :: g.before) m =
        .matched result r),
      comments t = .matched found ('\x7d' :: m) →
        motive outer (g.close (found.reverse ++ rules) :: g.before) m hnext →
          motive (g :: outer) rules t h)
    (rule : ∀ groups rules t found m rule n (h : readOn true groups rules t = .matched result r)
      (hnext : readOn true groups (rule :: (found.reverse ++ rules)) n = .matched result r),
      comments t = .matched found m → ItemsAllowed true groups m →
        item m = .matched (.rule rule) n →
          motive groups (rule :: (found.reverse ++ rules)) n hnext → motive groups rules t h)
    (header : ∀ groups rules t found m kind header n
      (h : readOn true groups rules t = .matched result r)
      (hnext : readOn true (⟨kind, header, found.reverse ++ rules⟩ :: groups) [] n =
        .matched result r),
      comments t = .matched found m → ItemsAllowed true groups m →
        item m = .matched (.groupHeader kind header) ('\x7b' :: n) →
          motive (⟨kind, header, found.reverse ++ rules⟩ :: groups) [] n hnext →
            motive groups rules t h)
    {groups : List OpenGroup} {rules : List Rule} {t : Text}
    (h : readOn true groups rules t = .matched result r) : motive groups rules t h := by
  obtain ⟨found, m, hfound, hread⟩ := bind_eq_matched.1 h
  have hm : m.length ≤ t.length := (suffix_of_matched walks_comments hfound).length_le
  have hlt : ∀ {i n}, item m = .matched i n → n.length < t.length := by
    intro i n hitem
    have := advances_item m
    rw [hitem] at this
    exact Nat.lt_of_lt_of_le this.2 hm
  rcases turn_of_readRules hread with
    ⟨rfl, rfl, hresult, hr⟩ | ⟨g, outer, n, rfl, rfl, hnext⟩ | ⟨rule', n, ht, hitem, hnext⟩ |
      ⟨kind, header', n, ht, hitem, hnext⟩
  · exact finish rules t found h hfound hresult hr
  · have hn : n.length < t.length := by
      simp only [List.length_cons] at hm
      omega
    exact close g outer rules t found n h hnext hfound
      (readOn_induction finish close rule header hnext)
  · have hn : n.length < t.length := hlt hitem
    exact rule groups rules t found m rule' n h hnext hfound ht hitem
      (readOn_induction finish close rule header hnext)
  · have hn : n.length < t.length := by
      have := hlt hitem
      simp only [List.length_cons] at this
      omega
    exact header groups rules t found m kind header' n h hnext hfound ht hitem
      (readOn_induction finish close rule header hnext)
termination_by t.length

end turns

end Grammar

end CssInliner
