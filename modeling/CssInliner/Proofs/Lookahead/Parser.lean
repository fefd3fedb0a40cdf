import CssInliner.Grammar.Parser
import CssInliner.Proofs.Lookahead.Lexis

/-!
Parsers that do not mind what is appended to their input. A text with a bound in
it is long enough for every decision the grammar takes at its start, so a match
that leaves such a text, and a refusal of such a text, stay what they are when
the text grows. A parser that only ever matches such texts, because it reads a
bound itself, is not touched by what follows at all.
-/

namespace CssInliner

/-- Somewhere in the text there is a brace or a semicolon. -/
def Text.Bounded (t : Text) : Prop := ∃ c ∈ t, isBound c = true

namespace Text.Bounded

theorem of_suffix {s t : Text} (h : s.Bounded) (hs : s <:+ t) : t.Bounded := by
  obtain ⟨c, hc, hbound⟩ := h
  exact ⟨c, hs.subset hc, hbound⟩

theorem ne_nil {t : Text} (h : t.Bounded) : t ≠ [] := by
  rintro rfl
  obtain ⟨c, hc, -⟩ := h
  contradiction

theorem cons_bound {c : Char} (hc : isBound c = true) (t : Text) : Bounded (c :: t) :=
  ⟨c, List.mem_cons_self, hc⟩

theorem of_append {s t : Text} (h : (s ++ t).Bounded) (hs : ∀ c ∈ s, isBound c = false) :
    t.Bounded := by
  obtain ⟨c, hc, hbound⟩ := h
  rcases List.mem_append.1 hc with hc | hc
  · rw [hs c hc] at hbound
    contradiction
  · exact ⟨c, hc, hbound⟩

end Text.Bounded

namespace Parser

variable {α β : Type} {p q : Parser α}

theorem bind_eq_matched {f : α → Parser β} {t r : Text} {b : β} :
    (p >>= f) t = .matched b r ↔ ∃ a m, p t = .matched a m ∧ f a m = .matched b r := by
  rw [bind_apply]
  cases hp : p t <;> simp [and_assoc]

theorem bind_eq_mismatch {f : α → Parser β} {t : Text} :
    (p >>= f) t = .mismatch ↔
      p t = .mismatch ∨ ∃ a m, p t = .matched a m ∧ f a m = .mismatch := by
  rw [bind_apply]
  cases hp : p t <;> simp [and_assoc]

theorem orElse_eq_matched {t r : Text} {a : α} :
    (p.orElse q) t = .matched a r ↔
      p t = .matched a r ∨ p t = .mismatch ∧ q t = .matched a r := by
  unfold Parser.orElse
  cases hp : p t <;> simp

theorem orElse_of_mismatch {t : Text} (h : p t = .mismatch) : (p.orElse q) t = q t := by
  rw [Parser.orElse, h]

theorem orElse_eq_mismatch {t : Text} :
    (p.orElse q) t = .mismatch ↔ p t = .mismatch ∧ q t = .mismatch := by
  unfold Parser.orElse
  cases hp : p t <;> simp

theorem require_eq_matched {d : Defect} {t r : Text} {a : α} :
    (p.require d) t = .matched a r ↔ p t = .matched a r := by
  rw [require, orElse_eq_matched]
  simp [fail]

theorem suffix_of_matched (hp : p.Walks) {t r : Text} {a : α} (h : p t = .matched a r) :
    r <:+ t := by
  have := hp t
  rwa [h] at this

/-- A match stays the same whatever is appended. -/
structure Steady (p : Parser α) : Prop where
  walks : p.Walks
  append : ∀ ⦃t a r⦄, p t = .matched a r → ∀ u, p (t ++ u) = .matched a (r ++ u)

/-- A match that leaves a bounded text stays the same. -/
structure SteadyInside (p : Parser α) : Prop where
  walks : p.Walks
  append : ∀ ⦃t a r⦄, p t = .matched a r → r.Bounded → ∀ u, p (t ++ u) = .matched a (r ++ u)

/-- A refusal of a bounded text stays a refusal. -/
def RefusesSteadily (p : Parser α) : Prop :=
  ∀ ⦃t⦄, p t = .mismatch → t.Bounded → ∀ u, p (t ++ u) = .mismatch

def SparesBounds (p : Parser α) : Prop :=
  ∀ ⦃t a r⦄, p t = .matched a r → t.Bounded → r.Bounded

/-- A match stays the same whatever is appended, since a bound is read by it. -/
structure Closes (p : Parser α) : Prop extends Steady p where
  bounded : ∀ ⦃t a r⦄, p t = .matched a r → t.Bounded

/-- Input is matched or found defective, never refused. -/
def Insists (p : Parser α) : Prop := ∀ t, p t ≠ .mismatch

theorem Steady.inside (hp : p.Steady) : p.SteadyInside :=
  ⟨hp.walks, fun _ _ _ h _ => hp.append h⟩

theorem Closes.inside (hp : p.Closes) : p.SteadyInside := hp.toSteady.inside

theorem steady_pure (a : α) : (pure a : Parser α).Steady := by
  refine ⟨walks_pure a, ?_⟩
  intro t b r h u
  obtain ⟨rfl, rfl⟩ := Outcome.matched.inj h
  rfl

section bind

variable {f : α → Parser β}

theorem Steady.bind (hp : p.Steady) (hf : ∀ a, (f a).Steady) : (p >>= f).Steady := by
  refine ⟨hp.walks.bind fun a => (hf a).walks, ?_⟩
  intro t b r h u
  obtain ⟨a, m, hpt, hft⟩ := bind_eq_matched.1 h
  exact bind_eq_matched.2 ⟨a, m ++ u, hp.append hpt u, (hf a).append hft u⟩

theorem SteadyInside.bind (hp : p.SteadyInside) (hf : ∀ a, (f a).SteadyInside) :
    (p >>= f).SteadyInside := by
  refine ⟨hp.walks.bind fun a => (hf a).walks, ?_⟩
  intro t b r h hr u
  obtain ⟨a, m, hpt, hft⟩ := bind_eq_matched.1 h
  have hm : m.Bounded := hr.of_suffix (suffix_of_matched (hf a).walks hft)
  exact bind_eq_matched.2 ⟨a, m ++ u, hp.append hpt hm u, (hf a).append hft hr u⟩

theorem SteadyInside.bind_closes (hp : p.SteadyInside) (hf : ∀ a, (f a).Closes) :
    (p >>= f).Closes := by
  refine ⟨⟨hp.walks.bind fun a => (hf a).walks, ?_⟩, ?_⟩
  · intro t b r h u
    obtain ⟨a, m, hpt, hft⟩ := bind_eq_matched.1 h
    exact bind_eq_matched.2
      ⟨a, m ++ u, hp.append hpt ((hf a).bounded hft) u, (hf a).append hft u⟩
  · intro t b r h
    obtain ⟨a, m, hpt, hft⟩ := bind_eq_matched.1 h
    exact ((hf a).bounded hft).of_suffix (suffix_of_matched hp.walks hpt)

theorem Closes.bind (hp : p.Closes) (hf : ∀ a, (f a).Steady) : (p >>= f).Closes := by
  refine ⟨hp.toSteady.bind hf, ?_⟩
  intro t b r h
  obtain ⟨a, m, hpt, hft⟩ := bind_eq_matched.1 h
  exact hp.bounded hpt

theorem RefusesSteadily.bind (hp : p.RefusesSteadily) (hin : p.SteadyInside)
    (hs : p.SparesBounds) (hf : ∀ a, (f a).RefusesSteadily) :
    (p >>= f).RefusesSteadily := by
  intro t h ht u
  rcases bind_eq_mismatch.1 h with hpt | ⟨a, m, hpt, hft⟩
  · exact bind_eq_mismatch.2 (.inl (hp hpt ht u))
  · have hm := hs hpt ht
    exact bind_eq_mismatch.2 (.inr ⟨a, m ++ u, hin.append hpt hm u, hf a hft hm u⟩)

theorem RefusesSteadily.bind_insists (hp : p.RefusesSteadily) (hf : ∀ a, (f a).Insists) :
    (p >>= f).RefusesSteadily := by
  intro t h ht u
  rcases bind_eq_mismatch.1 h with hpt | ⟨a, m, -, hft⟩
  · exact bind_eq_mismatch.2 (.inl (hp hpt ht u))
  · exact absurd hft (hf a m)

theorem Insists.bind (hp : p.Insists) (hf : ∀ a, (f a).Insists) : (p >>= f).Insists := by
  intro t h
  rcases bind_eq_mismatch.1 h with hpt | ⟨a, m, -, hft⟩
  · exact hp t hpt
  · exact hf a m hft

theorem SparesBounds.bind (hp : p.SparesBounds) (hf : ∀ a, (f a).SparesBounds) :
    (p >>= f).SparesBounds := by
  intro t b r h ht
  obtain ⟨a, m, hpt, hft⟩ := bind_eq_matched.1 h
  exact hf a hft (hp hpt ht)

end bind

theorem sparesBounds_pure (a : α) : (pure a : Parser α).SparesBounds := by
  intro t b r h ht
  obtain ⟨rfl, rfl⟩ := Outcome.matched.inj h
  exact ht

theorem Insists.refusesSteadily (h : p.Insists) : p.RefusesSteadily :=
  fun t ht => absurd ht (h t)

theorem insists_pure (a : α) : (pure a : Parser α).Insists := fun t => by simp

theorem steady_mismatch : (mismatch : Parser α).Steady :=
  ⟨advances_mismatch.walks, fun _ _ _ h => by simp [mismatch] at h⟩

theorem closes_mismatch : (mismatch : Parser α).Closes :=
  ⟨steady_mismatch, fun _ _ _ h => by simp [mismatch] at h⟩

theorem refusesSteadily_mismatch : (mismatch : Parser α).RefusesSteadily :=
  fun _ _ _ _ => rfl

theorem SteadyInside.require (hp : p.SteadyInside) (d : Defect) :
    (p.require d).SteadyInside := by
  refine ⟨hp.walks.require d, ?_⟩
  intro t a r h hr u
  exact require_eq_matched.2 (hp.append (require_eq_matched.1 h) hr u)

theorem Closes.require (hp : p.Closes) (d : Defect) : (p.require d).Closes := by
  refine ⟨⟨hp.walks.require d, ?_⟩, ?_⟩
  · intro t a r h u
    exact require_eq_matched.2 (hp.append (require_eq_matched.1 h) u)
  · intro t a r h
    exact hp.bounded (require_eq_matched.1 h)

theorem insists_require (p : Parser α) (d : Defect) : (p.require d).Insists := by
  intro t
  rw [Parser.require, Ne, orElse_eq_mismatch]
  simp [fail]

theorem SteadyInside.orElse (hp : p.SteadyInside) (hrefuse : p.RefusesSteadily)
    (hq : q.SteadyInside) : (p.orElse q).SteadyInside := by
  refine ⟨hp.walks.orElse hq.walks, ?_⟩
  intro t a r h hr u
  rcases orElse_eq_matched.1 h with hpt | ⟨hpt, hqt⟩
  · exact orElse_eq_matched.2 (.inl (hp.append hpt hr u))
  -- the first parser refused a bounded text, and so refuses the longer one as well
  · have ht : t.Bounded := hr.of_suffix (suffix_of_matched hq.walks hqt)
    exact orElse_eq_matched.2 (.inr ⟨hrefuse hpt ht u, hq.append hqt hr u⟩)

theorem RefusesSteadily.orElse (hp : p.RefusesSteadily) (hq : q.RefusesSteadily) :
    (p.orElse q).RefusesSteadily := by
  intro t h ht u
  obtain ⟨hpt, hqt⟩ := orElse_eq_mismatch.1 h
  exact orElse_eq_mismatch.2 ⟨hp hpt ht u, hq hqt ht u⟩

theorem SparesBounds.orElse (hp : p.SparesBounds) (hq : q.SparesBounds) :
    (p.orElse q).SparesBounds := by
  intro t a r h ht
  rcases orElse_eq_matched.1 h with hpt | ⟨-, hqt⟩
  · exact hp hpt ht
  · exact hq hqt ht

theorem optional_eq_matched {t r : Text} {o : Option α} :
    p.optional t = .matched o r ↔
      (∃ a, o = some a ∧ p t = .matched a r) ∨ o = none ∧ r = t ∧ p t = .mismatch := by
  unfold Parser.optional
  cases hp : p t with
  | matched a rest =>
      simp only [Outcome.matched.injEq, reduceCtorEq, and_false, or_false]
      constructor
      · rintro ⟨rfl, rfl⟩
        exact ⟨a, rfl, rfl, rfl⟩
      · rintro ⟨b, rfl, rfl, rfl⟩
        exact ⟨rfl, rfl⟩
  | mismatch => simp [eq_comm]
  | failure d rest => simp

theorem SteadyInside.optional (hp : p.SteadyInside) (hrefuse : p.RefusesSteadily) :
    p.optional.SteadyInside := by
  refine ⟨hp.walks.optional, ?_⟩
  intro t o r h hr u
  rcases optional_eq_matched.1 h with ⟨a, rfl, hpt⟩ | ⟨rfl, rfl, hpt⟩
  · exact optional_eq_matched.2 (.inl ⟨a, rfl, hp.append hpt hr u⟩)
  · exact optional_eq_matched.2 (.inr ⟨rfl, rfl, hrefuse hpt hr u⟩)

theorem SparesBounds.optional (hp : p.SparesBounds) : p.optional.SparesBounds := by
  intro t o r h ht
  rcases optional_eq_matched.1 h with ⟨a, -, hpt⟩ | ⟨-, rfl, -⟩
  · exact hp hpt ht
  · exact ht

theorem insists_optional (p : Parser α) : p.optional.Insists := by
  intro t
  unfold Parser.optional
  split <;> simp

theorem takeWhile_eq_matched {test : Char → Bool} {t a r : Text} :
    takeWhile test t = .matched a r ↔
      t = a ++ r ∧ (∀ c ∈ a, test c = true) ∧ ∀ c, r.head? = some c → test c = false := by
  unfold takeWhile
  constructor
  · intro h
    obtain ⟨rfl, rfl⟩ := Outcome.matched.inj h
    refine ⟨List.takeWhile_append_dropWhile.symm, List.all_eq_true.1 List.all_takeWhile, ?_⟩
    intro c hc
    have := List.head?_dropWhile_not test t
    rw [hc] at this
    simpa using this
  · rintro ⟨rfl, ha, hr⟩
    rw [List.takeWhile_append_of_pos ha, List.dropWhile_append_of_pos ha]
    cases r with
    | nil => simp
    | cons c r => simp [hr c rfl]

theorem takeWhile1_eq_matched {test : Char → Bool} {t a r : Text} :
    takeWhile1 test t = .matched a r ↔ a ≠ [] ∧ takeWhile test t = .matched a r := by
  unfold takeWhile1 takeWhile
  cases t with
  | nil =>
      simp only [List.takeWhile_nil, Outcome.matched.injEq, reduceCtorEq, false_iff]
      rintro ⟨ha, rfl, -⟩
      contradiction
  | cons c t =>
      by_cases hc : test c = true
      · simp only [hc, if_true, List.takeWhile_cons_of_pos, List.dropWhile_cons_of_pos,
          Outcome.matched.injEq]
        constructor
        · rintro ⟨rfl, rfl⟩
          exact ⟨by simp, rfl, rfl⟩
        · exact fun h => h.2
      · simp only [hc, if_false, Outcome.matched.injEq, reduceCtorEq, false_iff,
          Bool.false_eq_true]
        rintro ⟨ha, rfl, -⟩
        exact ha (by simp [hc])

theorem takeWhile1_eq_mismatch {test : Char → Bool} {t : Text} :
    takeWhile1 test t = .mismatch ↔ ∀ c, t.head? = some c → test c = false := by
  unfold takeWhile1
  cases t with
  | nil => simp
  | cons c t => by_cases hc : test c = true <;> simp [hc]

theorem head?_append_of_ne_nil {t : Text} (ht : t ≠ []) (u : Text) :
    (t ++ u).head? = t.head? := by
  cases t with
  | nil => contradiction
  | cons c t => rfl

theorem steadyInside_takeWhile (test : Char → Bool) : (takeWhile test).SteadyInside := by
  refine ⟨walks_takeWhile test, ?_⟩
  intro t a r h hr u
  obtain ⟨rfl, ha, hhead⟩ := takeWhile_eq_matched.1 h
  refine takeWhile_eq_matched.2 ⟨List.append_assoc .., ha, ?_⟩
  rwa [head?_append_of_ne_nil hr.ne_nil]

theorem sparesBounds_takeWhile {test : Char → Bool}
    (htest : ∀ c, isBound c = true → test c = false) : (takeWhile test).SparesBounds := by
  intro t a r h ht
  obtain ⟨rfl, ha, -⟩ := takeWhile_eq_matched.1 h
  refine ht.of_append fun c hc => ?_
  cases hbound : isBound c with
  | false => rfl
  | true => rw [← htest c hbound, ha c hc]

theorem insists_takeWhile (test : Char → Bool) : (takeWhile test).Insists :=
  fun t => by simp [takeWhile]

theorem steadyInside_takeWhile1 (test : Char → Bool) : (takeWhile1 test).SteadyInside := by
  refine ⟨(advances_takeWhile1 test).walks, ?_⟩
  intro t a r h hr u
  obtain ⟨ha, h⟩ := takeWhile1_eq_matched.1 h
  exact takeWhile1_eq_matched.2 ⟨ha, (steadyInside_takeWhile test).append h hr u⟩

theorem refusesSteadily_takeWhile1 (test : Char → Bool) :
    (takeWhile1 test).RefusesSteadily := by
  intro t h ht u
  rw [takeWhile1_eq_mismatch] at h ⊢
  rwa [head?_append_of_ne_nil ht.ne_nil]

theorem sparesBounds_takeWhile1 {test : Char → Bool}
    (htest : ∀ c, isBound c = true → test c = false) : (takeWhile1 test).SparesBounds := by
  intro t a r h ht
  exact sparesBounds_takeWhile htest (takeWhile1_eq_matched.1 h).2 ht

theorem literal_eq_matched {text t r : Text} {a : Unit} :
    literal text t = .matched a r ↔ t = text ++ r := by
  unfold literal
  rw [← Text.dropLead?_eq_some_iff]
  cases Text.dropLead? text t <;> simp

theorem steady_literal (text : Text) : (literal text).Steady := by
  refine ⟨fun t => ?_, ?_⟩
  · cases h : literal text t with
    | matched a r => exact ⟨text, (literal_eq_matched.1 h).symm⟩
    | mismatch => trivial
    | failure d r =>
        unfold literal at h
        split at h <;> contradiction
  · intro t a r h u
    rw [literal_eq_matched] at h ⊢
    rw [h, List.append_assoc]

theorem closes_char {c : Char} (hc : isBound c = true) : (char c).Closes := by
  refine ⟨steady_literal [c], ?_⟩
  intro t a r h
  obtain rfl := literal_eq_matched.1 h
  exact .cons_bound hc r

theorem literal_eq_mismatch {text t : Text} :
    literal text t = .mismatch ↔ ¬ text <+: t := by
  unfold literal
  rw [← Text.dropLead?_eq_none_iff]
  cases Text.dropLead? text t <;> simp

theorem sparesBounds_literal {text : Text} (htext : text.any isBound = false) :
    (literal text).SparesBounds := by
  intro t a r h ht
  obtain rfl := literal_eq_matched.1 h
  exact ht.of_append fun c hc => Bool.eq_false_iff.2 (List.any_eq_false.1 htext c hc)

theorem sparesBounds_char {c : Char} (hc : isBound c = false) : (char c).SparesBounds :=
  sparesBounds_literal (by simpa using hc)

/-- A bounded text is not the beginning of a longer text without bounds. -/
theorem refusesSteadily_literal {text : Text} (htext : text.any isBound = false) :
    (literal text).RefusesSteadily := by
  intro t h ht u
  rw [literal_eq_mismatch] at h ⊢
  intro hlead
  rcases List.prefix_or_prefix_of_prefix hlead (List.prefix_append t u) with hin | hout
  · exact h hin
  · obtain ⟨c, hc, hbound⟩ := ht
    exact absurd hbound (List.any_eq_false.1 htext c (hout.subset hc))

theorem refusesSteadily_char {c : Char} (hc : isBound c = false) : (char c).RefusesSteadily :=
  refusesSteadily_literal (by simpa using hc)

theorem many_eq_matched {hp : p.Advances} {t r : Text} {as : List α} :
    many p hp t = .matched as r ↔
      (as = [] ∧ r = t ∧ p t = .mismatch) ∨
        ∃ a bs m, as = a :: bs ∧ p t = .matched a m ∧ many p hp m = .matched bs r := by
  rw [many_eq]
  cases hpt : p t with
  | mismatch => simp [eq_comm]
  | failure d rest => simp
  | matched a m =>
      simp only [Outcome.matched.injEq, reduceCtorEq, and_false, false_or]
      cases hm : many p hp m with
      | matched bs rest =>
          simp only [Outcome.matched.injEq]
          constructor
          · rintro ⟨rfl, rfl⟩
            exact ⟨a, bs, m, rfl, ⟨rfl, rfl⟩, hm⟩
          · rintro ⟨b, cs, n, rfl, ⟨rfl, rfl⟩, hn⟩
            rw [hm] at hn
            obtain ⟨rfl, rfl⟩ := Outcome.matched.inj hn
            exact ⟨rfl, rfl⟩
      | mismatch =>
          simp only [reduceCtorEq, false_iff]
          rintro ⟨b, cs, n, -, ⟨rfl, rfl⟩, hn⟩
          rw [hm] at hn
          contradiction
      | failure d rest =>
          simp only [reduceCtorEq, false_iff]
          rintro ⟨b, cs, n, -, ⟨rfl, rfl⟩, hn⟩
          rw [hm] at hn
          contradiction

/-- A fact about a repetition that ends is proved match by match, from the last to the first. -/
@[elab_as_elim]
theorem many_induction {hp : p.Advances}
    {motive : ∀ t as r, many p hp t = .matched as r → Prop}
    (nil : ∀ t (h : many p hp t = .matched [] t), p t = .mismatch → motive t [] t h)
    (cons : ∀ t a m as r (h : many p hp t = .matched (a :: as) r)
      (hnext : many p hp m = .matched as r),
      p t = .matched a m → motive m as r hnext → motive t (a :: as) r h)
    {t : Text} {as : List α} {r : Text} (h : many p hp t = .matched as r) : motive t as r h := by
  induction as generalizing t with
  | nil =>
      rcases many_eq_matched.1 h with ⟨-, rfl, hpt⟩ | ⟨a, bs, m, has, -⟩
      · exact nil r h hpt
      · contradiction
  | cons a as ih =>
      rcases many_eq_matched.1 h with ⟨has, -⟩ | ⟨b, bs, m, has, hpt, hm⟩
      · contradiction
      · obtain ⟨rfl, rfl⟩ := List.cons.inj has
        exact cons t a m as r h hm hpt (ih hm)

theorem mismatch_of_many {hp : p.Advances} {t r : Text} {as : List α}
    (h : many p hp t = .matched as r) : p r = .mismatch := by
  induction h using many_induction with
  | nil t h hpt => exact hpt
  | cons t a m as r h hnext hpt ih => exact ih

theorem insists_many (hp : p.Advances) : Insists (many p hp) := by
  intro t
  fun_induction many p hp t <;> simp_all

theorem SteadyInside.many (hin : p.SteadyInside) (hrefuse : p.RefusesSteadily)
    (hp : p.Advances) : SteadyInside (Parser.many p hp) := by
  refine ⟨walks_many hp, ?_⟩
  intro t as r h hr u
  induction h using many_induction with
  | nil t h hpt => exact many_eq_matched.2 (.inl ⟨rfl, rfl, hrefuse hpt hr u⟩)
  | cons t a m as r h hnext hpt ih =>
      have hmb : m.Bounded := hr.of_suffix (suffix_of_matched (walks_many hp) hnext)
      exact many_eq_matched.2 (.inr ⟨a, as, m ++ u, rfl, hin.append hpt hmb u, ih hr⟩)

theorem SparesBounds.many (hs : p.SparesBounds) (hp : p.Advances) :
    SparesBounds (Parser.many p hp) := by
  intro t as r h ht
  induction h using many_induction with
  | nil => exact ht
  | cons t a m as r h hnext hpt ih => exact ih (hs hpt ht)

section Yields

variable {P : α → Prop}

def Yields (p : Parser α) (P : α → Prop) : Prop := ∀ ⦃t a r⦄, p t = .matched a r → P a

theorem yields_pure {a : α} (h : P a) : (pure a : Parser α).Yields P := by
  intro t b r hread
  obtain ⟨rfl, -⟩ := Outcome.matched.inj hread
  exact h

theorem Yields.bind {Q : β → Prop} {f : α → Parser β} (hp : p.Yields P)
    (hf : ∀ a, P a → (f a).Yields Q) : (p >>= f).Yields Q := by
  intro t b r h
  obtain ⟨a, m, hpt, hft⟩ := bind_eq_matched.1 h
  exact hf a (hp hpt) hft

theorem Yields.orElse (hp : p.Yields P) (hq : q.Yields P) : (p.orElse q).Yields P := by
  intro t a r h
  rcases orElse_eq_matched.1 h with hpt | ⟨-, hqt⟩
  · exact hp hpt
  · exact hq hqt

theorem Yields.require (hp : p.Yields P) (d : Defect) : (p.require d).Yields P :=
  fun _ _ _ h => hp (require_eq_matched.1 h)

theorem yields_mismatch : (mismatch : Parser α).Yields P :=
  fun _ _ _ h => by simp [mismatch] at h

/-- What follows decides what is read. -/
theorem yields_of_next {Q : β → Prop} {f : α → Parser β} (hf : ∀ a, (f a).Yields Q) :
    (p >>= f).Yields Q := by
  intro t b r h
  obtain ⟨a, m, -, hft⟩ := bind_eq_matched.1 h
  exact hf a hft

theorem Yields.many (hp : p.Advances) (h : p.Yields P) :
    Yields (Parser.many p hp) fun as => ∀ a ∈ as, P a := by
  intro t as r hread
  induction hread using many_induction with
  | nil => simp
  | cons t a m as r hread hnext hpt ih => exact List.forall_mem_cons.2 ⟨h hpt, ih⟩

end Yields

end Parser

end CssInliner
