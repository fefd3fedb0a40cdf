import CssInliner.Proofs.Lexis.Pieces

/-!
Spans of calls. The openers of a call are names with a parenthesis behind them, so that
what closes a span does not hang on which names are looked for: the parentheses alone
decide. Main statements: a span is the first of a text whatever follows it
(`Span.leads_of_first?`, `Span.Leads.first?`), and a text whose parentheses all pair up
has a span as soon as it has an opener (`Closed.exists_first?`).
-/

namespace CssInliner

open Lexis (bare)

def Text.isNameChar (c : Char) : Bool := isLowercase c || c = '-'

namespace Text

variable {c : Char}

theorem ne_escape_of_isNameChar (h : isNameChar c = true) : c ≠ '\\' := by
  rintro rfl
  contradiction

theorem isQuote_of_isNameChar (h : isNameChar c = true) : isQuote c = false := by
  cases hquote : isQuote c with
  | false => rfl
  | true =>
      simp only [isQuote, Bool.or_eq_true, decide_eq_true_eq] at hquote
      rcases hquote with rfl | rfl <;> contradiction

theorem ne_open_of_isNameChar (h : isNameChar c = true) : c ≠ '(' := by
  rintro rfl
  contradiction

theorem ne_close_of_isNameChar (h : isNameChar c = true) : c ≠ ')' := by
  rintro rfl
  contradiction

end Text

/-- A parenthesis behind a name is the first in a text, whatever follows it. -/
theorem exists_of_name_append_eq {name rest x w : Text}
    (hname : ∀ c ∈ name, Text.isNameChar c = true)
    (h : name ++ '(' :: rest = x ++ '(' :: w) (u : Text) :
    ∃ v, name ++ '(' :: v = x ++ '(' :: u := by
  rcases List.append_eq_append_iff.1 h with ⟨a, rfl, ha⟩ | ⟨a, rfl, ha⟩
  · cases a with
    | nil => exact ⟨u, by rw [List.append_nil]⟩
    | cons c a =>
        obtain ⟨rfl, -⟩ := List.cons.inj ha
        exact ⟨a ++ '(' :: u, by rw [List.append_assoc, List.cons_append]⟩
  · cases a with
    | nil => exact ⟨u, by rw [List.append_nil]⟩
    | cons c a =>
        obtain ⟨rfl, -⟩ := List.cons.inj ha
        have hopen := hname '(' (List.mem_append_right x List.mem_cons_self)
        exact absurd rfl (Text.ne_open_of_isNameChar hopen)

/-- What the marker matches is a name with a parenthesis behind it, and what follows that
is of no account. -/
structure Marker.OpensCalls (M : Marker) : Prop where
  name : ∀ {t : Text} {n : Nat}, M.matchAt t = some n →
    ∃ name rest, name ++ '(' :: rest = t ∧ name.length + 1 = n ∧
      ∀ c ∈ name, Text.isNameChar c = true
  anywhere : ∀ {name rest : Text}, M.matchAt (name ++ '(' :: rest) = some (name.length + 1) →
    ∀ u, M.matchAt (name ++ '(' :: u) = some (name.length + 1)

namespace Marker.OpensCalls

variable {M : Marker} (hM : M.OpensCalls)

include hM

/-- What follows a parenthesis does not make a marker match before it. -/
theorem matchAt_of_paren {x w : Text} {n : Nat} (h : M.matchAt (x ++ '(' :: w) = some n)
    (u : Text) : M.matchAt (x ++ '(' :: u) = some n := by
  obtain ⟨name, rest, htext, rfl, hname⟩ := hM.name h
  obtain ⟨v, hv⟩ := exists_of_name_append_eq hname htext u
  rw [← hv]
  rw [← htext] at h
  exact hM.anywhere h v

theorem matchAt_eq_none_of_paren {x w : Text} (h : M.matchAt (x ++ '(' :: w) = none)
    (u : Text) : M.matchAt (x ++ '(' :: u) = none := by
  cases hu : M.matchAt (x ++ '(' :: u) with
  | none => rfl
  | some n =>
      rw [hM.matchAt_of_paren hu w] at h
      contradiction

theorem matchAt_append {t : Text} {n : Nat} (h : M.matchAt t = some n) (u : Text) :
    M.matchAt (t ++ u) = some n := by
  obtain ⟨name, rest, rfl, rfl, hname⟩ := hM.name h
  rw [List.append_assoc, List.cons_append]
  exact hM.anywhere h _

theorem step_of_matchAt {t : Text} {n : Nat} (h : M.matchAt t = some n) :
    ∃ name rest, name ++ '(' :: rest = t ∧ (∀ c ∈ name, Text.isNameChar c = true) ∧
      M.matchAt (name ++ ['(']) = some (name ++ ['(']).length ∧
        M.lexis.step t = some (.opener (name ++ ['(']), rest) := by
  obtain ⟨name, rest, rfl, rfl, hname⟩ := hM.name h
  refine ⟨name, rest, rfl, hname, ?_, ?_⟩
  · rw [List.length_append]
    exact hM.anywhere h []
  · cases name with
    | nil =>
        rw [List.nil_append] at h ⊢
        rw [M.step_lexis, if_neg (by decide), if_neg (by decide), h]
        rfl
    | cons c name =>
        have hc := hname c List.mem_cons_self
        rw [List.cons_append] at h ⊢
        have hlength : (name ++ ['(']).length = name.length + 1 := List.length_append
        have htake : (name ++ '(' :: rest).take (name.length + 1) = name ++ ['('] := by
          rw [List.append_cons, List.take_left' hlength]
        have hdrop : (name ++ '(' :: rest).drop (name.length + 1) = rest := by
          rw [List.append_cons, List.drop_left' hlength]
        rw [M.step_lexis, if_neg (Text.ne_escape_of_isNameChar hc),
          if_neg (by simp [Text.isQuote_of_isNameChar hc]), h]
        simp only [List.length_cons, Nat.add_sub_cancel, htake, hdrop, List.cons_append]

theorem exists_char_of_matchAt {t rest : Text} {p : Piece} {n : Nat} (h : M.matchAt t = some n)
    (hstep : bare.step t = some (p, rest)) : ∃ c, p = .char c := by
  obtain ⟨name, rest', rfl, -, hname⟩ := hM.name h
  cases name with
  | nil =>
      rw [List.nil_append, Lexis.step_bare_char (by decide) rfl] at hstep
      exact ⟨'(', (Prod.mk.inj (Option.some.inj hstep)).1.symm⟩
  | cons c name =>
      have hc := hname c List.mem_cons_self
      rw [List.cons_append, Lexis.step_bare_char (Text.ne_escape_of_isNameChar hc)
        (Text.isQuote_of_isNameChar hc)] at hstep
      exact ⟨c, (Prod.mk.inj (Option.some.inj hstep)).1.symm⟩

theorem exists_name_of_step {t o rest : Text} (h : M.lexis.step t = some (.opener o, rest)) :
    ∃ name, name ++ ['('] = o ∧ (∀ c ∈ name, Text.isNameChar c = true) ∧
      name ++ '(' :: rest = t ∧ M.matchAt o = some o.length := by
  obtain ⟨n, hmatch, -⟩ := Lexis.matchAt_of_step h
  obtain ⟨name, rest', rfl, hname, hself, hstep⟩ := hM.step_of_matchAt hmatch
  rw [h] at hstep
  obtain ⟨ho, rfl⟩ := Prod.mk.inj (Option.some.inj hstep)
  obtain rfl := Piece.opener.inj ho
  exact ⟨name, rfl, hname, rfl, hself⟩

theorem step_opener {o : Text} (h : M.matchAt o = some o.length) (u : Text) :
    M.lexis.step (o ++ u) = some (.opener o, u) := by
  have hwhole := hM.matchAt_append h u
  obtain ⟨name, rest, htext, -, hself, hstep⟩ := hM.step_of_matchAt hwhole
  have hsplit : (name ++ ['(']) ++ rest = o ++ u := (List.append_cons ..).symm.trans htext
  have hlength := hM.matchAt_append hself rest
  rw [hsplit, hwhole] at hlength
  obtain ⟨rfl, rfl⟩ := List.append_inj hsplit (Option.some.inj hlength).symm
  exact hstep

/-- A piece with text behind it is the first piece before other text too, unless it is a
single character and begins an opener there. -/
theorem step_behind {p : Piece} {z z' : Text} (hz : z ≠ [])
    (h : M.lexis.step (p.text ++ z) = some (p, z))
    (hopener : ∀ c, p = .char c → M.matchAt (c :: z') = none) :
    M.lexis.step (p.text ++ z') = some (p, z') := by
  by_cases hp : ∃ o, p = .opener o
  · obtain ⟨o, rfl⟩ := hp
    obtain ⟨name, -, -, -, hself⟩ := hM.exists_name_of_step h
    exact hM.step_opener hself z'
  · have hp : ∀ o, p ≠ .opener o := fun o ho => hp ⟨o, ho⟩
    have hbare := Lexis.step_bare_behind hz (Lexis.step_bare_of_step h hp) z'
    cases hmatch : M.matchAt (p.text ++ z') with
    | none => rw [Lexis.step_of_matchAt_eq_none hmatch, hbare]
    | some n =>
        -- an opener begins with a character that is a piece by itself
        obtain ⟨c, rfl⟩ := hM.exists_char_of_matchAt hmatch hbare
        exact absurd ((hopener c rfl).symm.trans hmatch) (Option.some_ne_none n).symm

end Marker.OpensCalls

namespace Marker

variable {M : Marker}

theorem find?_eq_none_iff {t : Text} : M.find? t = none ↔ M.occursIn t = false := by
  rw [find?]
  cases M.occursIn t <;> simp

section locate

theorem locate_nil (M : Marker) : M.locate [] = ([], []) := by
  rw [locate, Lexis.cut_eq]
  rfl

theorem locate_of_opener {t o rest : Text} (h : M.lexis.step t = some (.opener o, rest)) :
    M.locate t = ([], t) := by
  rw [locate, Lexis.cut_eq, h]
  rfl

theorem locate_of_step {t rest : Text} {p : Piece} (h : M.lexis.step t = some (p, rest))
    (hp : ∀ o, p ≠ .opener o) :
    M.locate t = (p.text ++ (M.locate rest).1, (M.locate rest).2) := by
  rw [locate, Lexis.cut_eq, h]
  cases p with
  | opener o => exact absurd rfl (hp o)
  | _ => rfl

theorem exists_plain_pieces (M : Marker) (t : Text) :
    ∃ ps, M.lexis.pieces t = ps ++ M.lexis.pieces (M.locate t).2 ∧
      ps.flatMap Piece.text = (M.locate t).1 ∧ (∀ p ∈ ps, ∀ o, p ≠ .opener o) ∧
        ((M.locate t).2 = [] ∨
          ∃ o rest, M.lexis.step (M.locate t).2 = some (.opener o, rest)) := by
  cases hstep : M.lexis.step t with
  | none =>
      rw [Lexis.step_eq_none_iff.1 hstep, locate_nil]
      exact ⟨[], rfl, rfl, by simp, .inl rfl⟩
  | some found =>
      obtain ⟨p, rest⟩ := found
      by_cases hp : ∃ o, p = .opener o
      · obtain ⟨o, rfl⟩ := hp
        rw [locate_of_opener hstep]
        exact ⟨[], rfl, rfl, by simp, .inr ⟨o, rest, hstep⟩⟩
      · have hp : ∀ o, p ≠ .opener o := fun o ho => hp ⟨o, ho⟩
        have hlt := Lexis.length_lt_of_step hstep
        obtain ⟨ps, hpieces, htext, hplain, hfound⟩ := exists_plain_pieces M rest
        rw [locate_of_step hstep hp]
        refine ⟨p :: ps, ?_, ?_, ?_, hfound⟩
        · rw [Lexis.pieces_of_step hstep, hpieces, List.cons_append]
        · rw [List.flatMap_cons, htext]
        · intro q hq
          rcases List.mem_cons.1 hq with rfl | hq
          · exact hp
          · exact hplain q hq
termination_by t.length

theorem complete_locate {t : Text} (h : (M.locate t).2 ≠ []) :
    Complete (M.locate t).1 ∧ ∃ o rest, M.lexis.step (M.locate t).2 = some (.opener o, rest) := by
  cases hstep : M.lexis.step t with
  | none =>
      rw [Lexis.step_eq_none_iff.1 hstep, locate_nil] at h
      exact absurd rfl h
  | some found =>
      obtain ⟨p, rest⟩ := found
      by_cases hp : ∃ o, p = .opener o
      · obtain ⟨o, rfl⟩ := hp
        rw [locate_of_opener hstep]
        exact ⟨.nil, o, rest, hstep⟩
      have hp : ∀ o, p ≠ .opener o := fun o ho => hp ⟨o, ho⟩
      have hlt := Lexis.length_lt_of_step hstep
      rw [locate_of_step hstep hp] at h ⊢
      have hrest : (M.locate rest).1 ++ (M.locate rest).2 = rest := Lexis.cut_append ..
      have hne : rest ≠ [] := by
        rw [← hrest]
        exact List.append_ne_nil_of_right_ne_nil _ h
      have hbare := Lexis.step_bare_of_step hstep hp
      have hwhole := Lexis.step_bare_behind hne (by rwa [Lexis.append_of_step hstep])
      obtain ⟨hcomplete, hopener⟩ := complete_locate h
      exact ⟨(Complete.of_step hwhole).append hcomplete, hopener⟩
termination_by t.length

/-- The marker matches nowhere in the text, before `z`, where a search would look. -/
def Spares (M : Marker) (t z : Text) : Prop :=
  ∀ a b, a ++ b = t → b ≠ [] → Complete a → M.matchAt (b ++ z) = none

variable (hM : M.OpensCalls)

include hM

/-- A search finds the first place where the marker matches. -/
theorem OpensCalls.spares_locate (t : Text) : M.Spares (M.locate t).1 (M.locate t).2 := by
  intro a b hab hb ha
  cases hstep : M.lexis.step t with
  | none =>
      rw [Lexis.step_eq_none_iff.1 hstep, locate_nil] at hab
      exact absurd (List.append_eq_nil_iff.1 hab).2 hb
  | some found =>
      obtain ⟨p, rest⟩ := found
      by_cases hp : ∃ o, p = .opener o
      · obtain ⟨o, rfl⟩ := hp
        rw [locate_of_opener hstep] at hab
        exact absurd (List.append_eq_nil_iff.1 hab).2 hb
      have hp : ∀ o, p ≠ .opener o := fun o ho => hp ⟨o, ho⟩
      have hlt := Lexis.length_lt_of_step hstep
      have hrest : (M.locate rest).1 ++ (M.locate rest).2 = rest := Lexis.cut_append ..
      have happend := Lexis.append_of_step hstep
      rw [locate_of_step hstep hp] at hab ⊢
      dsimp only at hab ⊢
      cases hread : bare.step a with
      | none =>
          -- nothing comes before, so the whole text would begin with an opener
          obtain rfl := Lexis.step_eq_none_iff.1 hread
          obtain rfl : b = p.text ++ (M.locate rest).1 := hab
          rw [List.append_assoc, hrest, happend]
          cases hmatch : M.matchAt t with
          | none => rfl
          | some n =>
              obtain ⟨name, w, -, -, -, hopener⟩ := hM.step_of_matchAt hmatch
              rw [hstep] at hopener
              exact absurd (Prod.mk.inj (Option.some.inj hopener)).1 (hp _)
      | some read =>
          obtain ⟨q, a'⟩ := read
          obtain ⟨hq, ha'⟩ := ha.step hread
          have hsplit : q.text ++ (a' ++ (b ++ (M.locate rest).2)) = t := by
            rw [← List.append_assoc, Lexis.append_of_step hread, ← List.append_assoc, hab,
              List.append_assoc, hrest, happend]
          have hsame := hq (a' ++ (b ++ (M.locate rest).2))
          rw [hsplit, Lexis.step_bare_of_step hstep hp] at hsame
          obtain ⟨rfl, hsame⟩ := Prod.mk.inj (Option.some.inj hsame)
          refine OpensCalls.spares_locate rest a' b ?_ hb ha'
          rw [← Lexis.append_of_step hread, List.append_assoc] at hab
          exact List.append_cancel_left hab
termination_by t.length

/-- Behind a complete text in which the marker does not match, a search finds where it
does. -/
theorem OpensCalls.locate_append {pre z : Text} {n : Nat} (hpre : Complete pre)
    (hspares : M.Spares pre z) (hz : M.matchAt z = some n) : M.locate (pre ++ z) = (pre, z) := by
  cases hstep : bare.step pre with
  | none =>
      obtain rfl := Lexis.step_eq_none_iff.1 hstep
      obtain ⟨_, _, -, -, -, hopener⟩ := hM.step_of_matchAt hz
      exact locate_of_opener hopener
  | some found =>
      obtain ⟨p, rest⟩ := found
      obtain ⟨hp, hrest⟩ := hpre.step hstep
      have happend := Lexis.append_of_step hstep
      have hlt := Lexis.length_lt_of_step hstep
      have hne : pre ≠ [] := by
        rintro rfl
        contradiction
      have hplain : ∀ o, p ≠ .opener o := by
        rintro o rfl
        have := Lexis.matchAt_of_step hstep
        simp [Marker.lexis] at this
      have hread : M.lexis.step (pre ++ z) = some (p, rest ++ z) := by
        rw [Lexis.step_of_matchAt_eq_none (hspares [] pre rfl hne .nil), ← happend,
          List.append_assoc, hp]
      have hrest' : M.Spares rest z := by
        rintro a b rfl hb ha
        exact hspares (p.text ++ a) b (by rw [List.append_assoc, happend]) hb
          ((Complete.of_step hp).append ha)
      rw [locate_of_step hread hplain, OpensCalls.locate_append hrest hrest' hz, happend]
termination_by pre.length

theorem OpensCalls.occursIn_eq_false_iff {t : Text} :
    M.occursIn t = false ↔ M.Spares t [] := by
  have happend : (M.locate t).1 ++ (M.locate t).2 = t := Lexis.cut_append ..
  have hspares := hM.spares_locate t
  rw [occursIn, Bool.not_eq_false', List.isEmpty_iff]
  constructor
  · intro hnil
    rw [hnil] at happend hspares
    rwa [← happend, List.append_nil]
  · intro hnone
    cases hfound : (M.locate t).2 with
    | nil => rfl
    | cons c z =>
        have hne : (M.locate t).2 ≠ [] := by simp [hfound]
        obtain ⟨hcomplete, o, rest, hopener⟩ := complete_locate hne
        obtain ⟨n, hmatch, -⟩ := Lexis.matchAt_of_step hopener
        have hspared := hnone _ _ happend hne hcomplete
        rw [List.append_nil] at hspared
        exact absurd (hspared.symm.trans hmatch) (Option.some_ne_none n).symm

/-- Behind an opener, nothing makes the marker match before it. -/
theorem OpensCalls.spares_opener {t o u : Text} (ho : M.matchAt o = some o.length)
    (h : M.Spares t (o ++ u)) (v : Text) : M.Spares t (o ++ v) := by
  obtain ⟨name, rest, rfl, hlength, -⟩ := hM.name ho
  obtain rfl : rest = [] := by simpa using hlength
  have htext : ∀ b w : Text, b ++ (name ++ ['('] ++ w) = (b ++ name) ++ '(' :: w := by simp
  intro a b hab hb ha
  have hnone := h a b hab hb ha
  rw [htext] at hnone ⊢
  exact hM.matchAt_eq_none_of_paren hnone v

theorem Spares.of_append {t z u : Text} (h : M.Spares t (z ++ u)) : M.Spares t z := by
  intro a b hab hb ha
  cases hmatch : M.matchAt (b ++ z) with
  | none => rfl
  | some n =>
      have := h a b hab hb ha
      rw [← List.append_assoc, hM.matchAt_append hmatch u] at this
      contradiction

omit hM in
theorem Spares.left {s t z : Text} (h : M.Spares (s ++ t) z) : M.Spares s (t ++ z) := by
  intro a b hab hb ha
  have hnone := h a (b ++ t) (by rw [← List.append_assoc, hab]) (by simp [hb]) ha
  rwa [List.append_assoc] at hnone

/-- A text holds no opener that it does not hold with more text behind it. -/
theorem OpensCalls.occursIn_of_append {s t : Text} (h : M.occursIn (s ++ t) = false) :
    M.occursIn s = false := by
  rw [hM.occursIn_eq_false_iff] at h ⊢
  exact Spares.of_append hM h.left

theorem OpensCalls.occursIn_of_not_mem {t : Text} (h : '(' ∉ t) : M.occursIn t = false := by
  rw [hM.occursIn_eq_false_iff]
  rintro a b rfl - -
  rw [List.append_nil]
  cases hmatch : M.matchAt b with
  | none => rfl
  | some n =>
      obtain ⟨name, rest, rfl, -, -⟩ := hM.name hmatch
      simp at h

end locate

end Marker

section Closed

theorem nest_char {c : Char} (hopen : c ≠ '(') (hclose : c ≠ ')') (depth : Nat) :
    Span.nest ')' depth (.char c) = some depth := by
  simp [Span.nest, Span.pairedOpen, hopen.symm, hclose]

theorem nest_nameChar {c : Char} (hc : Text.isNameChar c = true) (depth : Nat) :
    Span.nest ')' depth (.char c) = some depth :=
  nest_char (Text.ne_open_of_isNameChar hc) (Text.ne_close_of_isNameChar hc) depth

theorem foldlM_nest_chars {s : Text} (hs : ∀ c ∈ s, c ≠ '(' ∧ c ≠ ')') (depth : Nat) :
    (s.map Piece.char).foldlM (Span.nest ')') depth = some depth := by
  induction s with
  | nil => rfl
  | cons c s ih =>
      obtain ⟨hopen, hclose⟩ := hs c List.mem_cons_self
      rw [List.map_cons, List.foldlM_cons, nest_char hopen hclose]
      exact ih fun d hd => hs d (List.mem_cons_of_mem c hd)

theorem foldlM_nest_opener {name : Text} (hname : ∀ c ∈ name, Text.isNameChar c = true)
    (depth : Nat) :
    ((name ++ ['(']).map Piece.char).foldlM (Span.nest ')') depth = some (depth + 1) := by
  have hchars : ∀ c ∈ name, c ≠ '(' ∧ c ≠ ')' := fun c hc =>
    ⟨Text.ne_open_of_isNameChar (hname c hc), Text.ne_close_of_isNameChar (hname c hc)⟩
  rw [List.map_append, List.foldlM_append, foldlM_nest_chars hchars]
  rfl

/-- Characters that begin neither an escape nor a string are pieces by themselves. -/
theorem pieces_bare_chars {s : Text} (hs : ∀ c ∈ s, c ≠ '\\' ∧ Text.isQuote c = false)
    (t : Text) : bare.pieces (s ++ t) = s.map Piece.char ++ bare.pieces t := by
  induction s with
  | nil => rfl
  | cons c s ih =>
      obtain ⟨hesc, hquote⟩ := hs c List.mem_cons_self
      rw [List.cons_append, Lexis.pieces_of_step (Lexis.step_bare_char hesc hquote _),
        ih fun d hd => hs d (List.mem_cons_of_mem c hd)]
      rfl

theorem pieces_bare_self {s : Text} (hs : ∀ c ∈ s, c ≠ '\\' ∧ Text.isQuote c = false) :
    bare.pieces s = s.map Piece.char := by
  have hself := pieces_bare_chars hs []
  rwa [List.append_nil, Lexis.pieces_nil, List.append_nil] at hself

theorem complete_chars {s : Text} (hs : ∀ c ∈ s, c ≠ '\\' ∧ Text.isQuote c = false) :
    Complete s := by
  intro u
  rw [pieces_bare_chars hs, pieces_bare_self hs]

theorem pieces_bare_name {name : Text} (hname : ∀ c ∈ name, Text.isNameChar c = true)
    (t : Text) : bare.pieces (name ++ t) = name.map Piece.char ++ bare.pieces t :=
  pieces_bare_chars (fun c hc =>
    ⟨Text.ne_escape_of_isNameChar (hname c hc), Text.isQuote_of_isNameChar (hname c hc)⟩) t

theorem complete_name {name : Text} (hname : ∀ c ∈ name, Text.isNameChar c = true) :
    Complete name :=
  complete_chars fun c hc =>
    ⟨Text.ne_escape_of_isNameChar (hname c hc), Text.isQuote_of_isNameChar (hname c hc)⟩

theorem pieces_bare_open (t : Text) : bare.pieces ('(' :: t) = .char '(' :: bare.pieces t :=
  Lexis.pieces_of_step (Lexis.step_bare_char (by decide) rfl t)

theorem pieces_bare_opener {name : Text} (hname : ∀ c ∈ name, Text.isNameChar c = true)
    (t : Text) :
    bare.pieces (name ++ '(' :: t) = (name ++ ['(']).map Piece.char ++ bare.pieces t := by
  rw [pieces_bare_name hname, pieces_bare_open, List.map_append, List.append_assoc]
  rfl

theorem eq_char_of_nest {close : Char} {p : Piece} {depth : Nat}
    (h : Span.nest close depth p = none) : p = .char close ∧ depth = 0 := by
  cases p with
  | char c =>
      simp only [Span.nest] at h
      repeat' split at h
      all_goals simp_all
  | _ => simp [Span.nest] at h

theorem nest_add {p : Piece} {depth depth' : Nat} (h : Span.nest ')' depth p = some depth')
    (more : Nat) : Span.nest ')' (depth + more) p = some (depth' + more) := by
  cases p with
  | char c =>
      by_cases hopen : c = '('
      · subst hopen
        obtain rfl : depth + 1 = depth' := Option.some.inj h
        exact congrArg some (Nat.add_right_comm depth more 1)
      by_cases hclose : c = ')'
      · subst hclose
        cases depth with
        | zero => contradiction
        | succ depth =>
            obtain rfl : depth = depth' := Option.some.inj h
            rw [Nat.add_right_comm]
            rfl
      · simp_all [Span.nest, Span.pairedOpen, Ne.symm hopen]
  | opener o =>
      obtain rfl : depth + 1 = depth' := Option.some.inj h
      exact congrArg some (Nat.add_right_comm depth more 1)
  | _ =>
      obtain rfl : depth = depth' := Option.some.inj h
      rfl

/-- Levels that are open all along make no difference to those above them. -/
theorem foldlM_nest_add {ps : List Piece} {depth depth' : Nat}
    (h : ps.foldlM (Span.nest ')') depth = some depth') (more : Nat) :
    ps.foldlM (Span.nest ')') (depth + more) = some (depth' + more) := by
  induction ps generalizing depth with
  | nil =>
      obtain rfl : depth = depth' := Option.some.inj h
      rfl
  | cons p ps ih =>
      rw [List.foldlM_cons] at h ⊢
      cases hnest : Span.nest ')' depth p with
      | none =>
          rw [hnest] at h
          contradiction
      | some depth₁ =>
          rw [hnest] at h
          rw [nest_add hnest more]
          exact ih h

/-- The text is complete, and in it every parenthesis has its counterpart. -/
structure Closed (t : Text) : Prop where
  complete : Complete t
  paired : (bare.pieces t).foldlM (Span.nest ')') 0 = some 0

theorem closed_chars {s : Text} (hs : ∀ c ∈ s, c ≠ '\\' ∧ Text.isQuote c = false)
    (hparens : ∀ c ∈ s, c ≠ '(' ∧ c ≠ ')') : Closed s := by
  refine ⟨complete_chars hs, ?_⟩
  rw [pieces_bare_self hs]
  exact foldlM_nest_chars hparens 0

namespace Closed

variable {s t : Text}

theorem append (hs : Closed s) (ht : Closed t) : Closed (s ++ t) := by
  refine ⟨hs.complete.append ht.complete, ?_⟩
  rw [hs.complete, List.foldlM_append, hs.paired]
  exact ht.paired

/-- A name and parentheses put around a closed text make another. -/
theorem call {name : Text} (hname : ∀ c ∈ name, Text.isNameChar c = true) (ht : Closed t) :
    Closed (name ++ '(' :: (t ++ [')'])) := by
  have hopen : Complete ['('] := complete_chars (List.forall_mem_singleton.2 (by decide))
  have hclose : ∀ c ∈ [')'], c ≠ '\\' ∧ Text.isQuote c = false :=
    List.forall_mem_singleton.2 (by decide)
  refine ⟨(complete_name hname).append (hopen.append (ht.complete.append (complete_chars hclose))),
    ?_⟩
  -- the text stands one level further down, up to the parenthesis behind it
  have hinside : (bare.pieces t).foldlM (Span.nest ')') 1 = some 1 := foldlM_nest_add ht.paired 1
  rw [pieces_bare_opener hname, ht.complete, pieces_bare_self hclose, List.foldlM_append,
    foldlM_nest_opener hname]
  change (bare.pieces t ++ [Piece.char ')']).foldlM (Span.nest ')') 1 = some 0
  rw [List.foldlM_append, hinside]
  rfl

end Closed

/-- A search follows the nesting as the parentheses alone have it. -/
theorem Marker.OpensCalls.cut_nest {M : Marker} (hM : M.OpensCalls) (depth : Nat) (t : Text) :
    M.lexis.cut (Span.nest ')') depth t = bare.cut (Span.nest ')') depth t := by
  cases hstep : M.lexis.step t with
  | none =>
      rw [Lexis.step_eq_none_iff.1 hstep, Lexis.cut_eq, Lexis.cut_eq]
      rfl
  | some found =>
      obtain ⟨p, rest⟩ := found
      have hlt := Lexis.length_lt_of_step hstep
      by_cases hp : ∃ o, p = .opener o
      · obtain ⟨o, rfl⟩ := hp
        obtain ⟨name, rfl, hname, rfl, -⟩ := hM.exists_name_of_step hstep
        have htext : ((name ++ ['(']).map Piece.char).flatMap Piece.text = name ++ ['('] := by
          rw [List.flatMap_map]
          exact List.flatMap_singleton' _
        rw [Lexis.cut_of_pieces (pieces_bare_opener hname rest) (foldlM_nest_opener hname depth),
          htext, ← cut_nest hM (depth + 1) rest, Lexis.cut_eq, hstep]
        rfl
      · have hp : ∀ o, p ≠ .opener o := fun o ho => hp ⟨o, ho⟩
        rw [Lexis.cut_eq, hstep, Lexis.cut_eq, Lexis.step_bare_of_step hstep hp]
        dsimp only
        cases Span.nest ')' depth p with
        | none => rfl
        | some depth' =>
            dsimp only
            rw [cut_nest hM depth' rest]
termination_by t.length

/-- Behind a closed text, the next closing parenthesis is the one that ends the call. -/
theorem Closed.cut {body : Text} (h : Closed body) (post : Text) :
    bare.cut (Span.nest ')') 0 (body ++ ')' :: post) = (body, ')' :: post) := by
  have hstop : bare.cut (Span.nest ')') 0 (')' :: post) = ([], ')' :: post) := by
    rw [Lexis.cut_eq, Lexis.step_bare_char (by decide) rfl]
    rfl
  rw [Lexis.cut_of_pieces (h.complete (')' :: post)) h.paired, hstop, List.append_nil,
    Lexis.flatMap_text_pieces]

/-- What lies between an opener and the parenthesis that ends the call is closed. -/
theorem closed_of_cut {t body post : Text} {c : Char}
    (h : bare.cut (Span.nest ')') 0 t = (body, c :: post)) : c = ')' ∧ Closed body := by
  obtain ⟨ps, depth, hpieces, hbody, hfold, hstop⟩ := bare.exists_pieces_of_cut (Span.nest ')') 0 t
  have happend := bare.cut_append (Span.nest ')') 0 t
  rw [h] at hpieces hbody hstop happend
  dsimp only at hpieces hbody hstop happend
  obtain ⟨p, rest, hstep, hnest⟩ := hstop.resolve_left (by simp)
  obtain ⟨rfl, rfl⟩ := eq_char_of_nest hnest
  obtain ⟨rfl, rfl⟩ := List.cons.inj (Lexis.append_of_step hstep)
  have hcomplete : Complete body := by
    rw [← hbody]
    exact .of_pieces (by simp) hpieces
  have hps : bare.pieces body = ps := by
    rw [← happend, hcomplete] at hpieces
    exact List.append_cancel_right hpieces
  exact ⟨rfl, hcomplete, hps ▸ hfold⟩

end Closed

def Piece.quoted? : Piece → Option Text
  | quoted t => some t
  | _ => none

/-- The strings that a search skips. -/
def Marker.quotedIn (M : Marker) (t : Text) : List Text :=
  (M.lexis.pieces t).filterMap Piece.quoted?

/-- Which strings are skipped does not hang on what is looked for. -/
theorem Marker.OpensCalls.quotedIn_eq {M : Marker} (hM : M.OpensCalls) (t : Text) :
    M.quotedIn t = (bare.pieces t).filterMap Piece.quoted? := by
  cases hstep : M.lexis.step t with
  | none => rw [Lexis.step_eq_none_iff.1 hstep, quotedIn, Lexis.pieces_nil, Lexis.pieces_nil]
  | some found =>
      obtain ⟨p, rest⟩ := found
      have hlt := Lexis.length_lt_of_step hstep
      have hrest := quotedIn_eq hM rest
      rw [quotedIn] at hrest ⊢
      rw [Lexis.pieces_of_step hstep, List.filterMap_cons, hrest]
      by_cases hp : ∃ o, p = .opener o
      · obtain ⟨o, rfl⟩ := hp
        obtain ⟨name, -, hname, rfl, -⟩ := hM.exists_name_of_step hstep
        have hnone : ((name ++ ['(']).map Piece.char).filterMap Piece.quoted? = [] := by
          rw [List.filterMap_map]
          exact List.filterMap_eq_nil_iff.2 fun _ _ => rfl
        rw [pieces_bare_opener hname, List.filterMap_append, hnone]
        rfl
      · have hp : ∀ o, p ≠ .opener o := fun o ho => hp ⟨o, ho⟩
        rw [Lexis.pieces_of_step (Lexis.step_bare_of_step hstep hp), List.filterMap_cons]
termination_by t.length

namespace Span

theorem first?_of_opener {marker : Marker} (close : Char) {t opener inner : Text}
    (h : marker.lexis.step (marker.locate t).2 = some (.opener opener, inner)) :
    first? marker close t =
      (marker.lexis.cut (nest close) 0 inner).2.head?.map fun c =>
        ⟨(marker.locate t).1, opener, (marker.lexis.cut (nest close) 0 inner).1, c,
          (marker.lexis.cut (nest close) 0 inner).2.tail⟩ := by
  simp only [first?, h]
  obtain ⟨body, after⟩ := marker.lexis.cut (nest close) 0 inner
  cases after <;> rfl

/-- What makes a span the first of a text, whatever follows it. -/
structure Leads (M : Marker) (s : Span) : Prop where
  complete : Complete s.pre
  spares : M.Spares s.pre s.opener
  opens : M.matchAt s.opener = some s.opener.length
  closes : s.close = ')'
  closed : Closed s.body

variable {M : Marker} (hM : M.OpensCalls)

include hM

theorem leads_of_first? {t : Text} {s : Span} (h : first? M ')' t = some s) : s.Leads M := by
  have hspares := hM.spares_locate t
  cases hfound : (M.locate t).2 with
  | nil => simp [first?, hfound] at h
  | cons c z =>
      have hne : (M.locate t).2 ≠ [] := by simp [hfound]
      obtain ⟨hcomplete, o, inner, hstep⟩ := Marker.complete_locate hne
      obtain ⟨name, rfl, -, htext, hself⟩ := hM.exists_name_of_step hstep
      rw [first?_of_opener ')' hstep, hM.cut_nest] at h
      cases hcut : bare.cut (nest ')') 0 inner with
      | mk body after =>
          rw [hcut] at h
          cases after with
          | nil => contradiction
          | cons c post =>
              obtain ⟨rfl, hclosed⟩ := closed_of_cut hcut
              obtain rfl := Option.some.inj h
              refine ⟨hcomplete, ?_, hself, rfl, hclosed⟩
              rw [← htext, List.append_cons] at hspares
              simpa using hM.spares_opener hself hspares []

theorem Leads.first? {s : Span} (h : s.Leads M) (post : Text) :
    first? M ')' (s.pre ++ s.opener ++ s.body ++ s.close :: post) =
      some { s with post := post } := by
  obtain ⟨pre, opener, body, close, _⟩ := s
  obtain ⟨hcomplete, hspares, hopens, rfl, hclosed⟩ := h
  dsimp only at hcomplete hspares hopens hclosed ⊢
  have hmatch := hM.matchAt_append hopens (body ++ ')' :: post)
  have hbefore : M.Spares pre (opener ++ []) := by rwa [List.append_nil]
  have hlocate := hM.locate_append hcomplete (hM.spares_opener hopens hbefore _) hmatch
  have hstep : M.lexis.step (M.locate (pre ++ (opener ++ (body ++ ')' :: post)))).2 =
      some (.opener opener, body ++ ')' :: post) := by
    rw [hlocate]
    exact hM.step_opener hopens _
  rw [List.append_assoc, List.append_assoc, first?_of_opener ')' hstep, hM.cut_nest, hclosed.cut,
    hlocate]
  rfl

end Span

theorem Closed.exists_first? {M : Marker} (hM : M.OpensCalls) {t : Text} (ht : Closed t)
    (h : M.occursIn t = true) : ∃ s, Span.first? M ')' t = some s := by
  have hne : (M.locate t).2 ≠ [] := by simpa [Marker.occursIn] using h
  obtain ⟨hcomplete, o, inner, hstep⟩ := Marker.complete_locate hne
  obtain ⟨name, -, hname, hfound, -⟩ := hM.exists_name_of_step hstep
  rw [Span.first?_of_opener ')' hstep, hM.cut_nest]
  obtain ⟨ps, depth, hpieces, -, hfold, -⟩ := bare.exists_pieces_of_cut (Span.nest ')') 0 inner
  cases hafter : (bare.cut (Span.nest ')') 0 inner).2 with
  | cons c post => exact ⟨_, rfl⟩
  | nil =>
      -- the level that the opener makes would be left at the end
      have hpaired := ht.paired
      have hsplit : (M.locate t).1 ++ (M.locate t).2 = t := Lexis.cut_append ..
      rw [hafter, Lexis.pieces_nil, List.append_nil] at hpieces
      rw [← hsplit, hcomplete, ← hfound, pieces_bare_opener hname, hpieces, List.foldlM_append]
        at hpaired
      obtain ⟨before, -, hpaired⟩ := Option.bind_eq_some_iff.1 hpaired
      rw [List.foldlM_append, foldlM_nest_opener hname] at hpaired
      have hmore := foldlM_nest_add hfold (before + 1)
      rw [Nat.zero_add] at hmore
      have hzero : depth + (before + 1) = 0 := Option.some.inj (hmore.symm.trans hpaired)
      omega

theorem Closed.isSome_find?_iff {M : Marker} (hM : M.OpensCalls) {t : Text} (ht : Closed t) :
    (M.find? t).isSome ↔ (Span.first? M ')' t).isSome := by
  cases hoccurs : M.occursIn t with
  | false =>
      have hnil : (M.locate t).2 = [] := by simpa [Marker.occursIn] using hoccurs
      simp [Marker.find?_eq_none_iff.2 hoccurs, Span.first?, hnil]
  | true =>
      obtain ⟨s, hs⟩ := ht.exists_first? hM hoccurs
      simp [Marker.find?, hoccurs, hs]

namespace Span

section all

theorem flatMap_all (marker : Marker) (close : Char) (t : Text) :
    ((all marker close t).1.flatMap fun s => s.pre ++ s.whole) ++ (all marker close t).2 = t := by
  rw [all_eq]
  cases h : first? marker close t with
  | none => rfl
  | some s =>
      have happend := append_of_first? h
      have hpost := length_post_lt h
      have hrest := flatMap_all marker close s.post
      simp only [List.flatMap_cons, List.append_assoc, hrest]
      simpa [whole] using happend
termination_by t.length

theorem first?_of_mem_all {marker : Marker} {close : Char} {t : Text} {s : Span}
    (h : s ∈ (all marker close t).1) : ∃ u, first? marker close u = some s := by
  rw [all_eq] at h
  cases hfirst : first? marker close t with
  | none =>
      rw [hfirst] at h
      contradiction
  | some s' =>
      rw [hfirst] at h
      have := length_post_lt hfirst
      rcases List.mem_cons.1 h with rfl | h
      · exact ⟨t, hfirst⟩
      · exact first?_of_mem_all h
termination_by t.length

theorem all_tail (marker : Marker) (close : Char) (t : Text) :
    all marker close (all marker close t).2 = ([], (all marker close t).2) := by
  rw [all_eq marker close t]
  cases hfirst : first? marker close t with
  | none =>
      dsimp only
      rw [all_eq, hfirst]
  | some s =>
      have := length_post_lt hfirst
      exact all_tail marker close s.post
termination_by t.length

end all

end Span

end CssInliner
