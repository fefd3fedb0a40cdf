import CssInliner.Proofs.Text.Classes
import CssInliner.Proofs.Variables.Context
import CssInliner.Proofs.Variables.Scan
import CssInliner.Proofs.Variables.Substitution

/-!
Chains of references, and how far they are followed. In a chain every text is a single
call, and the next text is the value of its variable or its fallback. Either way the next
text is expanded one level further down, and a warning at the end of the chain comes up
through all of it alone. So what comes of a chain hangs on the number of its calls only:
up to the limit its end is reached, and beyond that the first call too many is refused.
-/

namespace CssInliner

open Declaration (customLead variableCall)

namespace Text

def isDelimiter (c : Char) : Bool :=
  isQuote c || c = '\\' || c = '(' || c = ')' || c = ','

/-- A text without blanks around it that is nothing but text in a value. -/
structure Atomic (t : Text) : Prop where
  ne_nil : t ≠ []
  trimmed : t.trim = t
  plain : ∀ c ∈ t, isDelimiter c = false

/-- The name of a custom property, of letters and digits behind its dashes. -/
def IsVariableName (name : Text) : Prop :=
  ∃ word, name = customLead ++ word ∧ ∀ c ∈ word, isAlphanumeric c = true

theorem isDelimiter_eq_false_iff {c : Char} : isDelimiter c = false ↔
    isQuote c = false ∧ c ≠ '\\' ∧ c ≠ '(' ∧ c ≠ ')' ∧ c ≠ ',' := by
  simp [isDelimiter, and_assoc]

theorem isDelimiter_of_isIdentifierChar {c : Char} (hc : isIdentifierChar c = true) :
    isDelimiter c = false := by
  cases hdelimiter : isDelimiter c with
  | false => rfl
  | true =>
      simp only [isDelimiter, isQuote, Bool.or_eq_true, decide_eq_true_eq] at hdelimiter
      rcases hdelimiter with ((((rfl | rfl) | rfl) | rfl) | rfl) | rfl
      all_goals revert hc; decide +kernel

theorem IsVariableName.isIdentifierChar {name : Text} (h : IsVariableName name) :
    ∀ c ∈ name, isIdentifierChar c = true := by
  obtain ⟨word, rfl, hword⟩ := h
  intro c hc
  rcases List.mem_append.1 hc with hc | hc
  · exact List.all_eq_true.1 (by decide +kernel : customLead.all Text.isIdentifierChar) c hc
  · simp [Text.isIdentifierChar, hword c hc]

theorem IsVariableName.atomic {name : Text} (h : IsVariableName name) : name.Atomic := by
  have hchars := h.isIdentifierChar
  obtain ⟨word, rfl, -⟩ := h
  exact
    { ne_nil := List.append_ne_nil_of_left_ne_nil (by decide) word
      trimmed := trim_eq_self fun c hc => isBlank_of_isIdentifierChar (hchars c hc)
      plain := fun c hc => isDelimiter_of_isIdentifierChar (hchars c hc) }

namespace Atomic

variable {t : Text} (h : t.Atomic)

include h

theorem closed : Closed t := by
  have hchars := fun c hc => isDelimiter_eq_false_iff.1 (h.plain c hc)
  apply closed_chars
  · exact fun c hc => ⟨(hchars c hc).2.1, (hchars c hc).1⟩
  · exact fun c hc => ⟨(hchars c hc).2.2.1, (hchars c hc).2.2.2.1⟩

theorem occursIn : variableMarker.occursIn t = false :=
  opensCalls_variableMarker.occursIn_of_not_mem fun hmem =>
    (isDelimiter_eq_false_iff.1 (h.plain _ hmem)).2.2.1 rfl

theorem comma_not_mem : ',' ∉ t := fun hmem =>
  (isDelimiter_eq_false_iff.1 (h.plain _ hmem)).2.2.2.2 rfl

theorem isBlankOnly : t.isBlankOnly = false := by
  rcases trim_eq_nil_or_cons t with hnil | ⟨c, s, hc, hcons⟩
  · exact absurd (h.trimmed.symm.trans hnil) h.ne_nil
  · rw [← h.trimmed, hcons, Text.isBlankOnly, List.all_cons, hc]
    rfl

end Atomic

theorem splitFirst?_char {c : Char} {before : Text} (h : c ∉ before) (behind : Text) :
    splitFirst? [c] (before ++ c :: behind) = some (before, behind) := by
  induction before with
  | nil => simp [splitFirst?, dropLead?]
  | cons d before ih =>
      rw [List.mem_cons, not_or] at h
      simp [splitFirst?, dropLead?, h.1, ih h.2]

end Text

namespace Expansion

def reference (arguments : Text) : Text := variableCall ++ arguments ++ [')']

theorem trim_reference (arguments : Text) : (reference arguments).trim = reference arguments := by
  have htext : reference arguments = 'v' :: ("ar(".toList ++ arguments ++ [')']) := rfl
  rw [htext, Text.trim_cons (by decide), Text.trimEnd_concat _ (by decide)]

variable {vars : VariableMap} {active : List Text} {levels : Nat} {arguments name t : Text}

theorem closed_reference (h : Closed arguments) : Closed (reference arguments) := by
  have hname : ∀ c ∈ "var".toList, Text.isNameChar c = true := List.all_eq_true.1 rfl
  have hcall := h.call hname
  rwa [List.append_cons, ← List.append_assoc] at hcall

theorem occursIn_nil : variableMarker.occursIn [] = false :=
  opensCalls_variableMarker.occursIn_of_not_mem List.not_mem_nil

theorem all_reference (h : Closed arguments) :
    Span.all variableMarker ')' (reference arguments) =
      ([⟨[], variableCall, arguments, ')', []⟩], []) := by
  have hleads : Span.Leads variableMarker ⟨[], variableCall, arguments, ')', []⟩ :=
    { complete := .nil
      spares := fun a b hab hb _ => absurd (List.append_eq_nil_iff.1 hab).2 hb
      opens := rfl
      closes := rfl
      closed := h }
  have hfirst : Span.first? variableMarker ')' (variableCall ++ arguments ++ [')']) = some _ :=
    hleads.first? opensCalls_variableMarker []
  rw [Span.all_eq, reference, hfirst]
  simp only [all_eq_of_not_occursIn occursIn_nil]

theorem expand_reference (h : Closed arguments) :
    expand vars levels active (reference arguments) =
      consSpan (respond vars levels active) ⟨[], variableCall, arguments, ')', []⟩
        ⟨⟨[], 0, 0⟩, []⟩ := by
  rw [expand_eq_assemble, assemble_eq, all_reference h, ofTail_eq occursIn_nil]
  rfl

def withFallback (name t : Text) : Text := name ++ ", ".toList ++ t

theorem closed_withFallback (hname : name.Atomic) (h : Closed t) :
    Closed (withFallback name t) := by
  have hcomma : Closed ", ".toList := closed_chars (by simp [Text.isQuote]) (by simp)
  exact (hname.closed.append hcomma).append h

theorem isBlankOnly_withFallback (h : name.Atomic) (t : Text) :
    (withFallback name t).isBlankOnly = false := by
  have hname := h.isBlankOnly
  rw [Text.isBlankOnly] at hname ⊢
  rw [withFallback, List.append_assoc, List.all_append, hname]
  rfl

theorem splitArguments_name (h : name.Atomic) : splitArguments name = (name, none) := by
  have hnone : Text.splitFirst? [','] name = none := by
    rw [Text.splitFirst?_eq_none_iff]
    exact fun hcomma => h.comma_not_mem (hcomma.subset List.mem_cons_self)
  rw [splitArguments, hnone, h.trimmed]

theorem splitArguments_fallback (h : name.Atomic) (hne : t ≠ []) (htrim : t.trim = t) :
    splitArguments (withFallback name t) = (name, some t) := by
  have hsplit := Text.splitFirst?_char h.comma_not_mem (' ' :: t)
  have htext : withFallback name t = name ++ ',' :: ' ' :: t := by simp [withFallback]
  have hbehind : Text.trim (' ' :: t) = t := (Text.trim_cons_of_isBlank rfl t).trans htrim
  rw [splitArguments, htext, hsplit]
  simp [h.trimmed, hbehind, Text.nonempty?, hne]

end Expansion

open Expansion

/-- A chain of references from a text to `x`, and the names in it from the outermost on.
Each text calls a variable that has the next text as its value, or one that is not there,
with the next text as the fallback. -/
inductive Chain (vars : VariableMap) (x : Text) : List Text → Text → Prop
  | done (hx : x.Atomic) : Chain vars x [] x
  | value {name t : Text} {names : List Text} (hname : name.IsVariableName)
      (hvalue : vars[name]? = some t) (h : Chain vars x names t) :
      Chain vars x (name :: names) (reference name)
  | fallback {name t : Text} {names : List Text} (hname : name.IsVariableName)
      (hvars : name ∉ vars) (h : Chain vars x names t) :
      Chain vars x (name :: names) (reference (withFallback name t))

namespace Chain

variable {vars : VariableMap} {x t : Text} {names active : List Text} {levels : Nat}

theorem ne_nil (h : Chain vars x names t) : t ≠ [] := by
  cases h with
  | done hx => exact hx.ne_nil
  | value => simp [reference]
  | fallback => simp [reference]

theorem trimmed (h : Chain vars x names t) : t.trim = t := by
  cases h with
  | done hx => exact hx.trimmed
  | value => exact trim_reference _
  | fallback => exact trim_reference _

theorem closed (h : Chain vars x names t) : Closed t := by
  induction h with
  | done hx => exact hx.closed
  | value hname => exact closed_reference hname.atomic.closed
  | fallback hname _ _ ih => exact closed_reference (closed_withFallback hname.atomic ih)

/-- What comes of a chain where `levels` more levels are allowed: its end, or the text itself
if there are more names than levels. -/
def outcome (x : Text) (names : List Text) (levels : Nat) (t : Text) : Noted Expansion :=
  match names[levels]? with
  | none => ⟨⟨x, names.length, 0⟩, []⟩
  | some name => ⟨⟨t, 0, 1⟩, [.depthExceeded name maxDepth]⟩

theorem expand_of_respond {arguments name : Text} (hclosed : Closed arguments)
    (h : respond vars (levels + 1) active arguments =
      ⟨(outcome x names levels t).value.unlessFailed, (outcome x names levels t).warnings⟩) :
    expand vars (levels + 1) active (reference arguments) =
      outcome x (name :: names) (levels + 1) (reference arguments) := by
  rw [expand_reference hclosed, consSpan, h]
  simp only [outcome, List.getElem?_cons_succ]
  cases names[levels]? with
  | none => simp [Expansion.unlessFailed, Expansion.failed, Nat.add_comm]
  | some name => simp [Expansion.unlessFailed, Expansion.failed, Span.whole, reference]

theorem expand_zero {name arguments : Text} (hclosed : Closed arguments)
    (hblank : arguments.isBlankOnly = false) (hname : (splitArguments arguments).1 = name) :
    expand vars 0 active (reference arguments) =
      outcome x (name :: names) 0 (reference arguments) := by
  rw [expand_reference hclosed, consSpan, respond, refuse, hblank, hname]
  simp [outcome, Span.whole, reference]

theorem answer_value {name : Text} {expand : List Text → Text → Noted Expansion}
    (hname : name.Atomic) (hvalue : vars[name]? = some t) (hactive : name ∉ active) :
    answer vars active expand name =
      ⟨(expand (name :: active) t).value.unlessFailed, (expand (name :: active) t).warnings⟩ := by
  have hsplit := splitArguments_name hname
  have hheld : ofVariable vars active expand name =
      ⟨(expand (name :: active) t).value.unlessFailed, (expand (name :: active) t).warnings⟩ := by
    rw [ofVariable, hvalue]
    simp only [hactive, if_false]
  have hvars : name ∈ vars := (Std.TreeMap.getElem?_eq_some_iff.1 hvalue).1
  cases hcome : (expand (name :: active) t).value.unlessFailed with
  | some e =>
      rw [answer_of_some hname.isBlankOnly (by rw [hsplit, hheld, hcome]), hsplit, hheld, hcome]
  | none =>
      rw [answer_of_none hname.isBlankOnly (by rw [hsplit, hheld, hcome]), hsplit, hheld]
      simp [ofFallback, hvars]

theorem answer_fallback {name : Text} {expand : List Text → Text → Noted Expansion}
    (hname : name.Atomic) (hvars : name ∉ vars) (hne : t ≠ []) (htrim : t.trim = t) :
    answer vars active expand (withFallback name t) =
      ⟨(expand active t).value.unlessFailed, (expand active t).warnings⟩ := by
  have hblank := isBlankOnly_withFallback hname t
  have hsplit := splitArguments_fallback hname hne htrim
  have hvalue : vars[name]? = none := Std.TreeMap.getElem?_eq_none hvars
  have hheld : ofVariable vars active expand name = ⟨none, []⟩ := by
    rw [ofVariable, hvalue]
  rw [answer_of_none hblank (by rw [hsplit, hheld]), hsplit, hheld]
  rfl

/-- Induction on the chain. Either link hands what comes of the next text on as it is; the
names that are being expanded never hold one that is still to come. -/
theorem expand_eq (h : Chain vars x names t) (hnodup : names.Nodup)
    (hactive : ∀ name ∈ names, name ∉ active) :
    expand vars levels active t = outcome x names levels t := by
  induction h generalizing active levels with
  | done hx =>
      rw [expand_eq_assemble, assemble_eq, all_eq_of_not_occursIn hx.occursIn]
      exact ofTail_eq hx.occursIn
  | @value name t names hname hvalue _ ih =>
      have hclosed := hname.atomic.closed
      obtain ⟨hnew, hnodup⟩ := List.nodup_cons.1 hnodup
      cases levels with
      | zero =>
          exact expand_zero hclosed hname.atomic.isBlankOnly
            (by rw [splitArguments_name hname.atomic])
      | succ levels =>
          apply expand_of_respond hclosed
          rw [respond, answer_value hname.atomic hvalue (hactive name List.mem_cons_self)]
          have hnext : ∀ n ∈ names, n ∉ name :: active := by
            intro n hn hmem
            rcases List.mem_cons.1 hmem with rfl | hmem
            · exact hnew hn
            · exact hactive n (List.mem_cons_of_mem name hn) hmem
          rw [ih hnodup hnext]
  | @fallback name t names hname hvars h ih =>
      have hclosed := closed_withFallback hname.atomic h.closed
      obtain ⟨-, hnodup⟩ := List.nodup_cons.1 hnodup
      cases levels with
      | zero =>
          exact expand_zero hclosed (isBlankOnly_withFallback hname.atomic t)
            (by rw [splitArguments_fallback hname.atomic h.ne_nil h.trimmed])
      | succ levels =>
          apply expand_of_respond hclosed
          rw [respond, answer_fallback hname.atomic hvars h.ne_nil h.trimmed,
            ih hnodup fun n hn => hactive n (List.mem_cons_of_mem name hn)]

/-- Fallbacks one inside another, with a chain innermost, are a chain. -/
theorem of_fallbacks (h : Chain vars x names t) {outer : List Text}
    (houter : ∀ name ∈ outer, name.IsVariableName ∧ name ∉ vars) :
    Chain vars x (outer ++ names)
      (outer.foldr (fun name t => reference (withFallback name t)) t) := by
  induction outer with
  | nil => exact h
  | cons name outer ih =>
      obtain ⟨hname, hvars⟩ := houter name List.mem_cons_self
      exact .fallback hname hvars (ih fun n hn => houter n (List.mem_cons_of_mem name hn))

end Chain

/-- A chain of up to 32 references is followed to its end without a warning. Of a longer one
nothing is resolved, and the one warning is that the 33rd reference is too deep. -/
theorem resolveValue_chain {vars : VariableMap} {x t : Text} {names : List Text}
    (h : Chain vars x names t) (hnodup : names.Nodup) :
    (names.length ≤ 32 → resolveValue vars t = ⟨.resolved x, []⟩) ∧
      ∀ hlength : 32 < names.length,
        resolveValue vars t = ⟨.unresolved, [.depthExceeded names[32] 32]⟩ := by
  have hexpand : expand vars maxDepth [] t = Chain.outcome x names maxDepth t :=
    h.expand_eq hnodup fun _ _ => List.not_mem_nil
  constructor
  · intro hlength
    have hnone : names[maxDepth]? = none := List.getElem?_eq_none hlength
    rw [resolveValue, hexpand, Chain.outcome, hnone]
    rfl
  · intro hlength
    have hsome : names[maxDepth]? = some names[32] := List.getElem?_eq_getElem hlength
    rw [resolveValue, hexpand, Chain.outcome, hsome]
    rfl

/-- Two variables with fallbacks one inside another. The one chain has 32 references and the
other has 33. -/
theorem resolveValue_chain_sample :
    let names := fun letters : String => letters.toList.map fun c => customLead ++ [c]
    let nested := fun letters : String =>
      (names letters).foldr (fun name t => reference (withFallback name t)) "red".toList
    let vars := VariableMap.insertAll ∅
      [("--1".toList, nested "abcdefghijklmnopqrstuvwxyzABCDE"),
        ("--2".toList, nested "abcdefghijklmnopqrstuvwxyzABCDEF")]
    resolveValue vars "var(--1)".toList = ⟨.resolved "red".toList, []⟩ ∧
      resolveValue vars "var(--2)".toList = ⟨.unresolved, [.depthExceeded "--F".toList 32]⟩ := by
  intro names nested vars
  have hred : Text.Atomic "red".toList :=
    { ne_nil := by decide
      trimmed := by decide
      plain := by simp [Text.isDelimiter, Text.isQuote] }
  have hname : ∀ c, Text.isAlphanumeric c = true →
      Text.IsVariableName (customLead ++ [c]) := by
    intro c hc
    exact ⟨[c], rfl, fun d hd => List.mem_singleton.1 hd ▸ hc⟩
  have hchain : ∀ letters : String,
      letters.toList.all (fun c => Text.isAlphanumeric c && decide (customLead ++ [c] ∉ vars)) →
        Chain vars "red".toList (names letters) (nested letters) := by
    intro letters hletters
    have houter : ∀ name ∈ names letters, Text.IsVariableName name ∧ name ∉ vars := by
      intro name hmem
      obtain ⟨c, hc, rfl⟩ := List.mem_map.1 hmem
      have hletter := List.all_eq_true.1 hletters c hc
      rw [Bool.and_eq_true, decide_eq_true_eq] at hletter
      exact ⟨hname c hletter.1, hletter.2⟩
    have hnames := (Chain.done hred).of_fallbacks houter
    rwa [List.append_nil] at hnames
  constructor
  · have h := hchain "abcdefghijklmnopqrstuvwxyzABCDE" (by decide +kernel)
    have hvalue : vars["--1".toList]? = some (nested "abcdefghijklmnopqrstuvwxyzABCDE") := by
      decide +kernel
    exact (resolveValue_chain (.value (hname '1' (by decide +kernel)) hvalue h)
      (by decide +kernel)).1 (by decide)
  · have h := hchain "abcdefghijklmnopqrstuvwxyzABCDEF" (by decide +kernel)
    have hvalue : vars["--2".toList]? = some (nested "abcdefghijklmnopqrstuvwxyzABCDEF") := by
      decide +kernel
    exact (resolveValue_chain (.value (hname '2' (by decide +kernel)) hvalue h)
      (by decide +kernel)).2 (by decide)

end CssInliner
