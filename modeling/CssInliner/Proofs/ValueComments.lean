import CssInliner.Proofs.Lexis.Pieces
import CssInliner.Proofs.Lookahead.Item

/-!
Comments in the value of a declaration. The search for the end of a value and the stripping of
its comments go through the same text, but only the search knows escapes outside strings, and
stripping leaves nothing where a comment was. So what is stored need not be read back to its own
end: it must be a value by itself. It is one wherever stripping leaves what the search read, but
for the comments.
-/

namespace CssInliner.Grammar

open Lexis (step_bound pieces_nil pieces_of_step pieces_behind flatMap_text_pieces)

/-- A value by itself, with this character behind it: no string, comment or escape is open at its
end, and of the two only the character ends a value. -/
structure StandsAlone (stop : Char) (value : Text) : Prop where
  whole : valueLexis.pieces (value ++ [stop]) = valueLexis.pieces value ++ valueLexis.pieces [stop]
  ends : ∃ depth, (valueLexis.pieces value).foldlM withinValue 0 = some depth ∧
    withinValue depth (.char stop) = none

section standsAlone

variable {value rest : Text} {stop : Char}

theorem splitValue_eq_iff (hstop : isBound stop = true) :
    splitValue (value ++ stop :: rest) = (value, stop :: rest) ↔ StandsAlone stop value := by
  have hne := List.cons_ne_nil stop
  constructor
  · intro h
    obtain ⟨ps, depth, hpieces, htext, hfold, hend⟩ :=
      valueLexis.exists_pieces_of_cut withinValue 0 (value ++ stop :: rest)
    rw [show valueLexis.cut withinValue 0 (value ++ stop :: rest) = _ from h] at hpieces htext hend
    dsimp only at hpieces htext hend
    subst htext
    have hself : valueLexis.pieces (ps.flatMap Piece.text ++ []) = ps ++ valueLexis.pieces [] :=
      pieces_behind rfl (hne rest) (by simp) hpieces
    rw [pieces_nil, List.append_nil, List.append_nil] at hself
    obtain ⟨p, u, hstep, hnone⟩ := hend.resolve_left (hne rest)
    rw [step_bound rfl hstop] at hstep
    obtain ⟨rfl, -⟩ := Prod.mk.inj (Option.some.inj hstep)
    refine ⟨?_, depth, by rwa [hself], hnone⟩
    rw [hself]
    exact pieces_behind rfl (hne rest) id hpieces
  · rintro ⟨hwhole, depth, hfold, hnone⟩
    have htext := flatMap_text_pieces valueLexis value
    have hpieces : valueLexis.pieces (value ++ stop :: rest) =
        valueLexis.pieces value ++ valueLexis.pieces (stop :: rest) := by
      have hbehind :
          valueLexis.pieces ((valueLexis.pieces value).flatMap Piece.text ++ stop :: rest) =
            valueLexis.pieces value ++ valueLexis.pieces (stop :: rest) :=
        pieces_behind rfl (hne []) id (by rwa [htext])
      rwa [htext] at hbehind
    have hcut := Lexis.cut_of_pieces hpieces hfold
    rwa [Lexis.cut_bound rfl hstop hnone, htext, List.append_nil] at hcut

theorem standsAlone_of_splitValue {t : Text} (h : splitValue t = (value, stop :: rest))
    (hstop : isBound stop = true) : StandsAlone stop value := by
  rw [← append_of_splitValue h] at h
  exact (splitValue_eq_iff hstop).1 h

end standsAlone

/-- What the search for the end of a value reads, but for the comments. -/
def keptPieces (value : Text) : List Piece :=
  (valueLexis.pieces value).filter fun p => !(p matches .comment _)

/-- Stripping leaves what the search for the end read, but for the comments. -/
def StripsAsRead (value : Text) : Prop :=
  valueLexis.pieces (stripComments value) = keptPieces value

section kept

variable {value : Text} {stop : Char}

theorem foldlM_keptPieces (value : Text) (depth : Nat) :
    (keptPieces value).foldlM withinValue depth =
      (valueLexis.pieces value).foldlM withinValue depth := by
  unfold keptPieces
  induction valueLexis.pieces value generalizing depth with
  | nil => rfl
  | cons p ps ih =>
      cases p with
      | comment text => exact ih depth
      | _ =>
          rw [List.filter_cons_of_pos rfl, List.foldlM_cons, List.foldlM_cons]
          exact congrArg _ (funext ih)

/-- The pieces of a value are read as they are where the comments between them are gone, if no
slash comes to stand before an asterisk. -/
theorem pieces_keptPieces_append (hvalue : StandsAlone stop value)
    (hjoint : ¬ [.char '/', .char '*'] <:+: keptPieces value) {z : Text}
    (hz : z.head? ≠ some '*') :
    valueLexis.pieces ((keptPieces value).flatMap Piece.text ++ z) =
      keptPieces value ++ valueLexis.pieces z := by
  have hread := Lexis.exists_step_of_mem (List.cons_ne_nil stop []) hvalue.whole
  exact Lexis.pieces_flatMap_append rfl (fun p hp => hread p (List.mem_of_mem_filter hp)) hjoint hz

/-- Where stripping leaves what the search read, what is left stands alone as the value does. -/
theorem StripsAsRead.standsAlone (h : StripsAsRead value) (hstop : isBound stop = true)
    (hvalue : StandsAlone stop value) : StandsAlone stop (stripComments value) := by
  have htext := flatMap_text_pieces valueLexis (stripComments value)
  have hjoint := @Lexis.not_joint_infix_pieces valueLexis rfl (stripComments value)
  rw [h] at htext hjoint
  have hstar : [stop].head? ≠ some '*' := by
    intro hhead
    obtain rfl := Option.some.inj hhead
    contradiction
  obtain ⟨depth, hfold, hnone⟩ := hvalue.ends
  refine ⟨?_, depth, ?_, hnone⟩
  · rw [h, ← htext]
    exact pieces_keptPieces_append hvalue hjoint hstar
  · rw [h, foldlM_keptPieces, hfold]

end kept

/-- No backslash among the pieces stands before a quote or before the mark of a comment. -/
def hidesNothing : List Piece → Bool
  | [] => true
  | .escape e :: ps =>
      !e.any Text.isQuote && (Text.dropLead? commentOpen (e.tail ++ ps.flatMap Piece.text)).isNone &&
        hidesNothing ps
  | _ :: ps => hidesNothing ps

section hidden

theorem hidesNothing_of_cons {p : Piece} {ps : List Piece} (h : hidesNothing (p :: ps) = true) :
    hidesNothing ps = true := by
  cases p with
  | escape e =>
      rw [hidesNothing, Bool.and_eq_true] at h
      exact h.2
  | _ => exact h

/-- Only escapes are read in one way and stripped in another. -/
theorem step_commentLexis {c : Char} (hesc : c ≠ '\\') (t : Text) :
    commentLexis.step (c :: t) = valueLexis.step (c :: t) := by
  simp [Lexis.step, commentLexis, valueLexis, hesc]

theorem keptPieces_of_step {t rest : Text} {p : Piece}
    (h : valueLexis.step t = some (p, rest)) :
    (keptPieces t).flatMap Piece.text =
      uncommented p ++ (keptPieces rest).flatMap Piece.text := by
  unfold keptPieces
  rw [pieces_of_step h]
  cases p <;> rfl

/-- Where no backslash hides anything, stripping takes out what the search took for comments. -/
theorem stripComments_eq_of_hidesNothing {value : Text}
    (h : hidesNothing (valueLexis.pieces value) = true) :
    stripComments value = (keptPieces value).flatMap Piece.text := by
  cases hstep : valueLexis.step value with
  | none =>
      rw [Lexis.step_eq_none_iff.1 hstep]
      simp [stripComments, keptPieces]
  | some found =>
      obtain ⟨p, rest⟩ := found
      have hlt := Lexis.length_lt_of_step hstep
      rw [pieces_of_step hstep] at h
      have hrest := stripComments_eq_of_hidesNothing (hidesNothing_of_cons h)
      rw [keptPieces_of_step hstep, ← hrest]
      obtain ⟨c, t, rfl⟩ := List.exists_cons_of_ne_nil (l := value) (by rintro rfl; contradiction)
      by_cases hesc : c = '\\'
      · subst hesc
        obtain ⟨rfl, rfl⟩ : Piece.escape ('\\' :: t.take 1) = p ∧ t.drop 1 = rest :=
          Prod.mk.inj (Option.some.inj hstep)
        rw [stripComments_cons rfl (by decide)]
        cases t with
        | nil => rfl
        | cons d u =>
            -- what the backslash stands before is no quote and begins no comment
            have hplain : (Text.isQuote d = false ∧ ¬ commentOpen <+: d :: u) ∧
                hidesNothing (valueLexis.pieces u) = true := by
              simpa [hidesNothing, flatMap_text_pieces, Text.dropLead?_eq_none_iff, Text.isQuote]
                using h
            rw [stripComments_cons_of_bare hplain.1.1 hplain.1.2]
            rfl
      · rw [← step_commentLexis hesc] at hstep
        exact stripComments_of_step hstep
termination_by value.length

/-- Where no backslash hides anything, stripping leaves what the search read exactly if it makes
no slash stand before an asterisk. -/
theorem stripsAsRead_iff {value : Text} {stop : Char} (hvalue : StandsAlone stop value)
    (h : hidesNothing (valueLexis.pieces value) = true) :
    StripsAsRead value ↔ ¬ [.char '/', .char '*'] <:+: keptPieces value := by
  constructor
  · intro hstrips
    rw [← hstrips]
    exact Lexis.not_joint_infix_pieces rfl _
  · intro hjoint
    have hnil : ([] : Text).head? ≠ some '*' := by simp
    have hpieces := pieces_keptPieces_append hvalue hjoint hnil
    rw [pieces_nil, List.append_nil, List.append_nil] at hpieces
    rw [StripsAsRead, stripComments_eq_of_hidesNothing h, hpieces]

end hidden

/-- The stripped value, with what ended the value behind it, is read back to its own end exactly
if it stands alone. It does wherever stripping leaves what the search for the end read, but for
the comments; and where no backslash hides a quote or a comment from the search, that is where no
slash comes to stand before an asterisk. -/
theorem splitValue_stripComments_iff {t value rest : Text} {stop : Char}
    (h : splitValue t = (value, stop :: rest)) :
    (splitValue (stripComments value ++ stop :: rest) = (stripComments value, stop :: rest) ↔
        StandsAlone stop (stripComments value)) ∧
      (StripsAsRead value → StandsAlone stop (stripComments value)) ∧
        (hidesNothing (valueLexis.pieces value) = true →
          (StripsAsRead value ↔ ¬ [.char '/', .char '*'] <:+: keptPieces value)) := by
  have hstop : isBound stop = true := by
    rcases stop_of_splitValue h with rfl | rfl <;> rfl
  have hvalue := standsAlone_of_splitValue h hstop
  exact ⟨splitValue_eq_iff hstop, fun hstrips => hstrips.standsAlone hstop hvalue,
    stripsAsRead_iff hvalue⟩

theorem splitValue_stripComments_sample :
    splitValue "\\7e(a;b)/* ; */'/*';c".toList =
        ("\\7e(a;b)/* ; */'/*'".toList, ";c".toList) ∧
      splitValue (stripComments "\\7e(a;b)/* ; */'/*'".toList ++ ";c".toList) =
        ("\\7e(a;b)'/*'".toList, ";c".toList) := by
  have hread : splitValue "\\7e(a;b)/* ; */'/*';c".toList =
      ("\\7e(a;b)/* ; */'/*'".toList, ";c".toList) := by decide +kernel
  have hstrip : stripComments "\\7e(a;b)/* ; */'/*'".toList = "\\7e(a;b)'/*'".toList := by
    decide +kernel
  obtain ⟨hback, hstrips, hjoint⟩ := splitValue_stripComments_iff hread
  refine ⟨hread, ?_⟩
  rw [← hstrip]
  exact hback.2 (hstrips ((hjoint (by decide +kernel)).2 (by decide +kernel)))

/-- Behind a backslash stripping sees a comment where the search saw none, and what is left ends
with the backslash, which takes the semicolon behind it. A comment between a slash and an asterisk
leaves the mark of a comment. -/
theorem splitValue_stripComments_fails :
    (splitValue "\\/*;".toList = ("\\/*".toList, [';']) ∧
        stripComments "\\/*".toList = ['\\'] ∧
          splitValue (stripComments "\\/*".toList ++ [';']) = (['\\', ';'], [])) ∧
      splitValue "//**/*;".toList = ("//**/*".toList, [';']) ∧
        stripComments "//**/*".toList = ['/', '*'] ∧
          splitValue (stripComments "//**/*".toList ++ [';']) = (['/', '*', ';'], []) := by
  decide +kernel

end CssInliner.Grammar
