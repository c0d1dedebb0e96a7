import Mathlib.Data.List.Induction
import CoreMesh.Sql.Scanning

/-!
# Words

An identifier never begins right after a letter, a digit or another word character: such a character
would have taken the identifier's first letter into its own token.
-/

namespace Sql

variable {d : Dialect}

theorem isAlpha_iff_toNat {c : Char} :
    c.isAlpha = true ↔ (65 ≤ c.toNat ∧ c.toNat ≤ 90) ∨ 97 ≤ c.toNat ∧ c.toNat ≤ 122 := by
  show (decide (c.val ≥ 65 ∧ c.val ≤ 90) || (decide (c.val ≥ 97) && decide (c.val ≤ 122))) = true ↔ _
  simp only [Bool.or_eq_true, Bool.and_eq_true, decide_eq_true_eq, ge_iff_le, UInt32.le_iff_toNat_le]
  exact Iff.rfl

theorem forall_mem_of_all {p : Char → Prop} [DecidablePred p] {l : List Char}
    (hall : (l.all fun c => decide (p c)) = true) : ∀ c ∈ l, p c :=
  fun c hc => of_decide_eq_true (List.all_eq_true.mp hall c hc)

theorem isOperatorChar_spec {c : Char} (hc : isOperatorChar c = true) :
    c.isAlpha = false ∧ c ≠ '_' ∧ ¬ 128 ≤ c.toNat ∧ c.isDigit = false := by
  have hall : ∀ c ∈ "~!@#^&|`?+-*/%<>=".toList,
      c.isAlpha = false ∧ c ≠ '_' ∧ ¬ 128 ≤ c.toNat ∧ c.isDigit = false :=
    forall_mem_of_all (by decide)
  exact hall c (by simpa [isOperatorChar] using hc)

theorem wordChar_of_ascii {c : Char} (halpha : c.isAlpha = false) (hunderscore : c ≠ '_')
    (hascii : ¬ 128 ≤ c.toNat) (hdigit : c.isDigit = false) : wordChar d c = false := by
  simp [wordChar, identStart, halpha, hunderscore, hascii, hdigit]

theorem not_operator_of_word {c : Char} (hword : wordChar d c = true) :
    isOperatorChar c = false := by
  cases hop : isOperatorChar c with
  | false => rfl
  | true =>
      obtain ⟨halpha, hunderscore, hascii, hdigit⟩ := isOperatorChar_spec hop
      rw [wordChar_of_ascii halpha hunderscore hascii hdigit] at hword
      cases hword

/-- A word character is none of the characters the scanner treats by themselves. -/
theorem word_ne {c x : Char} (hword : wordChar d c = true)
    (hx : x.isAlpha = false ∧ x ≠ '_' ∧ ¬ 128 ≤ x.toNat ∧ x.isDigit = false) : c ≠ x := by
  intro heq
  rw [heq, wordChar_of_ascii hx.1 hx.2.1 hx.2.2.1 hx.2.2.2] at hword
  cases hword

theorem not_space_of_digit {c : Char} (hdigit : c.isDigit = true) : d.isSpace c = false := by
  unfold Char.isDigit at hdigit
  rw [Bool.and_eq_true, decide_eq_true_eq, decide_eq_true_eq] at hdigit
  have hlow : (48 : Nat) ≤ c.toNat := UInt32.le_iff_toNat_le.mp hdigit.1
  have hhigh : c.toNat ≤ 57 := UInt32.le_iff_toNat_le.mp hdigit.2
  exact d.visible c (by omega) (by omega)

theorem not_space_of_word {c : Char} (hword : wordChar d c = true) : d.isSpace c = false := by
  unfold wordChar at hword
  rcases (Bool.or_eq_true _ _).mp hword with hident | hdigit
  · unfold identStart at hident
    simpa using ((Bool.and_eq_true _ _).mp hident).1
  · exact not_space_of_digit hdigit

theorem begin_inside {c : Char} (hword : wordChar d c = true) : (begin d c).2.Inside := by
  have hspace := not_space_of_word hword
  unfold begin
  rw [if_neg (by simp [hspace])]
  split
  · trivial
  · rename_i hident
    have hdigit : c.isDigit = true := by simpa [wordChar, hident] using hword
    rw [if_pos hdigit]
    trivial

theorem feedIdent_inside {c : Char} (hword : wordChar d c = true) (text : List Char) :
    (feedIdent d text c).2.Inside := by
  unfold feedIdent
  rw [if_pos (by simp [identCont, hword])]
  trivial

theorem feedOperator_inside {c : Char} (hword : wordChar d c = true) (init : List Char)
    (last : Char) : (feedOperator d init last c).2.Inside := by
  have hminus : c ≠ '-' := word_ne hword (by decide)
  have hstar : c ≠ '*' := word_ne hword (by decide)
  unfold feedOperator
  rw [if_neg (by simp [hminus]), if_neg (by simp [hstar]),
    if_neg (by simp [not_operator_of_word hword])]
  exact begin_inside hword

theorem feedGap_inside {c : Char} (hword : wordChar d c = true) (escapes newline : Bool)
    (literal : List Char) (between : List Trivia) :
    (feedGap d escapes newline literal between c).2.Inside := by
  have hminus : c ≠ '-' := word_ne hword (by decide)
  unfold feedGap
  rw [if_neg (by simp [not_space_of_word hword]), if_neg hminus]
  exact begin_inside hword

/-- After a word character the scanner is inside a token. -/
theorem feed_inside {c : Char} (hword : wordChar d c = true) (state : State) :
    (feed d state c).2.Inside := by
  have hspace := not_space_of_word hword
  have hbegin := begin_inside hword
  have hquote : c ≠ '\'' := word_ne hword (by decide)
  have hdouble : c ≠ '"' := word_ne hword (by decide)
  have hdollar : c ≠ '$' := word_ne hword (by decide)
  cases state with
  | start => exact hbegin
  | lineComment text =>
      simp only [feed]
      split
      · exact hbegin
      · trivial
  | blockComment depth before text =>
      have hslash : c ≠ '/' := word_ne hword (by decide)
      have hstar : c ≠ '*' := word_ne hword (by decide)
      simp [feed, feedBlockComment, hslash, hstar, State.Inside]
  | ident text => exact feedIdent_inside hword text
  | number text =>
      simp only [feed, feedNumber, hword]
      trivial
  | param text =>
      simp only [feed, hword]
      trivial
  | operator init last => exact feedOperator_inside hword init last
  | quotedIdent unicode text =>
      simp only [feed, if_neg hdouble]
      trivial
  | quotedIdentEnd unicode text =>
      simp only [feed, if_neg hdouble]
      exact hbegin
  | string escapes text =>
      simp only [feed, if_neg hquote]
      split <;> trivial
  | backslash text => trivial
  | stringEnd escapes text =>
      simp only [feed, if_neg hquote]
      exact feedGap_inside hword escapes false text []
  | gap escapes newline literal between =>
      simp only [feed, hquote, false_and]
      exact feedGap_inside hword escapes newline literal between
  | gapMinus escapes literal between =>
      have hminus : c ≠ '-' := word_ne hword (by decide)
      simp only [feed, if_neg hminus]
      exact feedOperator_inside hword [] '-'
  | gapComment escapes literal between text =>
      simp only [feed]
      split
      · rename_i hnewline
        rw [isSpace_of_newline hnewline] at hspace
        cases hspace
      · trivial
  | uAmp u =>
      simp only [feed, if_neg hquote, if_neg hdouble]
      exact feedOperator_inside hword [] '&'
  | dollar =>
      simp only [feed, if_neg hdollar]
      split
      · trivial
      · rename_i hident
        have hdigit : c.isDigit = true := by simpa [wordChar, hident] using hword
        rw [if_pos hdigit]
        trivial
  | dollarTag tag =>
      simp only [feed, if_neg hdollar, hword]
      trivial
  | dollarBody delimiter text =>
      simp only [feed, feedDollarBody, hdollar, false_and]
      trivial

/-! ### Identifiers begin at word boundaries -/

/-- No identifier of the list follows a word character. -/
def Separated (d : Dialect) (tokens : List Token) : Prop :=
  ∀ before t after, tokens = before ++ t :: after → t.kind = .ident →
    ∀ c, (concat before).getLast? = some c → wordChar d c = false

theorem Separated.of_append {left right : List Token} (hsep : Separated d (left ++ right)) :
    Separated d left := fun before t after heq =>
  hsep before t (after ++ right) (by rw [heq]; simp)

theorem separated_concat {tokens : List Token} {t : Token} (hsep : Separated d tokens)
    (hlast : t.kind = .ident → ∀ c, (concat tokens).getLast? = some c → wordChar d c = false) :
    Separated d (tokens ++ [t]) := by
  intro before t' after heq hident c hc
  rcases List.eq_nil_or_concat after with rfl | ⟨init, last, rfl⟩
  · obtain ⟨rfl, ht⟩ := List.append_inj' heq rfl
    obtain rfl := List.singleton_inj.mp ht
    exact hlast hident c hc
  · have hinit : tokens = before ++ t' :: init := by
      rw [List.concat_eq_append, ← List.cons_append, ← List.append_assoc] at heq
      exact (List.append_inj' heq rfl).1
    exact hsep before t' init hinit hident c hc

theorem Separated.last {tokens : List Token} {t : Token} (hsep : Separated d (tokens ++ [t])) :
    t.kind = .ident → ∀ c, (concat tokens).getLast? = some c → wordChar d c = false :=
  hsep tokens t [] rfl

theorem scan_concat (state : State) (text : List Char) (c : Char) :
    scan d state (text ++ [c])
      = ((scan d state text).1 ++ (feed d (scan d state text).2 c).1,
          (feed d (scan d state text).2 c).2) := by
  induction text generalizing state with
  | nil => simp [scan]
  | cons first rest ih =>
      simp only [List.cons_append, scan, ih, List.append_assoc]

theorem not_inside_of_word {text : List Char} {c : Char} (hlast : text.getLast? = some c)
    (hinside : ¬ (scan d .start text).2.Inside) : wordChar d c = false := by
  rcases List.eq_nil_or_concat text with rfl | ⟨init, last, rfl⟩
  · cases hlast
  · have hc : last = c := by simpa using hlast
    subst hc
    rw [List.concat_eq_append, scan_concat] at hinside
    cases hword : wordChar d last with
    | false => rfl
    | true => exact absurd (feed_inside hword _) hinside

theorem separated_lex (text : List Char) : Separated d (lex d text) := by
  induction text using List.reverseRecOn with
  | nil =>
      intro before t after heq
      simp [lex, lexFrom, State.close] at heq
  | append_singleton text c ih =>
      have hbefore : lex d text = _ := lexFrom_eq_scan .start text
      have hafter : lex d (text ++ [c]) = _ := lexFrom_eq_scan .start (text ++ [c])
      have htext : concat (lex d text) = text := concat_lex text
      have hinside : ∀ x, text.getLast? = some x → ¬ (scan d .start text).2.Inside →
          wordChar d x = false := fun x hx => not_inside_of_word hx
      rw [scan_concat, List.append_assoc] at hafter
      have hgrown := feed_grown d (scan d .start text).2 c
      rw [hafter]
      rw [hbefore] at ih htext
      generalize hdone : (scan d .start text).1 = done at *
      generalize hstate : (scan d .start text).2 = state at *
      change Separated d (done ++ total (feed d state c))
      generalize state.close = pending at *
      generalize total (feed d state c) = result at *
      cases hgrown with
      | lengthen before kind kind' w hkind =>
          rw [← List.append_assoc] at ih ⊢
          refine separated_concat ih.of_append fun hident => ?_
          rcases hkind with ⟨rfl, -⟩ | hkind
          · exact ih.last hident
          · exact absurd hident hkind.2.1
      | «open» before kind hspace hident =>
          rw [← List.append_assoc]
          refine separated_concat ih fun hkind x hx => ?_
          rw [htext] at hx
          exact hinside x hx (hident hkind).2
      | join before kind hkind =>
          exact separated_concat ih.of_append fun hident => absurd hident hkind.2.1
      | split init last kind hlast hkind =>
          rw [← List.append_assoc]
          refine separated_concat ?_ fun hident => absurd hident hkind.2.1
          unfold headTokens
          split
          · rw [List.append_nil]
            exact ih.of_append
          · exact separated_concat ih.of_append (by simp)

end Sql
