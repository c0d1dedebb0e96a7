import Mathlib.Data.Nat.Digits.Defs
import Mathlib.Data.String.Basic
import Mathlib.Tactic.Common

/-!
# Separators and numerals in texts

A text is told apart at the first, or the last, separator in it. Decimal numerals are texts of digits.
-/

namespace Separators

variable {sep : Char} {front front' back back' : List Char}

theorem first_separator (hfront : sep ∉ front) (hfront' : sep ∉ front')
    (heq : front ++ sep :: back = front' ++ sep :: back') : front = front' ∧ back = back' := by
  have htake : ∀ {front back : List Char}, sep ∉ front →
      (front ++ sep :: back).takeWhile (· != sep) = front := by
    intro front back hfront
    rw [List.takeWhile_append_of_pos, List.takeWhile_cons_of_neg (by simp), List.append_nil]
    intro c hc
    have hne : c ≠ sep := by
      rintro rfl
      exact hfront hc
    simpa using hne
  have hsame : front = front' := by rw [← htake hfront, heq, htake hfront']
  subst hsame
  exact ⟨rfl, (List.cons.inj (List.append_cancel_left heq)).2⟩

theorem last_separator (hback : sep ∉ back) (hback' : sep ∉ back')
    (heq : front ++ sep :: back = front' ++ sep :: back') : front = front' ∧ back = back' := by
  have hreverse : back.reverse ++ sep :: front.reverse = back'.reverse ++ sep :: front'.reverse := by
    have hlist := congrArg List.reverse heq
    simpa using hlist
  obtain ⟨hb, hf⟩ := first_separator (by simpa using hback) (by simpa using hback') hreverse
  exact ⟨List.reverse_inj.mp hf, List.reverse_inj.mp hb⟩

theorem digits_toString (n : Nat) :
    (toString n).toList ≠ [] ∧ (∀ c ∈ (toString n).toList, c.isDigit = true) ∧
      Nat.ofDigitChars 10 (toString n).toList 0 = n := by
  have htext : (toString n).toList = Nat.toDigits 10 n := by
    show (Nat.repr n).toList = _
    simp [Nat.repr]
  rw [htext]
  exact ⟨Nat.toDigits_ne_nil, fun c hc => Nat.isDigit_of_mem_toDigits (by decide) (by decide) hc,
    Nat.ofDigitChars_ten_toDigits⟩

end Separators
