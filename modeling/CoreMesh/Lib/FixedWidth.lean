import Mathlib.Data.Nat.Digits.Defs
import Mathlib.Data.String.Basic
import Mathlib.Tactic.Common

/-!
# Numbers in a fixed width

Numbers that are written in as many digits are in the order of their texts. So are texts put together of such
numbers, the most significant one first, with what stands between them.
-/

namespace FixedWidth

/-- The last digits of a number, with zeros in front. -/
def digits : Nat → Nat → List Char
  | 0, _ => []
  | width + 1, n => digits width (n / 10) ++ [Nat.digitChar (n % 10)]

theorem length_digits (width n : Nat) : (digits width n).length = width := by
  induction width generalizing n with
  | zero => rfl
  | succ width ih => rw [digits, List.length_append, ih, List.length_singleton]

/-- Texts that start with as many characters are compared there first. -/
theorem append_lt_append_iff {α : Type} [LinearOrder α] {a b x y : List α} (hlength : a.length = b.length) :
    a ++ x < b ++ y ↔ a < b ∨ a = b ∧ x < y := by
  induction a generalizing b with
  | nil =>
      obtain rfl := List.length_eq_zero_iff.mp hlength.symm
      simp
  | cons c a ih =>
      cases b with
      | nil => cases hlength
      | cons d b =>
          rw [List.cons_append, List.cons_append, List.cons_lt_cons_iff, List.cons_lt_cons_iff,
            ih (Nat.succ.inj hlength), List.cons.injEq]
          tauto

theorem digitChar_lt_iff {m n : Nat} (hm : m < 10) (hn : n < 10) :
    Nat.digitChar m < Nat.digitChar n ↔ m < n := by
  have hall : ∀ m n : Fin 10, Nat.digitChar m < Nat.digitChar n ↔ m < n := by decide
  exact hall ⟨m, hm⟩ ⟨n, hn⟩

theorem digitChar_inj {m n : Nat} (hm : m < 10) (hn : n < 10) :
    Nat.digitChar m = Nat.digitChar n ↔ m = n := by
  have hmn := digitChar_lt_iff hm hn
  have hnm := digitChar_lt_iff hn hm
  constructor
  · intro heq
    rw [heq] at hmn hnm
    have hle : ¬n < m := fun h => lt_irrefl _ (hnm.mpr h)
    have hge : ¬m < n := fun h => lt_irrefl _ (hmn.mpr h)
    omega
  · exact congrArg Nat.digitChar

theorem digits_inj {width m n : Nat} (hm : m < 10 ^ width) (hn : n < 10 ^ width) :
    digits width m = digits width n ↔ m = n := by
  induction width generalizing m n with
  | zero => exact ⟨fun _ => by omega, fun _ => rfl⟩
  | succ width ih =>
      rw [pow_succ] at hm hn
      constructor
      · intro heq
        obtain ⟨hfront, hlast⟩ := List.append_inj heq (by rw [length_digits, length_digits])
        have hquotient := (ih (by omega) (by omega)).mp hfront
        have hdigit := (digitChar_inj (Nat.mod_lt _ (by omega)) (Nat.mod_lt _ (by omega))).mp
          (List.cons.inj hlast).1
        omega
      · exact congrArg _

theorem digits_lt_iff {width m n : Nat} (hm : m < 10 ^ width) (hn : n < 10 ^ width) :
    digits width m < digits width n ↔ m < n := by
  induction width generalizing m n with
  | zero =>
      have heq : m = n := by omega
      subst heq
      exact iff_of_false (lt_irrefl _) (lt_irrefl _)
  | succ width ih =>
      rw [pow_succ] at hm hn
      rw [digits, digits, append_lt_append_iff (by rw [length_digits, length_digits]), ih (by omega) (by omega),
        digits_inj (by omega) (by omega), List.cons_lt_cons_iff,
        digitChar_lt_iff (Nat.mod_lt _ (by omega)) (Nat.mod_lt _ (by omega))]
      have hnil : ¬([] : List Char) < [] := lt_irrefl _
      simp only [hnil, and_false, or_false]
      omega

/-- A number and what is behind it. -/
theorem digits_append_lt_iff {width m n : Nat} (hm : m < 10 ^ width) (hn : n < 10 ^ width) {x y : List Char} :
    digits width m ++ x < digits width n ++ y ↔ m < n ∨ m = n ∧ x < y := by
  rw [append_lt_append_iff (by rw [length_digits, length_digits]), digits_lt_iff hm hn, digits_inj hm hn]

end FixedWidth
