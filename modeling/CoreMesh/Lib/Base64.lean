import Mathlib.Data.List.Basic
import Mathlib.Tactic.Common

/-!
# Base64

The encoder writes three bytes as four characters and pads the last group. The decoder is the lenient
one: it takes one character after the other, skips those outside the alphabet, and stops at a complete
padding. What is encoded decodes to itself.
-/

namespace Base64

abbrev Bytes := List UInt8

def alphabet : List Char :=
  "ABCDEFGHIJKLMNOPQRSTUVWXYZabcdefghijklmnopqrstuvwxyz0123456789+/".toList

def letter (n : Nat) : Char := alphabet.getD (n % 64) 'A'

def sextet (c : Char) : Option Nat := alphabet.idxOf? c

def encode : Bytes → List Char
  | [] => []
  | [a] => [letter (a.toNat / 4), letter (a.toNat * 16), '=', '=']
  | [a, b] =>
      [letter (a.toNat / 4), letter (a.toNat * 16 + b.toNat / 16), letter (b.toNat * 4), '=']
  | a :: b :: c :: rest =>
      letter (a.toNat / 4) :: letter (a.toNat * 16 + b.toNat / 16) ::
        letter (b.toNat * 4 + c.toNat / 64) :: letter c.toNat :: encode rest

inductive DecodeError where
  /-- A text with a character outside of ASCII. -/
  | notAscii
  /-- One character is left over. -/
  | truncated
  | incorrectPadding
  deriving DecidableEq, Repr

/-- Where the decoder is in a group of four: the characters taken, the bits left over from the last of
them, and the padding seen since. -/
structure Quad where
  position : Nat := 0
  leftover : Nat := 0
  pads : Nat := 0

def decodeFrom (quad : Quad) : List Char → Except DecodeError Bytes
  | [] =>
      if quad.position = 0 then .ok []
      else if quad.position = 1 then .error .truncated
      else .error .incorrectPadding
  | c :: rest =>
      if c = '=' then
        if 2 ≤ quad.position then
          if 4 ≤ quad.position + (quad.pads + 1) then .ok []
          else decodeFrom { quad with pads := quad.pads + 1 } rest
        else decodeFrom quad rest
      else
        match sextet c with
        | none => decodeFrom quad rest
        | some n =>
            match quad.position with
            | 0 => decodeFrom { position := 1, leftover := n } rest
            | 1 => do
                let bytes ← decodeFrom { position := 2, leftover := n % 16 } rest
                return UInt8.ofNat (quad.leftover * 4 + n / 16) :: bytes
            | 2 => do
                let bytes ← decodeFrom { position := 3, leftover := n % 4 } rest
                return UInt8.ofNat (quad.leftover * 16 + n / 4) :: bytes
            | _ => do
                let bytes ← decodeFrom {} rest
                return UInt8.ofNat (quad.leftover * 64 + n) :: bytes

/-- `base64.b64decode` of a text. -/
def decode (text : List Char) : Except DecodeError Bytes :=
  if text.all fun c => decide (c.toNat < 128) then decodeFrom {} text else .error .notAscii

/-! ### Single characters -/

theorem sextet_letter (n : Nat) : sextet (letter n) = some (n % 64) := by
  have hall : ∀ m < 64, sextet (letter m) = some m := by decide +kernel
  have hletter : letter n = letter (n % 64) := by rw [letter, letter, Nat.mod_mod]
  rw [hletter]
  exact hall (n % 64) (Nat.mod_lt n (by omega))

theorem letter_spec (n : Nat) : letter n ≠ '=' ∧ (letter n).toNat < 128 := by
  have hall : ∀ m < 64, letter m ≠ '=' ∧ (letter m).toNat < 128 := by decide +kernel
  have hletter : letter n = letter (n % 64) := by rw [letter, letter, Nat.mod_mod]
  rw [hletter]
  exact hall (n % 64) (Nat.mod_lt n (by omega))

theorem ofNat_eq {b : UInt8} {n : Nat} (hn : n = b.toNat) : UInt8.ofNat n = b := by
  rw [hn]
  exact UInt8.ofNat_toNat

/-! ### Groups -/

section Steps

variable (n : Nat) (leftover : Nat) (rest : List Char)

/-- A letter is taken, wherever the decoder is in its group. -/
theorem decodeFrom_letter (quad : Quad) :
    decodeFrom quad (letter n :: rest) =
      match quad.position with
      | 0 => decodeFrom { position := 1, leftover := n % 64 } rest
      | 1 => do
          let bytes ← decodeFrom { position := 2, leftover := n % 64 % 16 } rest
          return UInt8.ofNat (quad.leftover * 4 + n % 64 / 16) :: bytes
      | 2 => do
          let bytes ← decodeFrom { position := 3, leftover := n % 64 % 4 } rest
          return UInt8.ofNat (quad.leftover * 16 + n % 64 / 4) :: bytes
      | _ => do
          let bytes ← decodeFrom {} rest
          return UInt8.ofNat (quad.leftover * 64 + n % 64) :: bytes := by
  rw [decodeFrom, if_neg (letter_spec n).1, sextet_letter]

theorem decodeFrom_first :
    decodeFrom {} (letter n :: rest) = decodeFrom { position := 1, leftover := n % 64 } rest :=
  decodeFrom_letter n rest {}

theorem decodeFrom_second :
    decodeFrom { position := 1, leftover } (letter n :: rest) = do
      let bytes ← decodeFrom { position := 2, leftover := n % 64 % 16 } rest
      return UInt8.ofNat (leftover * 4 + n % 64 / 16) :: bytes :=
  decodeFrom_letter n rest { position := 1, leftover }

theorem decodeFrom_third :
    decodeFrom { position := 2, leftover } (letter n :: rest) = do
      let bytes ← decodeFrom { position := 3, leftover := n % 64 % 4 } rest
      return UInt8.ofNat (leftover * 16 + n % 64 / 4) :: bytes :=
  decodeFrom_letter n rest { position := 2, leftover }

theorem decodeFrom_fourth :
    decodeFrom { position := 3, leftover } (letter n :: rest) = do
      let bytes ← decodeFrom {} rest
      return UInt8.ofNat (leftover * 64 + n % 64) :: bytes :=
  decodeFrom_letter n rest { position := 3, leftover }

end Steps

theorem decodeFrom_encode (bytes : Bytes) : decodeFrom {} (encode bytes) = .ok bytes := by
  induction bytes using encode.induct with
  | case1 => rfl
  | case2 a =>
      have ha := a.toNat_lt
      rw [encode, decodeFrom_first, decodeFrom_second]
      have hbyte : UInt8.ofNat (a.toNat / 4 % 64 * 4 + a.toNat * 16 % 64 / 16) = a :=
        ofNat_eq (by omega)
      rw [hbyte]
      rfl
  | case3 a b =>
      have ha := a.toNat_lt
      have hb := b.toNat_lt
      rw [encode, decodeFrom_first, decodeFrom_second, decodeFrom_third]
      have hfirst :
          UInt8.ofNat (a.toNat / 4 % 64 * 4 + (a.toNat * 16 + b.toNat / 16) % 64 / 16) = a :=
        ofNat_eq (by omega)
      have hsecond :
          UInt8.ofNat ((a.toNat * 16 + b.toNat / 16) % 64 % 16 * 16 + b.toNat * 4 % 64 / 4) = b :=
        ofNat_eq (by omega)
      rw [hfirst, hsecond]
      rfl
  | case4 a b c rest ih =>
      have ha := a.toNat_lt
      have hb := b.toNat_lt
      have hc := c.toNat_lt
      rw [encode, decodeFrom_first, decodeFrom_second, decodeFrom_third, decodeFrom_fourth, ih]
      have hfirst :
          UInt8.ofNat (a.toNat / 4 % 64 * 4 + (a.toNat * 16 + b.toNat / 16) % 64 / 16) = a :=
        ofNat_eq (by omega)
      have hsecond : UInt8.ofNat ((a.toNat * 16 + b.toNat / 16) % 64 % 16 * 16 +
          (b.toNat * 4 + c.toNat / 64) % 64 / 4) = b :=
        ofNat_eq (by omega)
      have hthird :
          UInt8.ofNat ((b.toNat * 4 + c.toNat / 64) % 64 % 4 * 64 + c.toNat % 64) = c :=
        ofNat_eq (by omega)
      rw [hfirst, hsecond, hthird]
      rfl

theorem ascii_encode (bytes : Bytes) : ∀ c ∈ encode bytes, c.toNat < 128 := by
  induction bytes using encode.induct with
  | case1 => exact List.forall_mem_nil _
  | case2 a =>
      simp only [encode, List.forall_mem_cons]
      exact ⟨(letter_spec _).2, (letter_spec _).2, by decide, by decide, List.forall_mem_nil _⟩
  | case3 a b =>
      simp only [encode, List.forall_mem_cons]
      exact ⟨(letter_spec _).2, (letter_spec _).2, (letter_spec _).2, by decide, List.forall_mem_nil _⟩
  | case4 a b c rest ih =>
      simp only [encode, List.forall_mem_cons]
      exact ⟨(letter_spec _).2, (letter_spec _).2, (letter_spec _).2, (letter_spec _).2, ih⟩

/-- What is encoded decodes to itself. -/
theorem decode_encode (bytes : Bytes) : decode (encode bytes) = .ok bytes := by
  have hascii : (encode bytes).all (fun c => decide (c.toNat < 128)) = true :=
    List.all_eq_true.mpr fun c hc => decide_eq_true (ascii_encode bytes c hc)
  rw [decode, if_pos hascii]
  exact decodeFrom_encode bytes

theorem encode_eq_nil_iff (bytes : Bytes) : encode bytes = [] ↔ bytes = [] := by
  cases bytes using encode.fun_cases <;> simp [encode]

example : decode "aG\nk=".toList = .ok [104, 105] := by decide +kernel

end Base64
