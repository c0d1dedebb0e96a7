import Mathlib.Data.List.Basic
import Mathlib.Data.List.Induction
import Mathlib.Tactic.Common

/-!
# Quoting of byte strings

A byte string is written as it is if all its bytes are visible, and between quotation marks with
backslash escapes otherwise. Only what is written as it is can be read back as a text.
-/

namespace CQuote

abbrev Bytes := List UInt8

/-- UTF-8. -/
def encode (text : List Char) : Bytes := text.flatMap String.utf8EncodeChar

def decode (p : Bytes) : Option (List Char) := (String.fromUTF8? p.toByteArray).map String.toList

def byteChar (b : UInt8) : Char := Char.ofNat b.toNat

/-- A byte string as it is, with a character for each byte. -/
def spelled (p : Bytes) : List Char := p.map byteChar

def mustEscape (b : UInt8) : Bool := b < 0x20 || b == 0x22 || b == 0x5c || 0x7f ≤ b

def octal (n : Nat) : Char := Char.ofNat (48 + n % 8)

/-- What stands behind the backslash. -/
def escapeCode (b : UInt8) : List Char :=
  match b.toNat with
  | 7 => ['a']
  | 8 => ['b']
  | 9 => ['t']
  | 10 => ['n']
  | 11 => ['v']
  | 12 => ['f']
  | 13 => ['r']
  | 0x22 => ['"']
  | 0x5c => ['\\']
  | n => [octal (n / 64), octal (n / 8), octal n]

def escape (b : UInt8) : List Char := if mustEscape b then '\\' :: escapeCode b else [byteChar b]

def quoted (p : Bytes) : List Char := '"' :: p.flatMap escape ++ ['"']

/-- With `spaces` a blank is a reason to quote too, though it is not escaped. -/
def needsQuotes (spaces : Bool) (p : Bytes) : Bool :=
  p.any fun b => mustEscape b || (spaces && b == 0x20)

def render (spaces : Bool) (p : Bytes) : List Char :=
  if needsQuotes spaces p then quoted p else spelled p

variable {spaces : Bool} {p : Bytes}

/-! ### Single bytes -/

theorem forall_byte {P : UInt8 → Prop} (h : ∀ n : Fin 256, P (UInt8.ofNat n)) (b : UInt8) : P b := by
  have hb := h ⟨b.toNat, b.toNat_lt⟩
  rwa [show UInt8.ofNat (⟨b.toNat, b.toNat_lt⟩ : Fin 256) = b from UInt8.ofNat_toNat] at hb

/-- The characters that are written. -/
def Visible (c : Char) : Prop := 0x20 ≤ c.toNat ∧ c.toNat < 0x7f

instance (c : Char) : Decidable (Visible c) := inferInstanceAs (Decidable (_ ∧ _))

theorem forall_visible {text : List Char} (hall : text.all (fun c => decide (Visible c)) = true) :
    ∀ c ∈ text, Visible c := fun c hc => of_decide_eq_true (List.all_eq_true.mp hall c hc)

theorem visible_escape (b : UInt8) : ∀ c ∈ escape b, Visible c := by
  refine forall_visible ?_
  revert b
  exact forall_byte (by decide +kernel)

theorem plain_spec (b : UInt8) (hplain : mustEscape b = false) :
    String.utf8EncodeChar (byteChar b) = [b] ∧ byteChar b ≠ '"' ∧ byteChar b ≠ '\\' := by
  revert b
  exact forall_byte (by decide +kernel)

theorem escape_of_plain {b : UInt8} (hplain : mustEscape b = false) : escape b = [byteChar b] := by
  rw [escape, if_neg (by simp [hplain])]

/-! ### UTF-8 -/

theorem encode_inj {text text' : List Char} : encode text = encode text' ↔ text = text' := by
  constructor
  · intro heq
    have hbytes : text.utf8Encode = text'.utf8Encode := congrArg List.toByteArray heq
    have hdecode := congrArg ByteArray.utf8Decode? hbytes
    rw [List.utf8Decode?_utf8Encode, List.utf8Decode?_utf8Encode, Option.some.injEq] at hdecode
    exact List.toArray_inj hdecode
  · rintro rfl
    rfl

theorem encode_of_decode {text : List Char} (hdecode : decode p = some text) : encode text = p := by
  obtain ⟨s, hs, rfl⟩ := Option.map_eq_some_iff.mp hdecode
  rw [String.fromUTF8?] at hs
  split at hs
  · obtain rfl := Option.some.inj hs
    exact List.toByteArray_inj.mp String.utf8Encode_toList
  · cases hs

theorem decode_encode (text : List Char) : decode (encode text) = some text := by
  have hvalid : (encode text).toByteArray.IsValidUTF8 := ByteArray.isValidUTF8_utf8Encode
  have hdecode : ∃ decoded, decode (encode text) = some decoded := by
    rw [decode, String.fromUTF8?, dif_pos hvalid]
    exact ⟨_, rfl⟩
  obtain ⟨decoded, hdecoded⟩ := hdecode
  rw [hdecoded, encode_inj.mp (encode_of_decode hdecoded)]

/-- The last byte of a character is beyond ASCII unless the character is the byte. -/
theorem utf8EncodeChar_getLast (c : Char) {b : UInt8} (hlast : b ∈ (String.utf8EncodeChar c).getLast?)
    (hascii : b < 0x80) : String.utf8EncodeChar c = [b] ∧ c = byteChar b := by
  have hbeyond : ∀ n : Nat, UInt8.ofNat (n % 64 + 128) ≠ b := by
    rintro n rfl
    have hlt : n % 64 < 64 := Nat.mod_lt n (by decide)
    rw [UInt8.lt_iff_toNat_lt, UInt8.toNat_ofNat'] at hascii
    have hsmall : (0x80 : UInt8).toNat = 128 := rfl
    omega
  unfold String.utf8EncodeChar at hlast ⊢
  dsimp only at hlast ⊢
  split
  · rename_i hsmall
    rw [if_pos hsmall] at hlast
    obtain rfl : UInt8.ofNat c.val.toNat = b := Option.some.inj hlast
    refine ⟨rfl, ?_⟩
    have hnat : (UInt8.ofNat c.val.toNat).toNat = c.toNat := by
      rw [UInt8.toNat_ofNat']
      exact Nat.mod_eq_of_lt (by omega)
    rw [byteChar, hnat, Char.ofNat_toNat]
  · rename_i hlarge
    rw [if_neg hlarge] at hlast
    split at hlast
    · exact absurd (Option.some.inj hlast) (hbeyond _)
    · split at hlast
      · exact absurd (Option.some.inj hlast) (hbeyond _)
      · exact absurd (Option.some.inj hlast) (hbeyond _)

/-- An encoding that ends with an ASCII character is that of a text that does. -/
theorem exists_of_encode_concat {text : List Char} {front : Bytes} {b : UInt8}
    (hencode : encode text = front ++ [b]) (hascii : b < 0x80) :
    ∃ text', text = text' ++ [byteChar b] ∧ encode text' = front := by
  induction text using List.reverseRecOn with
  | nil => exact absurd hencode.symm (by simp [encode])
  | append_singleton text' c _ =>
      have hparts : encode (text' ++ [c]) = encode text' ++ String.utf8EncodeChar c := by
        simp [encode]
      have hlast : b ∈ (String.utf8EncodeChar c).getLast? := by
        have hall : (encode text' ++ String.utf8EncodeChar c).getLast? = some b := by
          rw [← hparts, hencode, List.getLast?_concat]
        rwa [List.getLast?_append_of_ne_nil _ String.utf8EncodeChar_ne_nil] at hall
      obtain ⟨hsingle, rfl⟩ := utf8EncodeChar_getLast c hlast hascii
      rw [hparts, hsingle] at hencode
      exact ⟨text', rfl, (List.append_inj' hencode rfl).1⟩

/-! ### Byte strings -/

theorem plain_of_not_needsQuotes (hplain : needsQuotes spaces p = false) {b : UInt8} (hb : b ∈ p) :
    mustEscape b = false := by
  have hnone := List.any_eq_false.mp hplain b hb
  simp only [Bool.or_eq_true, not_or] at hnone
  exact Bool.eq_false_iff.mpr hnone.1

theorem encode_spelled (hplain : needsQuotes spaces p = false) : encode (spelled p) = p := by
  have hbytes : ∀ b ∈ p, mustEscape b = false := fun b hb => plain_of_not_needsQuotes hplain hb
  clear hplain
  induction p with
  | nil => rfl
  | cons b p ih =>
      have hfirst : encode (spelled (b :: p)) = String.utf8EncodeChar (byteChar b) ++ encode (spelled p) :=
        rfl
      rw [hfirst, (plain_spec b (hbytes b List.mem_cons_self)).1,
        ih fun b' hb' => hbytes b' (List.mem_cons_of_mem b hb')]
      rfl

theorem length_le_length_encode (text : List Char) : text.length ≤ (encode text).length := by
  induction text with
  | nil => exact Nat.le_refl 0
  | cons c text ih =>
      have hcons : encode (c :: text) = String.utf8EncodeChar c ++ encode text := rfl
      have hpos : 0 < (String.utf8EncodeChar c).length :=
        List.length_pos_iff.mpr String.utf8EncodeChar_ne_nil
      rw [hcons, List.length_append, List.length_cons]
      omega

theorem length_lt_length_quoted (p : Bytes) : p.length < (quoted p).length := by
  have hle : p.length ≤ (p.flatMap escape).length := by
    induction p with
    | nil => exact Nat.le_refl 0
    | cons b p ih =>
        have hpos : 0 < (escape b).length := by
          rw [escape]
          split <;> simp
        rw [List.flatMap_cons, List.length_append, List.length_cons]
        omega
  rw [quoted, List.length_append, List.length_cons]
  omega

theorem encode_quoted_ne (p : Bytes) : encode (quoted p) ≠ p := by
  intro heq
  have hlong := length_lt_length_quoted p
  have hencode := length_le_length_encode (quoted p)
  rw [heq] at hencode
  omega

/-- A byte string is read back as it is exactly if it is written so. -/
theorem encode_render_iff : encode (render spaces p) = p ↔ needsQuotes spaces p = false := by
  rw [render]
  cases hquotes : needsQuotes spaces p with
  | true => exact iff_of_false (by simpa using encode_quoted_ne p) (by simp)
  | false => exact iff_of_true (by simpa using encode_spelled hquotes) rfl

theorem visible_render {c : Char} (hc : c ∈ render spaces p) : Visible c := by
  have hall : ∀ c ∈ p.flatMap escape, Visible c := by
    intro c hc
    obtain ⟨b, -, hb⟩ := List.mem_flatMap.mp hc
    exact visible_escape b c hb
  rw [render] at hc
  split at hc
  · rw [quoted, List.cons_append, List.mem_cons, List.mem_append, List.mem_singleton] at hc
    obtain rfl | hc | rfl := hc
    · decide
    · exact hall c hc
    · decide
  · rename_i hplain
    obtain ⟨b, hb, rfl⟩ := List.mem_map.mp hc
    have hescape := escape_of_plain (plain_of_not_needsQuotes (Bool.eq_false_iff.mpr hplain) hb)
    exact visible_escape b _ (by rw [hescape]; exact List.mem_singleton_self _)

theorem render_of_quotes (hquotes : needsQuotes spaces p = true) :
    render spaces p = '"' :: p.flatMap escape ++ ['"'] := if_pos hquotes

theorem render_of_plain (hplain : needsQuotes spaces p = false) : render spaces p = spelled p :=
  if_neg (by simp [hplain])

theorem render_eq_spelled_iff : render spaces p = spelled p ↔ needsQuotes spaces p = false := by
  constructor
  · intro heq
    cases hquotes : needsQuotes spaces p with
    | false => rfl
    | true =>
        have hlong := length_lt_length_quoted p
        rw [render, if_pos hquotes] at heq
        rw [heq, spelled, List.length_map] at hlong
        exact absurd hlong (Nat.lt_irrefl _)
  · exact render_of_plain

theorem ne_of_mem_spelled (hplain : needsQuotes spaces p = false) {c : Char} (hc : c ∈ spelled p) :
    c ≠ '"' ∧ c ≠ '\\' := by
  obtain ⟨b, hb, rfl⟩ := List.mem_map.mp hc
  exact (plain_spec b (plain_of_not_needsQuotes hplain hb)).2

end CQuote
