import Mathlib.Data.List.Basic
import Mathlib.Data.List.Forall2
import Mathlib.Data.List.TakeDrop
import Mathlib.Tactic.Common
import CoreMesh.Lib.Json

/-!
# The text of JSON

A text and its lexemes, with the blanks between them left out. What is found in the bytes of a text as
UTF-8 are characters, and bytes that are part of none: in a string such a byte stands for the replacement
character, and so does an escape that is one half of a surrogate pair. Writing lexemes and reading them
again gives them back, unless two numbers meet.
-/

namespace JsonText

/-- What is found in a text of bytes. -/
inductive Rune where
  | char (c : Char)
  | byte (b : UInt8)
  deriving DecidableEq

def Rune.length : Rune → ℕ
  | .char c => c.utf8Size
  | .byte _ => 1

def byteLength (text : List Rune) : ℕ := (text.map Rune.length).sum

/-- Every byte is part of a character. -/
def IsUtf8 (text : List Rune) : Prop := ∀ rune ∈ text, ∃ c, rune = .char c

/-! ### Strings -/

/-- A part of a string: a rune, a backslash and a letter, or a code unit by four digits. -/
inductive Piece where
  | plain (rune : Rune)
  | short (letter : Char)
  | code (a b c d : Char)
  deriving DecidableEq

def letterValue : Char → Option Char
  | '"' => some '"'
  | '\\' => some '\\'
  | '/' => some '/'
  | 'b' => some '\x08'
  | 'f' => some '\x0c'
  | 'n' => some '\n'
  | 'r' => some '\r'
  | 't' => some '\t'
  | _ => none

def hexValue (c : Char) : Option ℕ :=
  if 48 ≤ c.toNat ∧ c.toNat ≤ 57 then some (c.toNat - 48)
  else if 97 ≤ c.toNat ∧ c.toNat ≤ 102 then some (c.toNat - 87)
  else if 65 ≤ c.toNat ∧ c.toNat ≤ 70 then some (c.toNat - 55)
  else none

def codeUnit (a b c d : Char) : Option ℕ := do
  let a ← hexValue a
  let b ← hexValue b
  let c ← hexValue c
  let d ← hexValue d
  return 4096 * a + 256 * b + 16 * c + d

namespace Piece

def valid : Piece → Bool
  | .plain (.char c) => c != '"' && c != '\\' && decide (32 ≤ c.toNat)
  | .plain (.byte _) => true
  | .short letter => (letterValue letter).isSome
  | .code a b c d => (codeUnit a b c d).isSome

def text : Piece → List Rune
  | .plain rune => [rune]
  | .short letter => [.char '\\', .char letter]
  | .code a b c d => [.char '\\', .char 'u', .char a, .char b, .char c, .char d]

end Piece

/-- A piece in front of a text, if it is one. -/
def checked (p : Piece) (rest : List Rune) : Option (Piece × List Rune) :=
  if p.valid then some (p, rest) else none

/-- The piece that a backslash begins. -/
def escape : List Rune → Option (Piece × List Rune)
  | .char 'u' :: .char a :: .char b :: .char c :: .char d :: rest => checked (.code a b c d) rest
  | .char letter :: rest => checked (.short letter) rest
  | _ => none

def piece : List Rune → Option (Piece × List Rune)
  | [] => none
  | .char '\\' :: rest => escape rest
  | rune :: rest => checked (.plain rune) rest

/-- The pieces up to a quotation mark, and what is after it. -/
def pieces : ℕ → List Rune → Option (List Piece × List Rune)
  | 0, _ => none
  | fuel + 1, text =>
      match text with
      | .char '"' :: rest => some ([], rest)
      | text => do
          let (first, rest) ← piece text
          let (more, after) ← pieces fuel rest
          return (first :: more, after)

theorem checked_eq_some_iff {p p' : Piece} {rest rest' : List Rune} :
    checked p rest = some (p', rest') ↔ p.valid = true ∧ p = p' ∧ rest = rest' := by
  unfold checked
  split
  · next hvalid => simp [hvalid]
  · next hvalid => simp [hvalid]

theorem escape_short {letter : Char} (hvalid : (Piece.short letter).valid = true) (rest : List Rune) :
    escape (.char letter :: rest) = some (.short letter, rest) := by
  unfold escape
  split
  · next heq =>
      obtain rfl := Rune.char.inj (List.cons.inj heq).1
      exact absurd hvalid (by decide)
  · next heq =>
      obtain ⟨hletter, rfl⟩ := List.cons.inj heq
      obtain rfl := Rune.char.inj hletter
      exact checked_eq_some_iff.mpr ⟨hvalid, rfl, rfl⟩
  · next hnot => exact absurd rfl (hnot _ _)

theorem piece_plain {rune : Rune} (hvalid : (Piece.plain rune).valid = true) (rest : List Rune) :
    piece (rune :: rest) = some (.plain rune, rest) := by
  unfold piece
  split
  · next heq => cases heq
  · next heq =>
      obtain ⟨rfl, -⟩ := List.cons.inj heq
      exact absurd hvalid (by decide)
  · next heq =>
      obtain ⟨rfl, rfl⟩ := List.cons.inj heq
      exact checked_eq_some_iff.mpr ⟨hvalid, rfl, rfl⟩

theorem piece_text {p : Piece} (hvalid : p.valid = true) (rest : List Rune) :
    piece (p.text ++ rest) = some (p, rest) := by
  cases p with
  | plain rune => exact piece_plain hvalid rest
  | short letter => exact escape_short hvalid rest
  | code a b c d => exact checked_eq_some_iff.mpr ⟨hvalid, rfl, rfl⟩

/-- A piece that is read is one, and the text is that of the piece and the rest. -/
theorem piece_eq_some {p : Piece} {text rest : List Rune} (hpiece : piece text = some (p, rest)) :
    p.valid = true ∧ text = p.text ++ rest := by
  unfold piece at hpiece
  split at hpiece
  · cases hpiece
  · unfold escape at hpiece
    split at hpiece
    · obtain ⟨hvalid, rfl, rfl⟩ := checked_eq_some_iff.mp hpiece
      exact ⟨hvalid, rfl⟩
    · obtain ⟨hvalid, rfl, rfl⟩ := checked_eq_some_iff.mp hpiece
      exact ⟨hvalid, rfl⟩
    · cases hpiece
  · obtain ⟨hvalid, rfl, rfl⟩ := checked_eq_some_iff.mp hpiece
    exact ⟨hvalid, rfl⟩

/-- A piece does not begin with a quotation mark. -/
theorem pieces_succ {p : Piece} (hvalid : p.valid = true) (fuel : ℕ) (rest : List Rune) :
    pieces (fuel + 1) (p.text ++ rest) = (pieces fuel rest).map fun (more, after) => (p :: more, after) := by
  conv_lhs => unfold pieces
  split
  · next heq =>
      cases p with
      | plain rune =>
          obtain ⟨rfl, -⟩ := List.cons.inj heq
          exact absurd hvalid (by decide)
      | short letter => cases heq
      | code a b c d => cases heq
  · rw [piece_text hvalid]
    show (pieces fuel rest).bind _ = _
    cases pieces fuel rest <;> rfl

theorem pieces_text {ps : List Piece} (hvalid : ∀ p ∈ ps, p.valid = true) (rest : List Rune) {fuel : ℕ}
    (hfuel : ps.length < fuel) : pieces fuel (ps.flatMap Piece.text ++ .char '"' :: rest) = some (ps, rest) := by
  induction ps generalizing fuel with
  | nil =>
      cases fuel with
      | zero => cases hfuel
      | succ fuel => rfl
  | cons p more ih =>
      obtain ⟨hp, hmore⟩ := List.forall_mem_cons.mp hvalid
      cases fuel with
      | zero => cases hfuel
      | succ fuel =>
          rw [List.flatMap_cons, List.append_assoc, pieces_succ hp,
            ih hmore (Nat.lt_of_succ_lt_succ hfuel)]
          rfl

theorem pieces_eq_some {ps : List Piece} {fuel : ℕ} {text rest : List Rune}
    (hpieces : pieces fuel text = some (ps, rest)) :
    (∀ p ∈ ps, p.valid = true) ∧ text = ps.flatMap Piece.text ++ .char '"' :: rest := by
  induction fuel generalizing text ps with
  | zero => cases hpieces
  | succ fuel ih =>
      unfold pieces at hpieces
      split at hpieces
      · obtain ⟨rfl, rfl⟩ := Prod.mk.inj (Option.some.inj hpieces)
        exact ⟨by simp, rfl⟩
      · obtain ⟨⟨first, after⟩, hfirst, hbind⟩ := Option.bind_eq_some_iff.mp hpieces
        obtain ⟨⟨more, last⟩, hmore, heq⟩ := Option.bind_eq_some_iff.mp hbind
        obtain ⟨rfl, rfl⟩ := Prod.mk.inj (Option.some.inj heq)
        obtain ⟨hvalid, htext⟩ := ih hmore
        obtain ⟨hp, rfl⟩ := piece_eq_some hfirst
        refine ⟨List.forall_mem_cons.mpr ⟨hp, hvalid⟩, ?_⟩
        rw [htext, List.flatMap_cons, List.append_assoc]

/-! ### What a string stands for -/

def isHigh (unit : ℕ) : Bool := decide (0xd800 ≤ unit ∧ unit < 0xdc00)

def isLow (unit : ℕ) : Bool := decide (0xdc00 ≤ unit ∧ unit < 0xe000)

/-- The code unit of an escape by digits. -/
def Piece.unit : Piece → Option ℕ
  | .code a b c d => codeUnit a b c d
  | _ => none

/-- The character of a piece, unless it is a part of a pair. -/
def Piece.value : Piece → Char
  | .plain (.char c) => c
  | .plain (.byte _) => '\ufffd'
  | .short letter => (letterValue letter).getD letter
  | .code a b c d =>
      let unit := (codeUnit a b c d).getD 0
      if isHigh unit || isLow unit then '\ufffd' else Char.ofNat unit

/-- The character of two escapes that are a surrogate pair. -/
def pair (first second : Piece) : Option Char := do
  let high ← first.unit
  let low ← second.unit
  if isHigh high && isLow low then return Char.ofNat (0x10000 + 0x400 * (high - 0xd800) + (low - 0xdc00))
  else none

def unquote : List Piece → List Char
  | [] => []
  | [p] => [p.value]
  | first :: second :: rest =>
      match pair first second with
      | some c => c :: unquote rest
      | none => first.value :: unquote (second :: rest)

/-- A piece that stands for the same: it itself, or an escape of the character that it is. -/
inductive Alike : Piece → Piece → Prop where
  | refl (p : Piece) : Alike p p
  | short {c letter : Char} (hletter : letterValue letter = some c) : Alike (.plain (.char c)) (.short letter)
  | code {c : Char} {a b d e : Char} (hunit : codeUnit a b d e = some c.toNat) :
      Alike (.plain (.char c)) (.code a b d e)

theorem not_surrogate (c : Char) : isHigh c.toNat = false ∧ isLow c.toNat = false := by
  have hvalid : c.toNat < 0xd800 ∨ 0xdfff < c.toNat ∧ c.toNat < 0x110000 := c.valid
  unfold isHigh isLow
  rw [decide_eq_false_iff_not, decide_eq_false_iff_not]
  omega

theorem Alike.value {p q : Piece} (halike : Alike p q) : q.value = p.value := by
  cases halike with
  | refl => rfl
  | short hletter =>
      rw [Piece.value, Piece.value, hletter]
      rfl
  | @code c a b d e hunit =>
      obtain ⟨hhigh, hlow⟩ := not_surrogate c
      simp only [Piece.value, hunit, Option.getD_some, hhigh, hlow, Bool.or_self, Bool.false_eq_true, if_false]
      exact Char.ofNat_toNat c

/-- They have one code unit, or what units they have are of characters. -/
theorem Alike.unit {p q : Piece} (halike : Alike p q) :
    q.unit = p.unit ∨ ∀ r, r = p ∨ r = q → ∀ unit ∈ r.unit, isHigh unit = false ∧ isLow unit = false := by
  cases halike with
  | refl => exact .inl rfl
  | short hletter => exact .inl rfl
  | @code c a b d e hunit =>
      right
      intro r hr unit hmem
      obtain rfl | rfl := hr
      · cases hmem
      · obtain rfl : c.toNat = unit := Option.some.inj (hunit.symm.trans hmem)
        exact not_surrogate c

theorem pair_eq_none {first second : Piece} (hnone : ∀ high ∈ first.unit, ∀ low ∈ second.unit,
    (isHigh high && isLow low) = false) : pair first second = none := by
  unfold pair
  cases hfirst : first.unit with
  | none => rfl
  | some high =>
      cases hsecond : second.unit with
      | none => rfl
      | some low =>
          show (if (isHigh high && isLow low) = true then some _ else none) = none
          rw [hnone high hfirst low hsecond]
          rfl

/-- Two pieces are a pair if they are alike to one. -/
theorem Alike.pair {p q p' q' : Piece} (hfirst : Alike p p') (hsecond : Alike q q') :
    pair p' q' = pair p q := by
  obtain hsame | hplain := hfirst.unit
  · obtain hsame' | hplain := hsecond.unit
    · rw [JsonText.pair, JsonText.pair, hsame, hsame']
    · rw [pair_eq_none, pair_eq_none]
      · intro high _ low hlow
        rw [(hplain q (.inl rfl) low hlow).2, Bool.and_false]
      · intro high _ low hlow
        rw [(hplain q' (.inr rfl) low hlow).2, Bool.and_false]
  · rw [pair_eq_none, pair_eq_none]
    · intro high hhigh low _
      rw [(hplain p (.inl rfl) high hhigh).1, Bool.false_and]
    · intro high hhigh low _
      rw [(hplain p' (.inr rfl) high hhigh).1, Bool.false_and]

theorem unquote_eq {ps qs : List Piece} (halike : List.Forall₂ Alike ps qs) : unquote qs = unquote ps := by
  induction ps using unquote.induct generalizing qs with
  | case1 =>
      cases halike
      rfl
  | case2 p =>
      obtain ⟨q, rest, hq, hrest, rfl⟩ := List.forall₂_cons_left_iff.mp halike
      cases hrest
      show [q.value] = [p.value]
      rw [hq.value]
  | case3 first second rest c hpair ih =>
      obtain ⟨first', more, hfirst, hmore, rfl⟩ := List.forall₂_cons_left_iff.mp halike
      obtain ⟨second', rest', hsecond, hrest, rfl⟩ := List.forall₂_cons_left_iff.mp hmore
      simp only [unquote, hfirst.pair hsecond, hpair, ih hrest]
  | case4 first second rest hpair ih =>
      obtain ⟨first', more, hfirst, hmore, rfl⟩ := List.forall₂_cons_left_iff.mp halike
      have hrest := ih hmore
      obtain ⟨second', rest', hsecond, -, rfl⟩ := List.forall₂_cons_left_iff.mp hmore
      rw [unquote, unquote, hfirst.pair hsecond, hpair, hfirst.value, hrest]

/-- Characters as they are. -/
theorem unquote_plain (text : List Char) : unquote (text.map fun c => .plain (.char c)) = text := by
  induction text with
  | nil => rfl
  | cons c rest ih =>
      cases rest with
      | nil => rfl
      | cons d rest =>
          have hpair : pair (.plain (.char c)) (.plain (.char d)) = none := rfl
          rw [List.map_cons, List.map_cons, unquote, hpair]
          exact congrArg _ ih

/-! ### Lexemes -/

inductive Mark where
  | openList
  | closeList
  | openObject
  | closeObject
  | comma
  | colon
  deriving DecidableEq

def Mark.char : Mark → Char
  | .openList => '['
  | .closeList => ']'
  | .openObject => '{'
  | .closeObject => '}'
  | .comma => ','
  | .colon => ':'

def markOf : Char → Option Mark
  | '[' => some .openList
  | ']' => some .closeList
  | '{' => some .openObject
  | '}' => some .closeObject
  | ',' => some .comma
  | ':' => some .colon
  | _ => none

inductive Lexeme where
  | mark (mark : Mark)
  | null
  | bool (value : Bool)
  | number (literal : List Char)
  | string (pieces : List Piece)
  deriving DecidableEq

def isNumberChar (c : Char) : Bool := c.isDigit || "+-.eE".toList.contains c

/-- Before the mark at which `span` stops, the mark, and after it. -/
theorem forall_of_span (p q : Char → Bool) {cs : List Char} (hbefore : ∀ c ∈ (cs.span p).1, q c = true)
    (hmark : ∀ c, p c = false → q c = true) (hafter : ∀ c ∈ (cs.span p).2.drop 1, q c = true) :
    ∀ c ∈ cs, q c = true := by
  rw [List.span_eq_takeWhile_dropWhile] at hbefore hafter
  intro c hc
  rw [← @List.takeWhile_append_dropWhile _ p cs, List.mem_append] at hc
  obtain htake | hdrop := hc
  · exact hbefore c htake
  · have hfirst := List.head?_dropWhile_not p cs
    cases hrest : cs.dropWhile p with
    | nil =>
        rw [hrest] at hdrop
        cases hdrop
    | cons mark rest =>
        rw [hrest] at hdrop hfirst hafter
        obtain rfl | hmem := List.mem_cons.mp hdrop
        · exact hmark c hfirst
        · exact hafter c hmem

theorem isNumberChar_of_all {digits : List Char} (hdigits : digits.all Char.isDigit = true) :
    ∀ c ∈ digits, isNumberChar c = true := by
  intro c hc
  unfold isNumberChar
  rw [List.all_eq_true.mp hdigits c hc, Bool.true_or]

theorem isNumberChar_of_isNumber {literal : String} (hliteral : Json.isNumber literal = true) :
    literal.toList ≠ [] ∧ ∀ c ∈ literal.toList, isNumberChar c = true := by
  unfold Json.isNumber at hliteral
  extract_lets digits unsigned at hliteral
  simp only [Bool.and_eq_true, Bool.or_eq_true] at hliteral
  obtain ⟨⟨⟨hwhole, -⟩, hfraction⟩, hexponent⟩ := hliteral
  have hdigits {cs : List Char} (hcs : digits cs = true) : ∀ c ∈ cs, isNumberChar c = true :=
    isNumberChar_of_all (Bool.and_eq_true_iff.mp hcs).2
  have hchars : ∀ c ∈ unsigned, isNumberChar c = true := by
    apply forall_of_span fun c => !(c == 'e' || c == 'E')
    · apply forall_of_span (· != '.')
      · exact hdigits hwhole
      · intro c hc
        obtain rfl : c = '.' := by simpa using hc
        decide
      · obtain hnone | hsome := hfraction
        · rw [List.isEmpty_iff.mp hnone]
          simp
        · exact hdigits hsome
    · intro c hc
      obtain rfl | rfl : c = 'e' ∨ c = 'E' := by simpa [or_iff_not_imp_left] using hc
      · decide
      · decide
    · obtain hnone | hsome := hexponent
      · rw [List.isEmpty_iff.mp hnone]
        simp
      · split at hsome
        · next hsign =>
            rw [hsign]
            exact List.forall_mem_cons.mpr ⟨by decide, hdigits hsome⟩
        · next hsign =>
            rw [hsign]
            exact List.forall_mem_cons.mpr ⟨by decide, hdigits hsome⟩
        · exact hdigits hsome
  have hne : unsigned ≠ [] := by
    intro hnil
    rw [hnil] at hwhole
    exact absurd hwhole (by decide)
  by_cases hsign : ∃ rest, literal.toList = '-' :: rest
  · obtain ⟨rest, hrest⟩ := hsign
    have hunsigned : unsigned = rest := by
      unfold unsigned
      rw [hrest]
      rfl
    rw [hrest, ← hunsigned]
    exact ⟨List.cons_ne_nil _ _, List.forall_mem_cons.mpr ⟨by decide, hchars⟩⟩
  · have hunsigned : unsigned = literal.toList := by
      unfold unsigned
      split
      · next rest hrest => exact absurd ⟨rest, hrest⟩ hsign
      · rfl
    rw [← hunsigned]
    exact ⟨hne, hchars⟩

namespace Lexeme

def valid : Lexeme → Bool
  | .number literal => Json.isNumber (String.ofList literal) && literal.all isNumberChar
  | .string pieces => pieces.all Piece.valid
  | _ => true

def text : Lexeme → List Rune
  | .mark m => [.char m.char]
  | .null => "null".toList.map .char
  | .bool true => "true".toList.map .char
  | .bool false => "false".toList.map .char
  | .number literal => literal.map .char
  | .string pieces => .char '"' :: (pieces.flatMap Piece.text ++ [.char '"'])

def isNumber : Lexeme → Bool
  | .number _ => true
  | _ => false

end Lexeme

/-- The longest text that could be a number, and what is after it. -/
def numberText : List Rune → List Char × List Rune
  | .char c :: rest =>
      if isNumberChar c then (c :: (numberText rest).1, (numberText rest).2) else ([], .char c :: rest)
  | text => ([], text)

/-- A lexeme that is a word, if the text begins with it. -/
def word (text : List Rune) : Option (Lexeme × List Rune) :=
  ([.null, .bool true, .bool false].find? fun l => l.text.isPrefixOf text).map fun l =>
    (l, text.drop l.text.length)

def lexeme : List Rune → Option (Lexeme × List Rune)
  | .char c :: rest =>
      if c = '"' then (pieces (rest.length + 1) rest).map fun (ps, after) => (.string ps, after)
      else if isNumberChar c then
        let (literal, after) := numberText (.char c :: rest)
        if Json.isNumber (String.ofList literal) then some (.number literal, after) else none
      else
        match markOf c with
        | some m => some (.mark m, rest)
        | none => word (.char c :: rest)
  | _ => none

def isBlank : Rune → Bool
  | .char c => c == ' ' || c == '\t' || c == '\r' || c == '\n'
  | .byte _ => false

def lexemes : ℕ → List Rune → Option (List Lexeme)
  | 0, _ => none
  | fuel + 1, text =>
      match text.dropWhile isBlank with
      | [] => some []
      | text => do
          let (first, rest) ← lexeme text
          let more ← lexemes fuel rest
          return first :: more

/-- The lexemes of a text. -/
def lex (text : List Rune) : Option (List Lexeme) := lexemes (text.length + 1) text

/-! ### Reading one lexeme -/

theorem length_le_flatMap {α β : Type} {f : α → List β} {l : List α} (hf : ∀ a ∈ l, f a ≠ []) :
    l.length ≤ (l.flatMap f).length := by
  induction l with
  | nil => simp
  | cons a rest ih =>
      obtain ⟨ha, hrest⟩ := List.forall_mem_cons.mp hf
      have hpos := List.length_pos_iff.mpr ha
      have hle := ih hrest
      rw [List.flatMap_cons, List.length_append, List.length_cons]
      omega

theorem Piece.text_ne_nil (p : Piece) : p.text ≠ [] := by
  cases p <;> exact List.cons_ne_nil _ _

/-- No number goes on in the text. -/
def Stops (text : List Rune) : Prop := ∀ c ∈ text.head?, ∀ d, c = .char d → isNumberChar d = false

theorem numberText_append {literal : List Char} (hliteral : ∀ c ∈ literal, isNumberChar c = true)
    {rest : List Rune} (hstops : Stops rest) : numberText (literal.map .char ++ rest) = (literal, rest) := by
  induction literal with
  | nil =>
      unfold numberText
      split
      · next c more heq =>
          have hc : isNumberChar c = false := by
            apply hstops (.char c) _ c rfl
            rw [show rest = .char c :: more from heq]
            rfl
          rw [hc]
          exact Prod.ext rfl heq.symm
      · rfl
  | cons c more ih =>
      obtain ⟨hc, hmore⟩ := List.forall_mem_cons.mp hliteral
      show numberText (.char c :: (more.map .char ++ rest)) = _
      rw [numberText, if_pos hc, ih hmore]

theorem numberText_eq (text : List Rune) :
    text = (numberText text).1.map .char ++ (numberText text).2 ∧
      ∀ c ∈ (numberText text).1, isNumberChar c = true := by
  induction text with
  | nil => exact ⟨rfl, by simp [numberText]⟩
  | cons rune rest ih =>
      cases rune with
      | byte b => exact ⟨rfl, by simp [numberText]⟩
      | char c =>
          unfold numberText
          split
          · next hc =>
              refine ⟨?_, List.forall_mem_cons.mpr ⟨hc, ih.2⟩⟩
              rw [List.map_cons, List.cons_append, ← ih.1]
          · exact ⟨rfl, by simp⟩

theorem word_text {l : Lexeme} (hword : l ∈ [Lexeme.null, .bool true, .bool false]) (rest : List Rune) :
    word (l.text ++ rest) = some (l, rest) := by
  simp only [List.mem_cons, List.not_mem_nil, or_false] at hword
  obtain rfl | rfl | rfl := hword <;> rfl

theorem word_eq_some {l : Lexeme} {text rest : List Rune} (hword : word text = some (l, rest)) :
    l.valid = true ∧ text = l.text ++ rest := by
  obtain ⟨l', hfind, heq⟩ := Option.map_eq_some_iff.mp hword
  obtain ⟨rfl, rfl⟩ := Prod.mk.inj heq
  have hprefix := List.find?_some hfind
  have hmem := List.mem_of_find?_eq_some hfind
  constructor
  · simp only [List.mem_cons, List.not_mem_nil, or_false] at hmem
    obtain rfl | rfl | rfl := hmem <;> rfl
  · exact (List.prefix_iff_eq_append.mp (List.isPrefixOf_iff_prefix.mp hprefix)).symm

theorem markOf_char (m : Mark) : markOf m.char = some m := by
  cases m <;> rfl

theorem markOf_eq_some {c : Char} {m : Mark} (hmark : markOf c = some m) : c = m.char := by
  unfold markOf at hmark
  split at hmark <;> cases hmark <;> rfl

/-- What a number begins with begins no other lexeme. -/
theorem lexeme_number {c : Char} (hc : isNumberChar c = true) (rest : List Rune) :
    lexeme (.char c :: rest) =
      if Json.isNumber (String.ofList (numberText (.char c :: rest)).1) then
        some (.number (numberText (.char c :: rest)).1, (numberText (.char c :: rest)).2)
      else none := by
  have hne : c ≠ '"' := by
    rintro rfl
    exact absurd hc (by decide)
  rw [lexeme, if_neg hne, if_pos hc]

theorem lexeme_word {l : Lexeme} (hword : l ∈ [Lexeme.null, .bool true, .bool false]) (rest : List Rune) :
    lexeme (l.text ++ rest) = some (l, rest) := by
  have hhead : ∃ c more, l.text = .char c :: more ∧ c ≠ '"' ∧ ¬isNumberChar c = true ∧ markOf c = none := by
    simp only [List.mem_cons, List.not_mem_nil, or_false] at hword
    obtain rfl | rfl | rfl := hword
    · exact ⟨'n', _, rfl, by decide, by decide, rfl⟩
    · exact ⟨'t', _, rfl, by decide, by decide, rfl⟩
    · exact ⟨'f', _, rfl, by decide, by decide, rfl⟩
  obtain ⟨c, more, htext, hquote, hnumber, hmark⟩ := hhead
  have hread := word_text hword rest
  rw [htext, List.cons_append] at hread ⊢
  rw [lexeme, if_neg hquote, if_neg hnumber, hmark]
  exact hread

theorem lexeme_text {l : Lexeme} (hvalid : l.valid = true) {rest : List Rune}
    (hstops : l.isNumber = true → Stops rest) : lexeme (l.text ++ rest) = some (l, rest) := by
  cases l with
  | mark m =>
      show lexeme (.char m.char :: rest) = _
      have hne : m.char ≠ '"' ∧ ¬isNumberChar m.char = true := by
        cases m <;> decide
      rw [lexeme, if_neg hne.1, if_neg hne.2, markOf_char]
  | null => exact lexeme_word (by simp) rest
  | bool value =>
      cases value with
      | false => exact lexeme_word (by simp) rest
      | true => exact lexeme_word (by simp) rest
  | number literal =>
      obtain ⟨hnumber, hall⟩ := Bool.and_eq_true_iff.mp hvalid
      rw [List.all_eq_true] at hall
      have hread := numberText_append hall (hstops rfl)
      cases literal with
      | nil => exact absurd hnumber (by decide)
      | cons c more =>
          rw [Lexeme.text, List.map_cons, List.cons_append] at *
          rw [lexeme_number (hall c List.mem_cons_self), hread, if_pos hnumber]
  | string ps =>
      have hps : ∀ p ∈ ps, p.valid = true := List.all_eq_true.mp hvalid
      have hlength := length_le_flatMap fun p (_ : p ∈ ps) => Piece.text_ne_nil p
      have hread : pieces ((ps.flatMap Piece.text ++ .char '"' :: rest).length + 1)
          (ps.flatMap Piece.text ++ .char '"' :: rest) = some (ps, rest) := by
        apply pieces_text hps
        rw [List.length_append]
        omega
      rw [Lexeme.text, List.cons_append, List.append_assoc, lexeme, if_pos rfl, List.singleton_append, hread]
      rfl

/-- A lexeme that is read is one, and the text is that of the lexeme and the rest. -/
theorem lexeme_eq_some {l : Lexeme} {text rest : List Rune} (hlexeme : lexeme text = some (l, rest)) :
    l.valid = true ∧ text = l.text ++ rest := by
  unfold lexeme at hlexeme
  split at hlexeme
  · next c more =>
      split at hlexeme
      · next hquote =>
          obtain ⟨⟨ps, after⟩, hpieces, heq⟩ := Option.map_eq_some_iff.mp hlexeme
          obtain ⟨rfl, rfl⟩ := Prod.mk.inj heq
          obtain ⟨hvalid, htext⟩ := pieces_eq_some hpieces
          refine ⟨List.all_eq_true.mpr hvalid, ?_⟩
          rw [hquote, Lexeme.text, List.cons_append, List.append_assoc, List.singleton_append, ← htext]
      · split at hlexeme
        · obtain ⟨htext, hall⟩ := numberText_eq (.char c :: more)
          dsimp only at hlexeme
          split at hlexeme
          · next hnumber =>
              obtain ⟨rfl, rfl⟩ := Prod.mk.inj (Option.some.inj hlexeme)
              refine ⟨?_, htext⟩
              rw [Lexeme.valid, hnumber, Bool.true_and, List.all_eq_true]
              exact hall
          · cases hlexeme
        · split at hlexeme
          · next m hmark =>
              obtain ⟨rfl, rfl⟩ := Prod.mk.inj (Option.some.inj hlexeme)
              refine ⟨rfl, ?_⟩
              rw [markOf_eq_some hmark]
              rfl
          · exact word_eq_some hlexeme
  · cases hlexeme

/-! ### Reading a text -/

/-- No two numbers meet. -/
def Apart (ls : List Lexeme) : Prop := ls.IsChain fun l l' => (l.isNumber && l'.isNumber) = false

/-- What a lexeme begins with. -/
theorem Lexeme.head_text {l : Lexeme} (hvalid : l.valid = true) :
    ∃ c rest, l.text = .char c :: rest ∧ isBlank (.char c) = false ∧
      (l.isNumber = false → isNumberChar c = false) := by
  cases l with
  | mark m => exact ⟨m.char, [], rfl, by cases m <;> decide, fun _ => by cases m <;> decide⟩
  | null => exact ⟨'n', _, rfl, by decide, fun _ => by decide⟩
  | bool value =>
      cases value with
      | false => exact ⟨'f', _, rfl, by decide, fun _ => by decide⟩
      | true => exact ⟨'t', _, rfl, by decide, fun _ => by decide⟩
  | number literal =>
      obtain ⟨hnumber, hall⟩ := Bool.and_eq_true_iff.mp hvalid
      cases literal with
      | nil => exact absurd hnumber (by decide)
      | cons c more =>
          refine ⟨c, more.map .char, rfl, ?_, fun hnot => by cases hnot⟩
          have hc : isNumberChar c = true := List.all_eq_true.mp hall c List.mem_cons_self
          by_contra hblank
          rw [Bool.not_eq_false] at hblank
          simp only [isBlank, Bool.or_eq_true, beq_iff_eq] at hblank
          obtain ((rfl | rfl) | rfl) | rfl := hblank <;> exact absurd hc (by decide)
  | string ps => exact ⟨'"', _, rfl, by decide, fun _ => by decide⟩

theorem lexemes_flatMap {ls : List Lexeme} (hvalid : ∀ l ∈ ls, l.valid = true) (hapart : Apart ls) {fuel : ℕ}
    (hfuel : ls.length < fuel) : lexemes fuel (ls.flatMap Lexeme.text) = some ls := by
  induction ls generalizing fuel with
  | nil =>
      cases fuel with
      | zero => cases hfuel
      | succ fuel => rfl
  | cons l more ih =>
      obtain ⟨hl, hmore⟩ := List.forall_mem_cons.mp hvalid
      cases fuel with
      | zero => cases hfuel
      | succ fuel =>
          obtain ⟨c, rest, htext, hblank, -⟩ := Lexeme.head_text hl
          have hstops : l.isNumber = true → Stops (more.flatMap Lexeme.text) := by
            intro hnumber
            cases more with
            | nil => intro d hd; cases hd
            | cons next last =>
                obtain ⟨d, after, hnext, -, hd⟩ := Lexeme.head_text (hmore next List.mem_cons_self)
                have hboth := (List.isChain_cons_cons.mp hapart).1
                rw [hnumber, Bool.true_and] at hboth
                intro rune hrune e he
                rw [List.flatMap_cons, hnext, List.cons_append, List.head?_cons] at hrune
                obtain rfl := Option.some.inj hrune
                obtain rfl := Rune.char.inj he
                exact hd hboth
          have hread := lexeme_text hl hstops
          have hskip : ((l :: more).flatMap Lexeme.text).dropWhile isBlank = (l :: more).flatMap Lexeme.text := by
            rw [List.flatMap_cons, htext, List.cons_append, List.dropWhile_cons, hblank]
            rfl
          unfold lexemes
          rw [hskip]
          split
          · next hnil =>
              rw [List.flatMap_cons, htext] at hnil
              cases hnil
          · rw [List.flatMap_cons, hread]
            show (lexemes fuel (more.flatMap Lexeme.text)).bind _ = _
            rw [ih hmore hapart.of_cons (Nat.lt_of_succ_lt_succ hfuel)]
            rfl

/-- Lexemes that are written are read again. -/
theorem lex_flatMap {ls : List Lexeme} (hvalid : ∀ l ∈ ls, l.valid = true) (hapart : Apart ls) :
    lex (ls.flatMap Lexeme.text) = some ls := by
  have hlength : ls.length ≤ (ls.flatMap Lexeme.text).length := by
    apply length_le_flatMap
    intro l hl
    obtain ⟨c, rest, htext, -, -⟩ := Lexeme.head_text (hvalid l hl)
    rw [htext]
    exact List.cons_ne_nil _ _
  exact lexemes_flatMap hvalid hapart (Nat.lt_succ_of_le hlength)

/-- The lexemes that are read are in the text. -/
theorem lexemes_eq_some {ls : List Lexeme} {fuel : ℕ} {text : List Rune} (hls : lexemes fuel text = some ls) :
    ∀ l ∈ ls, l.valid = true ∧ ∀ rune ∈ l.text, rune ∈ text := by
  induction fuel generalizing text ls with
  | zero => cases hls
  | succ fuel ih =>
      unfold lexemes at hls
      split at hls
      · obtain rfl := Option.some.inj hls
        simp
      · next heq _ =>
          obtain ⟨⟨first, rest⟩, hfirst, hbind⟩ := Option.bind_eq_some_iff.mp hls
          obtain ⟨more, hmore, hcons⟩ := Option.bind_eq_some_iff.mp hbind
          obtain rfl := Option.some.inj hcons
          obtain ⟨hvalid, htext⟩ := lexeme_eq_some hfirst
          have hsub : ∀ rune ∈ first.text ++ rest, rune ∈ text := by
            intro rune hrune
            rw [← htext] at hrune
            exact (List.dropWhile_sublist isBlank).subset hrune
          refine List.forall_mem_cons.mpr ⟨⟨hvalid, ?_⟩, ?_⟩
          · intro rune hrune
            exact hsub rune (List.mem_append_left _ hrune)
          · intro l hl
            obtain ⟨hvalid', hin⟩ := ih hmore l hl
            refine ⟨hvalid', fun rune hrune => ?_⟩
            exact hsub rune (List.mem_append_right _ (hin rune hrune))

end JsonText
