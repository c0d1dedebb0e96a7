import CoreMesh.Lib.JsonReading

/-!
# Writing JSON in ASCII

The compact text of a value, without blanks and with an escape for every character outside ASCII. Reading
the text gives the value back, so two values have one text only if they are one.
-/

namespace JsonText

/-! ### Characters -/

/-- A code unit by four digits. -/
def codePiece (unit : ℕ) : Piece :=
  .code (Nat.digitChar (unit / 4096 % 16)) (Nat.digitChar (unit / 256 % 16))
    (Nat.digitChar (unit / 16 % 16)) (Nat.digitChar (unit % 16))

/-- The letter that a character is written by, behind a backslash. -/
def escapeLetter : Char → Option Char
  | '"' => some '"'
  | '\\' => some '\\'
  | '\x08' => some 'b'
  | '\x0c' => some 'f'
  | '\n' => some 'n'
  | '\r' => some 'r'
  | '\t' => some 't'
  | _ => none

/-- A character in ASCII; one outside the basic plane is a surrogate pair. -/
def asciiPieces (c : Char) : List Piece :=
  match escapeLetter c with
  | some letter => [.short letter]
  | none =>
      if 32 ≤ c.toNat ∧ c.toNat < 127 then [.plain (.char c)]
      else if c.toNat < 0x10000 then [codePiece c.toNat]
      else [codePiece (0xd800 + (c.toNat - 0x10000) / 0x400),
        codePiece (0xdc00 + (c.toNat - 0x10000) % 0x400)]

theorem unit_codePiece {unit : ℕ} (hunit : unit < 0x10000) : (codePiece unit).unit = some unit := by
  have hdigit : ∀ a < 16, hexValue (Nat.digitChar a) = some a := by decide
  show codeUnit _ _ _ _ = _
  rw [codeUnit, hdigit _ (Nat.mod_lt _ (by omega)), hdigit _ (Nat.mod_lt _ (by omega)),
    hdigit _ (Nat.mod_lt _ (by omega)), hdigit _ (Nat.mod_lt _ (by omega))]
  show some (4096 * (unit / 4096 % 16) + 256 * (unit / 256 % 16) + 16 * (unit / 16 % 16) + unit % 16) =
    some unit
  exact congrArg some (by omega)

theorem escapeLetter_eq_some {c letter : Char} (hletter : escapeLetter c = some letter) :
    letterValue letter = some c := by
  unfold escapeLetter at hletter
  split at hletter <;> cases hletter <;> rfl

/-- What has no half of a pair in front stands alone. -/
theorem unquote_cons {p : Piece} (hunit : ∀ unit ∈ p.unit, isHigh unit = false) (rest : List Piece) :
    unquote (p :: rest) = p.value :: unquote rest := by
  cases rest with
  | nil => rfl
  | cons second rest =>
      have hpair : pair p second = none := by
        apply pair_eq_none
        intro high hhigh low _
        rw [hunit high hhigh, Bool.false_and]
      rw [unquote, hpair]

theorem unquote_cons_of_alike {c : Char} {p : Piece} (halike : Alike (.plain (.char c)) p)
    (rest : List Piece) : unquote (p :: rest) = c :: unquote rest := by
  rw [unquote_cons, halike.value]
  · rfl
  · intro unit hunit
    obtain hsame | hplain := halike.unit
    · rw [hsame] at hunit
      cases hunit
    · exact (hplain p (.inr rfl) unit hunit).1

theorem pair_of_units {first second : Piece} {high low : ℕ} (hfirst : first.unit = some high)
    (hsecond : second.unit = some low) (hhigh : isHigh high = true) (hlow : isLow low = true) :
    pair first second = some (Char.ofNat (0x10000 + 0x400 * (high - 0xd800) + (low - 0xdc00))) := by
  rw [pair, hfirst, hsecond]
  show (if (isHigh high && isLow low) = true then some _ else none) = _
  rw [hhigh, hlow, Bool.and_self, if_pos rfl]

theorem pair_codePiece {c : Char} (hc : 0x10000 ≤ c.toNat) :
    pair (codePiece (0xd800 + (c.toNat - 0x10000) / 0x400))
      (codePiece (0xdc00 + (c.toNat - 0x10000) % 0x400)) = some c := by
  have hvalid : c.toNat < 0xd800 ∨ 0xdfff < c.toNat ∧ c.toNat < 0x110000 := c.valid
  obtain ⟨high, hhigh⟩ : ∃ high, high = (c.toNat - 0x10000) / 0x400 := ⟨_, rfl⟩
  obtain ⟨low, hlow⟩ : ∃ low, low = (c.toNat - 0x10000) % 0x400 := ⟨_, rfl⟩
  rw [← hhigh, ← hlow, pair_of_units (unit_codePiece (by omega)) (unit_codePiece (by omega))]
  · have hcode : 0x10000 + 0x400 * (0xd800 + high - 0xd800) + (0xdc00 + low - 0xdc00) = c.toNat := by
      omega
    rw [hcode, Char.ofNat_toNat]
  · rw [isHigh, decide_eq_true_eq]
    omega
  · rw [isLow, decide_eq_true_eq]
    omega

theorem unquote_asciiPieces_append (c : Char) (rest : List Piece) :
    unquote (asciiPieces c ++ rest) = c :: unquote rest := by
  rw [asciiPieces]
  split
  · next letter hletter => exact unquote_cons_of_alike (.short (escapeLetter_eq_some hletter)) rest
  · split
    · exact unquote_cons_of_alike (.refl _) rest
    · split
      · next hsmall => exact unquote_cons_of_alike (.code (unit_codePiece hsmall)) rest
      · next hlarge =>
          rw [List.cons_append, List.cons_append, List.nil_append, unquote,
            pair_codePiece (Nat.le_of_not_lt hlarge)]

theorem unquote_flatMap_asciiPieces (text : List Char) : unquote (text.flatMap asciiPieces) = text := by
  induction text with
  | nil => rfl
  | cons c rest ih => rw [List.flatMap_cons, unquote_asciiPieces_append, ih]

theorem valid_codePiece {unit : ℕ} (hunit : unit < 0x10000) : (codePiece unit).valid = true := by
  show (codePiece unit).unit.isSome = true
  rw [unit_codePiece hunit]
  rfl

theorem valid_asciiPieces (c : Char) : ∀ p ∈ asciiPieces c, p.valid = true := by
  intro p hp
  rw [asciiPieces] at hp
  split at hp
  · next letter hletter =>
      rw [List.mem_singleton.mp hp, Piece.valid, escapeLetter_eq_some hletter]
      rfl
  · next hletter =>
      split at hp
      · next hplain =>
          have hquote : c ≠ '"' := by
            rintro rfl
            cases hletter
          have hbackslash : c ≠ '\\' := by
            rintro rfl
            cases hletter
          rw [List.mem_singleton.mp hp]
          simp [Piece.valid, hquote, hbackslash, hplain.1]
      · split at hp
        · next hsmall =>
            rw [List.mem_singleton.mp hp]
            exact valid_codePiece hsmall
        · have hvalid : c.toNat < 0xd800 ∨ 0xdfff < c.toNat ∧ c.toNat < 0x110000 := c.valid
          obtain rfl | hp := List.mem_cons.mp hp
          · exact valid_codePiece (by omega)
          · rw [List.mem_singleton.mp hp]
            exact valid_codePiece (by omega)

/-! ### Values -/

def asciiString (text : String) : Lexeme := .string (text.toList.flatMap asciiPieces)

mutual

/-- The lexemes of a value. -/
def write : Json → List Lexeme
  | .null => [.null]
  | .bool value => [.bool value]
  | .num literal => [.number literal.toList]
  | .str value => [asciiString value]
  | .arr items => .mark .openList :: joined .closeList (writeItems items)
  | .obj members => .mark .openObject :: joined .closeObject (writeMembers members)

def writeItems : List Json → List (List Lexeme)
  | [] => []
  | item :: items => write item :: writeItems items

def writeMembers : List (String × Json) → List (List Lexeme)
  | [] => []
  | (key, item) :: members =>
      (asciiString key :: .mark .colon :: write item) :: writeMembers members

end

/-- The characters of a text. -/
def chars (text : List Rune) : List Char :=
  text.filterMap fun rune =>
    match rune with
    | .char c => some c
    | .byte _ => none

def asciiText (v : Json) : List Char := chars ((write v).flatMap Lexeme.text)

/-! ### Reading what is written -/

/-- A lexeme that can be read, and that is written in characters. -/
structure Lexeme.IsWritten (l : Lexeme) : Prop where
  valid : l.valid = true
  plain : ∀ rune ∈ l.text, ∃ c, rune = .char c

theorem isChar_of_mem_map {text : List Char} : ∀ rune ∈ text.map Rune.char, ∃ c, rune = .char c := by
  intro rune hrune
  obtain ⟨c, -, rfl⟩ := List.mem_map.mp hrune
  exact ⟨c, rfl⟩

theorem Piece.plain_text {p : Piece} (hp : ∀ b, p ≠ .plain (.byte b)) :
    ∀ rune ∈ p.text, ∃ c, rune = .char c := by
  cases p with
  | plain rune =>
      cases rune with
      | char c => exact @isChar_of_mem_map [c]
      | byte b => exact absurd rfl (hp b)
  | short letter => exact @isChar_of_mem_map ['\\', letter]
  | code a b c d => exact @isChar_of_mem_map ['\\', 'u', a, b, c, d]

theorem asciiPieces_ne_byte (c : Char) : ∀ p ∈ asciiPieces c, ∀ b, p ≠ .plain (.byte b) := by
  intro p hp b
  rw [asciiPieces] at hp
  split at hp
  · rw [List.mem_singleton.mp hp]
    exact Piece.noConfusion
  · split at hp
    · rw [List.mem_singleton.mp hp]
      intro hsame
      cases hsame
    · split at hp
      · rw [List.mem_singleton.mp hp]
        exact Piece.noConfusion
      · obtain rfl | hp := List.mem_cons.mp hp
        · exact Piece.noConfusion
        · rw [List.mem_singleton.mp hp]
          exact Piece.noConfusion

theorem isWritten_asciiString (text : String) : (asciiString text).IsWritten where
  valid := by
    refine List.all_eq_true.mpr fun p hp => ?_
    obtain ⟨c, -, hc⟩ := List.mem_flatMap.mp hp
    exact valid_asciiPieces c p hc
  plain := by
    intro rune hrune
    obtain rfl | hrune := List.mem_cons.mp hrune
    · exact ⟨'"', rfl⟩
    obtain hrune | hrune := List.mem_append.mp hrune
    · obtain ⟨p, hp, hin⟩ := List.mem_flatMap.mp hrune
      obtain ⟨c, -, hc⟩ := List.mem_flatMap.mp hp
      exact Piece.plain_text (asciiPieces_ne_byte c p hc) rune hin
    · exact ⟨'"', List.mem_singleton.mp hrune⟩

theorem isWritten_number {literal : String} (hliteral : Json.isNumber literal = true) :
    (Lexeme.number literal.toList).IsWritten where
  valid := by
    rw [Lexeme.valid, String.ofList_toList, hliteral, Bool.true_and]
    exact List.all_eq_true.mpr (isNumberChar_of_isNumber hliteral).2
  plain := isChar_of_mem_map

theorem isWritten_mark (m : Mark) : (Lexeme.mark m).IsWritten := ⟨rfl, @isChar_of_mem_map [m.char]⟩

theorem isWritten_joined {close : Mark} {parts : List (List Lexeme)}
    (hparts : ∀ part ∈ parts, ∀ l ∈ part, l.IsWritten) : ∀ l ∈ joined close parts, l.IsWritten := by
  intro l hl
  obtain rfl | rfl | ⟨part, hpart, hin⟩ := mem_joined hl
  · exact isWritten_mark close
  · exact isWritten_mark .comma
  · exact hparts part hpart l hin

mutual

theorem isWritten_write : ∀ v : Json, v.wellFormed = true → ∀ l ∈ write v, l.IsWritten
  | .null, _ => List.forall_mem_singleton.mpr ⟨rfl, isChar_of_mem_map⟩
  | .bool true, _ => List.forall_mem_singleton.mpr ⟨rfl, isChar_of_mem_map⟩
  | .bool false, _ => List.forall_mem_singleton.mpr ⟨rfl, isChar_of_mem_map⟩
  | .num _, hv => List.forall_mem_singleton.mpr (isWritten_number hv)
  | .str value, _ => List.forall_mem_singleton.mpr (isWritten_asciiString value)
  | .arr items, hv =>
      List.forall_mem_cons.mpr ⟨isWritten_mark .openList, isWritten_joined (isWritten_writeItems items hv)⟩
  | .obj members, hv =>
      List.forall_mem_cons.mpr
        ⟨isWritten_mark .openObject, isWritten_joined (isWritten_writeMembers members hv)⟩

theorem isWritten_writeItems : ∀ items : List Json, Json.wellFormedItems items = true →
    ∀ part ∈ writeItems items, ∀ l ∈ part, l.IsWritten
  | [], _ => fun _ hpart => absurd hpart List.not_mem_nil
  | item :: items, hv => by
      obtain ⟨hitem, hitems⟩ := Bool.and_eq_true_iff.mp hv
      exact List.forall_mem_cons.mpr ⟨isWritten_write item hitem, isWritten_writeItems items hitems⟩

theorem isWritten_writeMembers : ∀ members : List (String × Json),
    Json.wellFormedMembers members = true → ∀ part ∈ writeMembers members, ∀ l ∈ part, l.IsWritten
  | [], _ => fun _ hpart => absurd hpart List.not_mem_nil
  | (key, item) :: members, hv => by
      obtain ⟨hitem, hmembers⟩ := Bool.and_eq_true_iff.mp hv
      refine List.forall_mem_cons.mpr ⟨?_, isWritten_writeMembers members hmembers⟩
      exact List.forall_mem_cons.mpr ⟨isWritten_asciiString key,
        List.forall_mem_cons.mpr ⟨isWritten_mark .colon, isWritten_write item hitem⟩⟩

end

/-! ### One value for a text -/

theorem Part.mono {α : Type} {read : ℕ → ℕ → List Lexeme → Option (α × List Lexeme)} {depth depth' : ℕ}
    {part : List Lexeme} {a : α} (hpart : Part read depth part a) (hdepth : depth ≤ depth') :
    Part read depth' part a where
  nonempty := hpart.nonempty
  apart := hpart.apart
  reads := fun part' hsame fuel depth'' rest hfuel hdeeper =>
    hpart.reads part' hsame fuel depth'' rest hfuel (Nat.le_trans hdepth hdeeper)

theorem asciiString_unquote (text : String) :
    String.ofList (unquote (text.toList.flatMap asciiPieces)) = text := by
  rw [unquote_flatMap_asciiPieces, String.ofList_toList]

mutual

/-- What is written of a value is read alone, if objects may be nested deep enough. -/
theorem exists_part_write : ∀ v : Json, ∃ depth, Part value depth (write v) v
  | .null => ⟨0, scalar_part fun l' hl fuel depth' rest => by cases hl; rfl⟩
  | .bool b => ⟨0, scalar_part fun l' hl fuel depth' rest => by cases hl; rfl⟩
  | .num literal => by
      refine ⟨0, scalar_part fun l' hl fuel depth' rest => ?_⟩
      cases hl
      rw [value, String.ofList_toList]
  | .str text => by
      refine ⟨0, scalar_part fun l' hl fuel depth' rest => ?_⟩
      cases hl with
      | refl => rw [asciiString, value, asciiString_unquote]
      | string hunquote => rw [value, hunquote, asciiString_unquote]
  | .arr [] => ⟨1, empty_part fun fuel depth' rest => rfl⟩
  | .arr (item :: items) => by
      obtain ⟨depth, hparts⟩ := exists_parts_writeItems (item :: items)
      exact ⟨depth + 1, arr_part (sequence_part (by decide) hparts (List.cons_ne_nil _ _))⟩
  | .obj [] => ⟨1, empty_part fun fuel depth' rest => rfl⟩
  | .obj ((key, item) :: members) => by
      obtain ⟨depth, hparts⟩ := exists_parts_writeMembers ((key, item) :: members)
      exact ⟨depth + 1, obj_part (sequence_part (by decide) hparts (List.cons_ne_nil _ _))⟩

theorem exists_parts_writeItems : ∀ items : List Json,
    ∃ depth, List.Forall₂ (Part value depth) (writeItems items) items
  | [] => ⟨0, .nil⟩
  | item :: items => by
      obtain ⟨depth, hpart⟩ := exists_part_write item
      obtain ⟨depth', hparts⟩ := exists_parts_writeItems items
      refine ⟨max depth depth', .cons (hpart.mono (Nat.le_max_left _ _)) ?_⟩
      exact hparts.imp fun part a h => h.mono (Nat.le_max_right _ _)

theorem exists_parts_writeMembers : ∀ members : List (String × Json), ∃ depth,
    List.Forall₂ (Part (fun fuel depth => member (value fuel depth)) depth) (writeMembers members) members
  | [] => ⟨0, .nil⟩
  | (key, item) :: members => by
      obtain ⟨depth, hpart⟩ := exists_part_write item
      obtain ⟨depth', hparts⟩ := exists_parts_writeMembers members
      have hmember := member_part hpart (key.toList.flatMap asciiPieces)
      rw [asciiString_unquote] at hmember
      refine ⟨max depth depth', .cons (hmember.mono (Nat.le_max_left _ _)) ?_⟩
      exact hparts.imp fun part a h => h.mono (Nat.le_max_right _ _)

end

theorem map_char_chars {text : List Rune} (hplain : ∀ rune ∈ text, ∃ c, rune = .char c) :
    (chars text).map .char = text := by
  induction text with
  | nil => rfl
  | cons rune rest ih =>
      obtain ⟨⟨c, rfl⟩, hrest⟩ := List.forall_mem_cons.mp hplain
      exact congrArg _ (ih hrest)

theorem map_char_asciiText {v : Json} (hv : v.wellFormed = true) :
    (asciiText v).map .char = (write v).flatMap Lexeme.text := by
  refine map_char_chars fun rune hrune => ?_
  obtain ⟨l, hl, hin⟩ := List.mem_flatMap.mp hrune
  exact (isWritten_write v hv l hl).plain rune hin

/-- The text of a value is read as its lexemes. -/
theorem lex_asciiText {v : Json} (hv : v.wellFormed = true) :
    lex ((asciiText v).map .char) = some (write v) := by
  obtain ⟨depth, hpart⟩ := exists_part_write v
  rw [map_char_asciiText hv]
  exact lex_flatMap (fun l hl => (isWritten_write v hv l hl).valid) hpart.apart

theorem write_inj {v w : Json} (hsame : write v = write w) : v = w := by
  obtain ⟨depth, hv⟩ := exists_part_write v
  obtain ⟨depth', hw⟩ := exists_part_write w
  rw [hsame] at hv
  have hread := hv.value_eq (Nat.le_refl _) (Nat.le_max_left depth depth')
  rw [hw.value_eq (Nat.le_refl _) (Nat.le_max_right depth depth')] at hread
  exact (Prod.mk.inj (Option.some.inj hread)).1.symm

/-- No two values have one text. -/
theorem asciiText_inj {v w : Json} (hv : v.wellFormed = true) (hw : w.wellFormed = true)
    (hsame : asciiText v = asciiText w) : v = w := by
  have hlex := lex_asciiText hv
  rw [hsame, lex_asciiText hw] at hlex
  exact write_inj (Option.some.inj hlex).symm

example : asciiText (.obj [("é", .arr [.str "😀\"", .num "1.0", .null]), ("", .obj [])]) =
    "\x7b\"\\u00e9\":[\"\\ud83d\\ude00\\\"\",1.0,null],\"\":\x7b\x7d\x7d".toList := by
  decide +kernel

end JsonText
