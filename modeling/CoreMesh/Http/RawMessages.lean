import CoreMesh.Cache.Request
import CoreMesh.Http.Request
import CoreMesh.Lib.JsonReading

/-!
# Raw messages

`json.Unmarshal` into a map of raw messages, and `json.Marshal` of such a map. A raw message is the text of a
value, here its lexemes: the blanks between them are never written. What is written for a message is the
message itself, with what HTML might read as escapes.
-/

namespace CoreMesh.Http

open JsonText CoreMesh.Cache

abbrev RawMessage := List Lexeme

def maxNestingDepth : ℕ := 10000

/-- What is left of it inside an object. -/
def innerDepth : ℕ := 9999

/-! ### Reading -/

/-- The text of the first value. -/
def rawValue (fuel depth : ℕ) (ls : List Lexeme) : Option (RawMessage × List Lexeme) :=
  (value fuel depth ls).map fun read => (ls.take (ls.length - read.2.length), read.2)

def rawMembers (depth : ℕ) : List Lexeme → Option (List (String × RawMessage))
  | [.null] => some []
  | .mark .openObject :: rest =>
      match after .closeObject rest with
      | some rest => if rest = [] then some [] else none
      | none =>
          match sequence .closeObject (member (rawValue rest.length depth)) rest.length rest with
          | some (members, []) => some members
          | _ => none
  | _ => none

/-- The fields of a text as a map, in which the last of several members with one key is. -/
def unmarshalFields (text : List Rune) : Option (List (String × RawMessage)) :=
  ((lex text).bind (rawMembers innerDepth)).map fun members =>
    members.foldr (fun member => insertMissing member.1 member.2) []

/-! ### Writing -/

def hexPiece (c : Char) : Piece :=
  .code (hexDigit (c.toNat / 4096 % 16)) (hexDigit (c.toNat / 256 % 16)) (hexDigit (c.toNat / 16 % 16))
    (hexDigit (c.toNat % 16))

def quotePiece (c : Char) : Piece :=
  match shortEscape c with
  | some letter => .short letter
  | none => if longEscape c then hexPiece c else .plain (.char c)

/-- `json.Marshal` of a string. -/
def quoted (text : String) : Lexeme := .string (text.toList.map quotePiece)

/-- What HTML or JavaScript might read. -/
def htmlEscape (c : Char) : Bool :=
  c == '<' || c == '>' || c == '&' || c.toNat == 0x2028 || c.toNat == 0x2029

def compactPiece : Piece → Piece
  | .plain (.char c) => if htmlEscape c then hexPiece c else .plain (.char c)
  | p => p

def compactLexeme : Lexeme → Lexeme
  | .string ps => .string (ps.map compactPiece)
  | l => l

/-- `compact` accepts it. -/
def isValue (raw : RawMessage) : Bool :=
  match value raw.length maxNestingDepth raw with
  | some (_, []) => true
  | _ => false

def marshalField (field : String × RawMessage) : List Lexeme :=
  quoted field.1 :: .mark .colon :: field.2.map compactLexeme

/-- None for an error. -/
def marshalFields (fields : List (String × RawMessage)) : Option (List Rune) :=
  if fields.all fun field => isValue field.2 then
    some ((.mark .openObject :: joined .closeObject (fields.map marshalField)).flatMap Lexeme.text)
  else none

/-! ### Escapes -/

theorem codeUnit_hexDigit {n : ℕ} (hn : n < 65536) :
    codeUnit (hexDigit (n / 4096 % 16)) (hexDigit (n / 256 % 16)) (hexDigit (n / 16 % 16)) (hexDigit (n % 16)) =
      some n := by
  have hdigit : ∀ a < 16, hexValue (hexDigit a) = some a := by decide
  rw [codeUnit, hdigit _ (Nat.mod_lt _ (by omega)), hdigit _ (Nat.mod_lt _ (by omega)),
    hdigit _ (Nat.mod_lt _ (by omega)), hdigit _ (Nat.mod_lt _ (by omega))]
  show some (4096 * (n / 4096 % 16) + 256 * (n / 256 % 16) + 16 * (n / 16 % 16) + n % 16) = some n
  exact congrArg some (by omega)

theorem alike_hexPiece {c : Char} (hc : c.toNat < 65536) : Alike (.plain (.char c)) (hexPiece c) :=
  .code (codeUnit_hexDigit hc)

theorem letterValue_shortEscape {c letter : Char} (hshort : shortEscape c = some letter) :
    letterValue letter = some c := by
  have hall : ∀ p ∈ shortEscapes, letterValue p.2 = some p.1 := by decide
  exact hall _ (mem_shortEscapes hshort)

theorem alike_quotePiece (c : Char) : Alike (.plain (.char c)) (quotePiece c) := by
  rw [quotePiece]
  split
  · next letter hshort => exact .short (letterValue_shortEscape hshort)
  · split
    · next hlong => exact alike_hexPiece (longEscape_code hlong)
    · exact .refl _

theorem longEscape_of_htmlEscape {c : Char} (hhtml : htmlEscape c = true) : longEscape c = true := by
  simp only [htmlEscape, longEscape, Bool.or_eq_true] at hhtml ⊢
  tauto

theorem alike_compactPiece (p : Piece) : Alike p (compactPiece p) := by
  unfold compactPiece
  split
  · split
    · next hhtml => exact alike_hexPiece (longEscape_code (longEscape_of_htmlEscape hhtml))
    · exact .refl _
  · exact .refl _

theorem forall₂_map_right {α β : Type} {R : α → β → Prop} {f : α → β} (hf : ∀ a, R a (f a)) (l : List α) :
    List.Forall₂ R l (l.map f) :=
  List.forall₂_map_right_iff.mpr (List.forall₂_same.mpr fun a _ => hf a)

theorem same_compactLexeme (l : Lexeme) : Same l (compactLexeme l) := by
  unfold compactLexeme
  split
  · exact .string (unquote_eq (forall₂_map_right alike_compactPiece _))
  · exact .refl _

theorem unquote_quoted (text : String) : String.ofList (unquote (text.toList.map quotePiece)) = text := by
  have halike : List.Forall₂ Alike (text.toList.map fun c => .plain (.char c)) (text.toList.map quotePiece) := by
    apply List.forall₂_map_left_iff.mpr
    exact forall₂_map_right alike_quotePiece _
  rw [unquote_eq halike, unquote_plain, String.ofList_toList]

theorem valid_hexPiece {c : Char} (hc : c.toNat < 65536) : (hexPiece c).valid = true := by
  rw [hexPiece, Piece.valid, codeUnit_hexDigit hc]
  rfl

theorem valid_quotePiece (c : Char) : (quotePiece c).valid = true := by
  rw [quotePiece]
  split
  · next letter hshort =>
      rw [Piece.valid, letterValue_shortEscape hshort]
      rfl
  · next hshort =>
      split
      · next hlong => exact valid_hexPiece (longEscape_code hlong)
      · next hplain =>
          have hquote : c ≠ '"' := by
            intro hquote
            rw [hquote] at hshort
            exact absurd hshort (by decide)
          simp only [longEscape, Bool.or_eq_true, decide_eq_true_eq, not_or] at hplain
          simp only [Piece.valid, Bool.and_eq_true, bne_iff_ne, decide_eq_true_eq]
          exact ⟨⟨hquote, ne_backslash hshort⟩, by omega⟩

theorem valid_quoted (text : String) : (quoted text).valid = true := by
  apply List.all_eq_true.mpr
  intro p hp
  obtain ⟨c, -, rfl⟩ := List.mem_map.mp hp
  exact valid_quotePiece c

theorem valid_compactLexeme {l : Lexeme} (hl : l.valid = true) : (compactLexeme l).valid = true := by
  unfold compactLexeme
  split
  · next ps =>
      apply List.all_eq_true.mpr
      intro p hp
      obtain ⟨q, hq, rfl⟩ := List.mem_map.mp hp
      have hvalid : q.valid = true := List.all_eq_true.mp hl q hq
      unfold compactPiece
      split
      · split
        · next hhtml => exact valid_hexPiece (longEscape_code (longEscape_of_htmlEscape hhtml))
        · exact hvalid
      · exact hvalid
  · exact hl

/-! ### What is read -/

/-- It is a character, or stood in the text. -/
def Kept (text : List Rune) (rune : Rune) : Prop := rune ∈ text ∨ ∃ c, rune = .char c

/-- A field whose raw message reads as the value of a member. -/
structure IsRaw (text : List Rune) (raw : String × RawMessage) (member : String × Json) : Prop where
  key : raw.1 = member.1
  part : Part value innerDepth raw.2 member.2
  valid : ∀ l ∈ raw.2, l.valid = true
  within : ∀ l ∈ raw.2, ∀ rune ∈ l.text, Kept text rune

theorem rawValue_eq_some {fuel depth : ℕ} {ls rest : List Lexeme} {raw : RawMessage}
    (hraw : rawValue fuel depth ls = some (raw, rest)) : ls = raw ++ rest ∧ ∃ v, Part value depth raw v := by
  obtain ⟨⟨v, rest'⟩, hvalue, heq⟩ := Option.map_eq_some_iff.mp hraw
  obtain ⟨rfl, rfl⟩ := Prod.mk.inj heq
  obtain ⟨part, rfl, hpart⟩ := value_fromPart ls v rest' hvalue
  have htake : (part ++ rest').take ((part ++ rest').length - rest'.length) = part := by
    rw [List.length_append, Nat.add_sub_cancel, List.take_left]
  rw [htake]
  exact ⟨rfl, v, hpart⟩

/-- A part that a raw member is read from. -/
def RawPart (depth : ℕ) (part : List Lexeme) (raw : String × RawMessage) : Prop :=
  ∃ ps v, part = .string ps :: .mark .colon :: raw.2 ∧ raw.1 = String.ofList (unquote ps) ∧
    Part value depth raw.2 v

theorem rawPart_of_member {fuel depth : ℕ} (ls : List Lexeme) (raw : String × RawMessage) (rest : List Lexeme)
    (hread : member (rawValue fuel depth) ls = some (raw, rest)) :
    ∃ part, ls = part ++ rest ∧ RawPart depth part raw := by
  obtain ⟨ps, more, rfl, hkey, hvalue⟩ := member_eq_some hread
  obtain ⟨rfl, v, hpart⟩ := rawValue_eq_some hvalue
  exact ⟨.string ps :: .mark .colon :: raw.2, rfl, ps, v, rfl, hkey, hpart⟩

theorem exists_members {depth : ℕ} {parts : List (List Lexeme)} {raws : List (String × RawMessage)}
    (hparts : List.Forall₂ (RawPart depth) parts raws) : ∃ members : List (String × Json),
      List.Forall₂ (Part (fun fuel depth => member (value fuel depth)) depth) parts members ∧
      List.Forall₂ (fun raw member => raw.1 = member.1 ∧ Part value depth raw.2 member.2) raws members := by
  induction hparts with
  | nil => exact ⟨[], .nil, .nil⟩
  | @cons part raw parts raws hpart _ ih =>
      obtain ⟨members, hwhole, hraws⟩ := ih
      obtain ⟨ps, v, rfl, hkey, hvalue⟩ := hpart
      refine ⟨(raw.1, v) :: members, .cons ?_ hwhole, .cons ⟨rfl, hvalue⟩ hraws⟩
      rw [hkey]
      exact member_part hvalue ps

/-- The raw members of an object, and the members that are read from it. -/
theorem rawMembers_eq_some {depth : ℕ} {ls : List Lexeme} {raws : List (String × RawMessage)}
    (hraws : rawMembers depth ls = some raws) : (ls = [.null] ∧ raws = []) ∨
      ∃ members, Part value (depth + 1) ls (.obj members) ∧
        List.Forall₂ (fun raw member => raw.1 = member.1 ∧ Part value depth raw.2 member.2) raws members ∧
        ∀ raw ∈ raws, ∀ l ∈ raw.2, l ∈ ls := by
  unfold rawMembers at hraws
  split at hraws
  · exact .inl ⟨rfl, (Option.some.inj hraws).symm⟩
  · next rest =>
      right
      split at hraws
      · next rest' hafter =>
          split at hraws
          · next hnil =>
              obtain rfl := Option.some.inj hraws
              obtain rfl := after_eq_some_iff.mp hafter
              subst hnil
              refine ⟨[], empty_part fun _ _ _ => rfl, .nil, ?_⟩
              intro raw hraw
              cases hraw
          · cases hraws
      · split at hraws
        · next members hsequence =>
            obtain rfl := Option.some.inj hraws
            obtain ⟨parts, hne, hrest, hparts⟩ := sequence_eq_some rawPart_of_member hsequence
            rw [List.append_nil] at hrest
            subst hrest
            obtain ⟨json, hwhole, hmembers⟩ := exists_members hparts
            refine ⟨json, obj_part (sequence_part (by decide) hwhole hne), hmembers, ?_⟩
            intro raw hraw l hl
            obtain ⟨part, hpart, ps, v, rfl, -, -⟩ := exists_of_mem_forall₂ hparts.flip hraw
            exact List.mem_cons_of_mem _ (mem_joined_of_mem hpart
              (List.mem_cons_of_mem _ (List.mem_cons_of_mem _ hl)))
        · cases hraws
  · cases hraws

/-! ### Maps of them -/

section Maps

variable {text : List Rune}

theorem isRaw_filter {raws : List (String × RawMessage)} {fields : List (String × Json)}
    (hraws : List.Forall₂ (IsRaw text) raws fields) (name : String) :
    List.Forall₂ (IsRaw text) (raws.filter fun raw => raw.1 != name)
      (fields.filter fun field => field.1 != name) := by
  induction hraws with
  | nil => exact .nil
  | cons hfirst _ ih =>
      rw [List.filter_cons, List.filter_cons, hfirst.key]
      split
      · exact .cons hfirst ih
      · exact ih

theorem isRaw_fields {members : List (String × RawMessage)} {json : List (String × Json)}
    (hmembers : List.Forall₂ (IsRaw text) members json) :
    List.Forall₂ (IsRaw text) (members.foldr (fun raw => insertMissing raw.1 raw.2) [])
      (json.foldr (fun member => insertMissing member.1 member.2) []) := by
  induction hmembers with
  | nil => exact .nil
  | @cons raw member _ _ hfirst _ ih =>
      obtain ⟨key, message⟩ := raw
      obtain ⟨key', v⟩ := member
      obtain rfl : key = key' := hfirst.key
      exact forall₂_insertMissing (fun _ _ h => h.key) hfirst ih

theorem isRaw_of_read {members : List (String × RawMessage)} {json : List (String × Json)}
    (hmembers : List.Forall₂ (fun raw member => raw.1 = member.1 ∧ Part value innerDepth raw.2 member.2)
      members json)
    (hlexemes : ∀ raw ∈ members, ∀ l ∈ raw.2, l.valid = true ∧ ∀ rune ∈ l.text, rune ∈ text) :
    List.Forall₂ (IsRaw text) members json := by
  induction hmembers with
  | nil => exact .nil
  | cons hfirst _ ih =>
      obtain ⟨hraw, hrest⟩ := List.forall_mem_cons.mp hlexemes
      refine .cons ⟨hfirst.1, hfirst.2, fun l hl => (hraw l hl).1, fun l hl rune hrune => ?_⟩ (ih hrest)
      exact .inl ((hraw l hl).2 rune hrune)

/-- The raw fields of a text are those of the value that it reads as. -/
theorem unmarshalFields_eq_some {raws : List (String × RawMessage)}
    (hraws : unmarshalFields text = some raws) : ∃ json fields, read maxNestingDepth text = some json ∧
      fieldsOf json = some fields ∧ List.Forall₂ (IsRaw text) raws fields := by
  obtain ⟨members, hbind, rfl⟩ := Option.map_eq_some_iff.mp hraws
  obtain ⟨ls, hlex, hmembers⟩ := Option.bind_eq_some_iff.mp hbind
  obtain ⟨rfl, rfl⟩ | ⟨json, hpart, hrel, hmem⟩ := rawMembers_eq_some hmembers
  · refine ⟨.null, [], ?_, rfl, .nil⟩
    rw [JsonText.read, hlex]
    rfl
  · refine ⟨.obj json, _, read_of_part hlex hpart, rfl, isRaw_fields (isRaw_of_read hrel ?_)⟩
    intro raw hraw l hl
    exact lexemes_eq_some hlex l (hmem raw hraw l hl)

theorem IsRaw.isValue {raw : String × RawMessage} {member : String × Json} (hraw : IsRaw text raw member) :
    isValue raw.2 = true := by
  have hdepth : innerDepth ≤ maxNestingDepth := by decide
  rw [Http.isValue, hraw.part.value_eq (Nat.le_refl _) hdepth]

theorem part_marshalField {raw : String × RawMessage} {member : String × Json} (hraw : IsRaw text raw member) :
    Part (fun fuel depth => JsonText.member (value fuel depth)) innerDepth (marshalField raw) member := by
  have hvalue := hraw.part.of_same (forall₂_map_right same_compactLexeme raw.2)
  have hwhole := member_part hvalue (raw.1.toList.map quotePiece)
  have hmember : (raw.1, member.2) = member := Prod.ext hraw.key rfl
  rw [unquote_quoted, hmember] at hwhole
  exact hwhole

theorem part_marshalFields {raws : List (String × RawMessage)} {fields : List (String × Json)}
    (hraws : List.Forall₂ (IsRaw text) raws fields) :
    Part value maxNestingDepth (.mark .openObject :: joined .closeObject (raws.map marshalField))
      (.obj fields) := by
  by_cases hnone : raws = []
  · subst hnone
    cases hraws
    exact empty_part fun _ _ _ => rfl
  · have hparts : List.Forall₂ (Part (fun fuel depth => JsonText.member (value fuel depth)) innerDepth)
        (raws.map marshalField) fields :=
      List.forall₂_map_left_iff.mpr (hraws.imp fun raw member hraw => part_marshalField hraw)
    exact obj_part (sequence_part (by decide) hparts fun hnil => hnone (List.map_eq_nil_iff.mp hnil))

theorem kept_hexPiece (c : Char) : ∀ rune ∈ (hexPiece c).text, Kept text rune := by
  intro rune hrune
  simp only [hexPiece, Piece.text, List.mem_cons, List.not_mem_nil, or_false] at hrune
  obtain rfl | rfl | rfl | rfl | rfl | rfl := hrune <;> exact .inr ⟨_, rfl⟩

theorem kept_quotePiece (c : Char) : ∀ rune ∈ (quotePiece c).text, Kept text rune := by
  rw [quotePiece]
  split
  · intro rune hrune
    simp only [Piece.text, List.mem_cons, List.not_mem_nil, or_false] at hrune
    obtain rfl | rfl := hrune <;> exact .inr ⟨_, rfl⟩
  · split
    · exact kept_hexPiece c
    · intro rune hrune
      rw [List.mem_singleton.mp hrune]
      exact .inr ⟨c, rfl⟩

theorem kept_compactPiece (p : Piece) (hp : ∀ rune ∈ p.text, Kept text rune) :
    ∀ rune ∈ (compactPiece p).text, Kept text rune := by
  unfold compactPiece
  split
  · split
    · exact kept_hexPiece _
    · exact hp
  · exact hp

theorem kept_string {ps : List Piece} (hps : ∀ p ∈ ps, ∀ rune ∈ p.text, Kept text rune) :
    ∀ rune ∈ (Lexeme.string ps).text, Kept text rune := by
  intro rune hrune
  rw [Lexeme.text, List.mem_cons, List.mem_append, List.mem_flatMap, List.mem_singleton] at hrune
  obtain rfl | ⟨p, hp, hin⟩ | rfl := hrune
  · exact .inr ⟨_, rfl⟩
  · exact hps p hp rune hin
  · exact .inr ⟨_, rfl⟩

theorem kept_compactLexeme {l : Lexeme} (hl : ∀ rune ∈ l.text, Kept text rune) :
    ∀ rune ∈ (compactLexeme l).text, Kept text rune := by
  unfold compactLexeme
  split
  · next ps =>
      apply kept_string
      intro p hp
      obtain ⟨q, hq, rfl⟩ := List.mem_map.mp hp
      refine kept_compactPiece q fun rune hrune => hl rune ?_
      rw [Lexeme.text, List.mem_cons, List.mem_append, List.mem_flatMap]
      exact .inr (.inl ⟨q, hq, hrune⟩)
  · exact hl

theorem kept_quoted (name : String) : ∀ rune ∈ (quoted name).text, Kept text rune := by
  apply kept_string
  intro p hp
  obtain ⟨c, -, rfl⟩ := List.mem_map.mp hp
  exact kept_quotePiece c

/-- What is written for fields is made of lexemes. -/
theorem lexemes_marshalFields {raws : List (String × RawMessage)} {fields : List (String × Json)}
    (hraws : List.Forall₂ (IsRaw text) raws fields) :
    ∀ l ∈ Lexeme.mark .openObject :: joined .closeObject (raws.map marshalField),
      l.valid = true ∧ ∀ rune ∈ l.text, Kept text rune := by
  have hmark : ∀ m, (Lexeme.mark m).valid = true ∧ ∀ rune ∈ (Lexeme.mark m).text, Kept text rune := by
    intro m
    refine ⟨rfl, fun rune hrune => ?_⟩
    rw [List.mem_singleton.mp hrune]
    exact .inr ⟨_, rfl⟩
  refine List.forall_mem_cons.mpr ⟨hmark _, fun l hl => ?_⟩
  obtain rfl | rfl | ⟨part, hpart, hin⟩ := mem_joined hl
  · exact hmark _
  · exact hmark _
  · obtain ⟨raw, hraw, rfl⟩ := List.mem_map.mp hpart
    obtain ⟨member, -, hrel⟩ := exists_of_mem_forall₂ hraws hraw
    rw [marshalField, List.mem_cons, List.mem_cons] at hin
    obtain rfl | rfl | hin := hin
    · exact ⟨valid_quoted _, kept_quoted _⟩
    · exact hmark _
    · obtain ⟨l', hl', rfl⟩ := List.mem_map.mp hin
      exact ⟨valid_compactLexeme (hrel.valid l' hl'), kept_compactLexeme (hrel.within l' hl')⟩

/-- The fields are written without an error, and read back as what they were. -/
theorem marshalFields_eq_some {raws : List (String × RawMessage)} {fields : List (String × Json)}
    (hraws : List.Forall₂ (IsRaw text) raws fields) : ∃ written, marshalFields raws = some written ∧
      read maxNestingDepth written = some (.obj fields) ∧ ∀ rune ∈ written, Kept text rune := by
  have hall : raws.all (fun field => isValue field.2) = true := by
    apply List.all_eq_true.mpr
    intro raw hraw
    obtain ⟨member, -, hrel⟩ := exists_of_mem_forall₂ hraws hraw
    exact hrel.isValue
  have hlexemes := lexemes_marshalFields hraws
  refine ⟨_, if_pos hall, read_flatMap (part_marshalFields hraws) fun l hl => (hlexemes l hl).1, ?_⟩
  intro rune hrune
  obtain ⟨l, hl, hin⟩ := List.mem_flatMap.mp hrune
  exact (hlexemes l hl).2 rune hin

end Maps

end CoreMesh.Http
