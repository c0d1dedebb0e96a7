import Mathlib.Data.String.Basic
import Mathlib.Tactic.Common
import CoreMesh.Lib.Json

/-!
# JSON as Go decodes and encodes it

`json.Unmarshal` into an empty interface and `json.Marshal` of what comes out: numbers become floats,
an object becomes a map without an order, and encoding a map writes its keys in theirs. A map is the
list of its entries by key. The floats are a parameter, of which the encoding needs that the text of
one reads back as itself.
-/

namespace CoreMesh.Cache

/-- The characters of a JSON number. -/
def isNumberChar (c : Char) : Bool := c.isDigit || "+-.eE".toList.contains c

/-- `strconv`'s float64: `parseFloat` fails where the value is out of range. -/
structure FloatCodec where
  Value : Type
  parseFloat : String → Option Value
  format : Value → List Char
  parse_format : ∀ f, parseFloat (String.ofList (format f)) = some f
  format_ne : ∀ f, format f ≠ []
  format_chars : ∀ f, ∀ c ∈ format f, isNumberChar c = true

inductive GoValue (F : Type) where
  | null
  | bool (value : Bool)
  | float64 (value : F)
  | string (value : String)
  | slice (items : List (GoValue F))
  | map (entries : List (String × GoValue F))

/-- Adds an entry to the entries of a map, unless its key is there. -/
def insertMissing {α : Type} (key : String) (value : α) :
    List (String × α) → List (String × α)
  | [] => [(key, value)]
  | (k, v) :: rest =>
      if key = k then (k, v) :: rest
      else if key < k then (key, value) :: (k, v) :: rest
      else (k, v) :: insertMissing key value rest

theorem insertMissing_before {α : Type} {key k : String} (hlt : key < k) (value v : α)
    (rest : List (String × α)) :
    insertMissing key value ((k, v) :: rest) = (key, value) :: (k, v) :: rest := by
  rw [insertMissing, if_neg (ne_of_lt hlt), if_pos hlt]

theorem insertMissing_after {α : Type} {key k : String} (hlt : k < key) (value v : α)
    (rest : List (String × α)) :
    insertMissing key value ((k, v) :: rest) = (k, v) :: insertMissing key value rest := by
  rw [insertMissing, if_neg (ne_of_gt hlt), if_neg (lt_asymm hlt)]

/-- Maps that are alike entry by entry stay so. -/
theorem forall₂_insertMissing {α β : Type} {R : String × α → String × β → Prop}
    (hkey : ∀ a b, R a b → a.1 = b.1) {k : String} {value : α} {value' : β} (hvalue : R (k, value) (k, value'))
    {entries : List (String × α)} {entries' : List (String × β)} (hentries : List.Forall₂ R entries entries') :
    List.Forall₂ R (insertMissing k value entries) (insertMissing k value' entries') := by
  induction hentries with
  | nil => exact .cons hvalue .nil
  | @cons entry entry' rest rest' hentry hrest ih =>
      obtain ⟨name, v⟩ := entry
      obtain ⟨name', v'⟩ := entry'
      obtain rfl : name = name' := hkey _ _ hentry
      unfold insertMissing
      split
      · exact .cons hentry hrest
      · split
        · exact .cons hvalue (.cons hentry hrest)
        · exact .cons hentry ih

section Decode

variable (floats : FloatCodec)

mutual

/-- `json.Unmarshal` into an empty interface. -/
def decode : Json → Option (GoValue floats.Value)
  | .null => some .null
  | .bool value => some (.bool value)
  | .num literal => (floats.parseFloat literal).map .float64
  | .str value => some (.string value)
  | .arr items => (decodeItems items).map .slice
  | .obj members => (decodeMembers members).map .map

def decodeItems : List Json → Option (List (GoValue floats.Value))
  | [] => some []
  | item :: rest => do
      let value ← decode item
      let values ← decodeItems rest
      return value :: values

/-- Of several members with one key the last is in the map. -/
def decodeMembers : List (String × Json) → Option (List (String × GoValue floats.Value))
  | [] => some []
  | (key, item) :: rest => do
      let value ← decode item
      let entries ← decodeMembers rest
      return insertMissing key value entries

end

end Decode

/-! ### Encoding -/

def hexDigit (n : Nat) : Char := "0123456789abcdef".toList.getD n '0'

def hex4 (n : Nat) : List Char :=
  [hexDigit (n / 4096 % 16), hexDigit (n / 256 % 16), hexDigit (n / 16 % 16), hexDigit (n % 16)]

/-- The characters that are written as a backslash and a letter. -/
def shortEscapes : List (Char × Char) :=
  [('"', '"'), ('\\', '\\'), ('\x08', 'b'), ('\x0c', 'f'), ('\n', 'n'), ('\r', 'r'), ('\t', 't')]

def shortEscape (c : Char) : Option Char :=
  (shortEscapes.find? fun pair => pair.1 == c).map Prod.snd

/-- The other characters that are written by their code: controls, what HTML might read, and the line
separators of JavaScript. -/
def longEscape (c : Char) : Bool :=
  decide (c.toNat < 32) || c == '<' || c == '>' || c == '&' || c.toNat == 0x2028 ||
    c.toNat == 0x2029

def escapeChar (c : Char) : List Char :=
  match shortEscape c with
  | some letter => ['\\', letter]
  | none => if longEscape c then '\\' :: 'u' :: hex4 c.toNat else [c]

def marshalString (text : String) : List Char := '"' :: (text.toList.flatMap escapeChar ++ ['"'])

section Marshal

variable (floats : FloatCodec)

mutual

/-- `json.Marshal`. -/
def marshal : GoValue floats.Value → List Char
  | .null => "null".toList
  | .bool value => if value then "true".toList else "false".toList
  | .float64 value => floats.format value
  | .string value => marshalString value
  | .slice [] => "[]".toList
  | .slice (item :: rest) => '[' :: (marshal item ++ marshalItems rest)
  | .map [] => "{}".toList
  | .map ((key, value) :: rest) =>
      '{' :: (marshalString key ++ ':' :: (marshal value ++ marshalEntries rest))

/-- The items after the first, and the closing bracket. -/
def marshalItems : List (GoValue floats.Value) → List Char
  | [] => [']']
  | item :: rest => ',' :: (marshal item ++ marshalItems rest)

def marshalEntries : List (String × GoValue floats.Value) → List Char
  | [] => ['}']
  | (key, value) :: rest =>
      ',' :: (marshalString key ++ ':' :: (marshal value ++ marshalEntries rest))

end

end Marshal

/-! ### What a text stands for -/

theorem hex4_injective {m n : Nat} (hm : m < 65536) (hn : n < 65536) (heq : hex4 m = hex4 n) :
    m = n := by
  have hdigit : ∀ a < 16, ∀ b < 16, hexDigit a = hexDigit b → a = b := by decide
  obtain ⟨h3, hrest⟩ := List.cons.inj heq
  obtain ⟨h2, hrest⟩ := List.cons.inj hrest
  obtain ⟨h1, hrest⟩ := List.cons.inj hrest
  obtain ⟨h0, -⟩ := List.cons.inj hrest
  have h3 := hdigit _ (Nat.mod_lt _ (by omega)) _ (Nat.mod_lt _ (by omega)) h3
  have h2 := hdigit _ (Nat.mod_lt _ (by omega)) _ (Nat.mod_lt _ (by omega)) h2
  have h1 := hdigit _ (Nat.mod_lt _ (by omega)) _ (Nat.mod_lt _ (by omega)) h1
  have h0 := hdigit _ (Nat.mod_lt _ (by omega)) _ (Nat.mod_lt _ (by omega)) h0
  omega

theorem longEscape_code {c : Char} (hlong : longEscape c = true) : c.toNat < 65536 := by
  have hamp : '<'.toNat = 60 ∧ '>'.toNat = 62 ∧ '&'.toNat = 38 := by decide
  simp only [longEscape, Bool.or_eq_true, decide_eq_true_eq, beq_iff_eq] at hlong
  rcases hlong with ((((h | rfl) | rfl) | rfl) | h) | h <;> omega

theorem mem_shortEscapes {c letter : Char} (hshort : shortEscape c = some letter) :
    (c, letter) ∈ shortEscapes := by
  obtain ⟨pair, hfind, rfl⟩ := Option.map_eq_some_iff.mp hshort
  have hkey : pair.1 = c := by simpa using List.find?_some hfind
  rw [← hkey]
  exact List.mem_of_find?_eq_some hfind

theorem shortEscape_inj {c c' letter : Char} (hshort : shortEscape c = some letter)
    (hshort' : shortEscape c' = some letter) : c = c' := by
  have hall : ∀ p ∈ shortEscapes, ∀ q ∈ shortEscapes, p.2 = q.2 → p.1 = q.1 := by decide
  exact hall _ (mem_shortEscapes hshort) _ (mem_shortEscapes hshort') rfl

theorem shortEscape_ne_u {c : Char} : shortEscape c ≠ some 'u' := by
  intro hshort
  have hall : ∀ p ∈ shortEscapes, p.2 ≠ 'u' := by decide
  exact hall _ (mem_shortEscapes hshort) rfl

theorem ne_backslash {c : Char} (hshort : shortEscape c = none) : c ≠ '\\' := by
  rintro rfl
  exact absurd hshort (by decide)

/-- No character's escape is a prefix of another's. -/
theorem escapeChar_inj {c c' : Char} {rest rest' : List Char}
    (heq : escapeChar c ++ rest = escapeChar c' ++ rest') : c = c' ∧ rest = rest' := by
  unfold escapeChar at heq
  cases hc : shortEscape c with
  | some letter =>
      cases hc' : shortEscape c' with
      | some letter' =>
          simp only [hc, hc', List.cons_append, List.nil_append, List.cons.injEq, true_and] at heq
          obtain ⟨rfl, hrest⟩ := heq
          exact ⟨shortEscape_inj hc hc', hrest⟩
      | none =>
          simp only [hc, hc'] at heq
          split at heq
          · obtain rfl : letter = 'u' := by simpa using (List.cons.inj (List.cons.inj heq).2).1
            exact absurd hc shortEscape_ne_u
          · exact absurd (List.cons.inj heq).1.symm (ne_backslash hc')
  | none =>
      cases hc' : shortEscape c' with
      | some letter' =>
          simp only [hc, hc'] at heq
          split at heq
          · obtain rfl : 'u' = letter' := by simpa using (List.cons.inj (List.cons.inj heq).2).1
            exact absurd hc' shortEscape_ne_u
          · exact absurd (List.cons.inj heq).1 (ne_backslash hc)
      | none =>
          simp only [hc, hc'] at heq
          split at heq
          · rename_i hlong
            split at heq
            · rename_i hlong'
              have htail := (List.cons.inj (List.cons.inj heq).2).2
              obtain ⟨hhex, hrest⟩ := List.append_inj htail rfl
              have hcode := hex4_injective (longEscape_code hlong) (longEscape_code hlong') hhex
              exact ⟨Char.toNat_inj.mp hcode, hrest⟩
            · exact absurd (List.cons.inj heq).1.symm (ne_backslash hc')
          · split at heq
            · exact absurd (List.cons.inj heq).1 (ne_backslash hc)
            · exact ⟨(List.cons.inj heq).1, (List.cons.inj heq).2⟩

theorem escapeChar_ne_quote (c : Char) (rest more : List Char) :
    escapeChar c ++ rest ≠ '"' :: more := by
  intro heq
  unfold escapeChar at heq
  cases hc : shortEscape c with
  | some letter =>
      simp only [hc] at heq
      cases (List.cons.inj heq).1
  | none =>
      simp only [hc] at heq
      split at heq
      · cases (List.cons.inj heq).1
      · have hquote : c = '"' := (List.cons.inj heq).1
        rw [hquote] at hc
        exact absurd hc (by decide)

theorem escape_inj {text text' rest rest' : List Char}
    (heq : text.flatMap escapeChar ++ '"' :: rest = text'.flatMap escapeChar ++ '"' :: rest') :
    text = text' ∧ rest = rest' := by
  induction text generalizing text' with
  | nil =>
      cases text' with
      | nil => exact ⟨rfl, (List.cons.inj heq).2⟩
      | cons c' more' =>
          rw [List.flatMap_cons, List.append_assoc] at heq
          exact absurd heq.symm (escapeChar_ne_quote c' _ _)
  | cons c more ih =>
      cases text' with
      | nil =>
          rw [List.flatMap_cons, List.append_assoc] at heq
          exact absurd heq (escapeChar_ne_quote c _ _)
      | cons c' more' =>
          rw [List.flatMap_cons, List.flatMap_cons, List.append_assoc, List.append_assoc] at heq
          obtain ⟨rfl, htail⟩ := escapeChar_inj heq
          obtain ⟨rfl, hrest⟩ := ih htail
          exact ⟨rfl, hrest⟩

theorem marshalString_inj {text text' : String} {rest rest' : List Char}
    (heq : marshalString text ++ rest = marshalString text' ++ rest') :
    text = text' ∧ rest = rest' := by
  simp only [marshalString, List.cons_append, List.append_assoc, List.nil_append,
    List.cons.injEq, true_and] at heq
  obtain ⟨htext, hrest⟩ := escape_inj heq
  exact ⟨String.toList_inj.mp htext, hrest⟩

/-- What may follow a value: no number goes on in it. -/
def Stops (rest : List Char) : Prop := ∀ c ∈ rest.head?, isNumberChar c = false

theorem number_inj {digits digits' rest rest' : List Char}
    (hdigits : ∀ c ∈ digits, isNumberChar c = true) (hdigits' : ∀ c ∈ digits', isNumberChar c = true)
    (hrest : Stops rest) (hrest' : Stops rest') (heq : digits ++ rest = digits' ++ rest') :
    digits = digits' ∧ rest = rest' := by
  have htake : ∀ {digits rest : List Char}, (∀ c ∈ digits, isNumberChar c = true) → Stops rest →
      (digits ++ rest).takeWhile isNumberChar = digits := by
    intro digits rest hdigits hrest
    rw [List.takeWhile_append_of_pos hdigits]
    cases rest with
    | nil => exact List.append_nil _
    | cons c more => rw [List.takeWhile_cons_of_neg (by simp [hrest c rfl]), List.append_nil]
  have hsame : digits = digits' := by
    rw [← htake hdigits hrest, heq, htake hdigits' hrest']
  subst hsame
  exact ⟨rfl, List.append_cancel_left heq⟩

section Marshalled

variable {floats : FloatCodec}

/-- What a text begins with tells the kind of its value. -/
inductive Kind where
  | null | bool | float64 | string | slice | map
  deriving DecidableEq

def kindOf : GoValue floats.Value → Kind
  | .null => .null
  | .bool _ => .bool
  | .float64 _ => .float64
  | .string _ => .string
  | .slice _ => .slice
  | .map _ => .map

def kindOfChar (c : Char) : Option Kind :=
  if isNumberChar c then some .float64
  else if c = 'n' then some .null
  else if c = 't' ∨ c = 'f' then some .bool
  else if c = '"' then some .string
  else if c = '[' then some .slice
  else if c = '{' then some .map
  else none

theorem marshal_head (v : GoValue floats.Value) :
    ∃ c rest, marshal floats v = c :: rest ∧ kindOfChar c = some (kindOf v) := by
  cases v with
  | null => exact ⟨'n', _, rfl, (show kindOfChar 'n' = some .null by decide)⟩
  | bool value =>
      cases value with
      | true => exact ⟨'t', _, rfl, (show kindOfChar 't' = some .bool by decide)⟩
      | false => exact ⟨'f', _, rfl, (show kindOfChar 'f' = some .bool by decide)⟩
  | float64 value =>
      obtain ⟨c, rest, hformat⟩ := List.exists_cons_of_ne_nil (floats.format_ne value)
      have hc := floats.format_chars value c (by rw [hformat]; exact List.mem_cons_self)
      exact ⟨c, rest, by rw [marshal, hformat], if_pos hc⟩
  | string value => exact ⟨'"', _, by rw [marshal, marshalString], (show kindOfChar '"' = some .string by decide)⟩
  | slice items =>
      cases items with
      | nil => exact ⟨'[', _, by rw [marshal]; rfl, (show kindOfChar '[' = some .slice by decide)⟩
      | cons item rest => exact ⟨'[', _, by rw [marshal], (show kindOfChar '[' = some .slice by decide)⟩
  | map entries =>
      cases entries with
      | nil => exact ⟨'{', _, by rw [marshal]; rfl, (show kindOfChar '{' = some .map by decide)⟩
      | cons entry rest => exact ⟨'{', _, by rw [marshal], (show kindOfChar '{' = some .map by decide)⟩

theorem kindOf_eq {v w : GoValue floats.Value} {rest rest' : List Char}
    (heq : marshal floats v ++ rest = marshal floats w ++ rest') : kindOf v = kindOf w := by
  obtain ⟨c, more, hv, hc⟩ := marshal_head v
  obtain ⟨c', more', hw, hc'⟩ := marshal_head w
  rw [hv, hw] at heq
  rw [(List.cons.inj heq).1, hc'] at hc
  exact (Option.some.inj hc).symm

/-- No value begins with a closing bracket. -/
theorem marshal_ne_bracket (v : GoValue floats.Value) (rest more : List Char) :
    marshal floats v ++ rest ≠ ']' :: more := by
  intro heq
  obtain ⟨c, tail, hv, hc⟩ := marshal_head v
  rw [hv] at heq
  rw [(List.cons.inj heq).1] at hc
  exact absurd hc (by rw [show kindOfChar ']' = none by decide]; simp)

theorem stops_items (items : List (GoValue floats.Value)) (rest : List Char) :
    Stops (marshalItems floats items ++ rest) := by
  intro c hc
  cases items <;> · cases hc; decide

theorem stops_entries (entries : List (String × GoValue floats.Value)) (rest : List Char) :
    Stops (marshalEntries floats entries ++ rest) := by
  intro c hc
  cases entries <;> · cases hc; decide

mutual

/-- A value can be read back from its text, and the text after it too. -/
theorem marshal_inj : ∀ (v w : GoValue floats.Value) {rest rest' : List Char}, Stops rest →
    Stops rest' → marshal floats v ++ rest = marshal floats w ++ rest' → v = w ∧ rest = rest'
  | .null, w, rest, rest', _, _, heq => by
      cases w with
      | null => exact ⟨rfl, List.append_cancel_left heq⟩
      | _ => cases kindOf_eq heq
  | .bool value, w, rest, rest', _, _, heq => by
      cases w with
      | bool value' =>
          cases value <;> cases value'
          · exact ⟨rfl, List.append_cancel_left heq⟩
          · cases (List.cons.inj heq).1
          · cases (List.cons.inj heq).1
          · exact ⟨rfl, List.append_cancel_left heq⟩
      | _ => cases kindOf_eq heq
  | .float64 value, w, rest, rest', hrest, hrest', heq => by
      cases w with
      | float64 value' =>
          obtain ⟨hformat, hsame⟩ := number_inj (floats.format_chars value)
            (floats.format_chars value') hrest hrest' heq
          have hvalue := floats.parse_format value
          rw [hformat, floats.parse_format] at hvalue
          rw [Option.some.inj hvalue]
          exact ⟨rfl, hsame⟩
      | _ => cases kindOf_eq heq
  | .string value, w, rest, rest', _, _, heq => by
      cases w with
      | string value' =>
          obtain ⟨rfl, hsame⟩ := marshalString_inj heq
          exact ⟨rfl, hsame⟩
      | _ => cases kindOf_eq heq
  | .slice [], w, rest, rest', _, _, heq => by
      cases w with
      | slice items' =>
          cases items' with
          | nil => exact ⟨rfl, List.append_cancel_left heq⟩
          | cons item' more' =>
              rw [marshal, marshal, List.cons_append, List.append_assoc] at heq
              exact absurd (List.cons.inj heq).2.symm (marshal_ne_bracket item' _ _)
      | _ => cases kindOf_eq heq
  | .slice (item :: more), w, rest, rest', _, _, heq => by
      cases w with
      | slice items' =>
          cases items' with
          | nil =>
              rw [marshal, marshal, List.cons_append, List.append_assoc] at heq
              exact absurd (List.cons.inj heq).2 (marshal_ne_bracket item _ _)
          | cons item' more' =>
              rw [marshal, marshal, List.cons_append, List.cons_append, List.append_assoc,
                List.append_assoc] at heq
              obtain ⟨rfl, htail⟩ := marshal_inj item item' (stops_items more rest)
                (stops_items more' rest') (List.cons.inj heq).2
              obtain ⟨rfl, hsame⟩ := marshalItems_inj more more' htail
              exact ⟨rfl, hsame⟩
      | _ => cases kindOf_eq heq
  | .map [], w, rest, rest', _, _, heq => by
      cases w with
      | map entries' =>
          cases entries' with
          | nil => exact ⟨rfl, List.append_cancel_left heq⟩
          | cons entry' more' =>
              rw [marshal, marshal] at heq
              cases (List.cons.inj (List.cons.inj heq).2).1
      | _ => cases kindOf_eq heq
  | .map ((key, value) :: more), w, rest, rest', _, _, heq => by
      cases w with
      | map entries' =>
          cases entries' with
          | nil =>
              rw [marshal, marshal] at heq
              cases (List.cons.inj (List.cons.inj heq).2).1
          | cons entry' more' =>
              obtain ⟨key', value'⟩ := entry'
              rw [marshal, marshal, List.cons_append, List.cons_append, List.append_assoc,
                List.append_assoc] at heq
              obtain ⟨rfl, htail⟩ := marshalString_inj (List.cons.inj heq).2
              rw [List.cons_append, List.cons_append, List.append_assoc, List.append_assoc] at htail
              obtain ⟨rfl, hafter⟩ := marshal_inj value value' (stops_entries more rest)
                (stops_entries more' rest') (List.cons.inj htail).2
              obtain ⟨rfl, hsame⟩ := marshalEntries_inj more more' hafter
              exact ⟨rfl, hsame⟩
      | _ => cases kindOf_eq heq

theorem marshalItems_inj : ∀ (items items' : List (GoValue floats.Value)) {rest rest' : List Char},
    marshalItems floats items ++ rest = marshalItems floats items' ++ rest' →
      items = items' ∧ rest = rest'
  | [], [], rest, rest', heq => ⟨rfl, List.append_cancel_left heq⟩
  | [], _ :: _, rest, rest', heq => by
      rw [marshalItems, marshalItems] at heq
      cases (List.cons.inj heq).1
  | _ :: _, [], rest, rest', heq => by
      rw [marshalItems, marshalItems] at heq
      cases (List.cons.inj heq).1
  | item :: more, item' :: more', rest, rest', heq => by
      rw [marshalItems, marshalItems, List.cons_append, List.cons_append, List.append_assoc,
        List.append_assoc] at heq
      obtain ⟨rfl, htail⟩ := marshal_inj item item' (stops_items more rest)
        (stops_items more' rest') (List.cons.inj heq).2
      obtain ⟨rfl, hsame⟩ := marshalItems_inj more more' htail
      exact ⟨rfl, hsame⟩

theorem marshalEntries_inj : ∀ (entries entries' : List (String × GoValue floats.Value))
    {rest rest' : List Char},
    marshalEntries floats entries ++ rest = marshalEntries floats entries' ++ rest' →
      entries = entries' ∧ rest = rest'
  | [], [], rest, rest', heq => ⟨rfl, List.append_cancel_left heq⟩
  | [], _ :: _, rest, rest', heq => by
      rw [marshalEntries, marshalEntries] at heq
      cases (List.cons.inj heq).1
  | _ :: _, [], rest, rest', heq => by
      rw [marshalEntries, marshalEntries] at heq
      cases (List.cons.inj heq).1
  | (key, value) :: more, (key', value') :: more', rest, rest', heq => by
      rw [marshalEntries, marshalEntries, List.cons_append, List.cons_append, List.append_assoc,
        List.append_assoc] at heq
      obtain ⟨rfl, htail⟩ := marshalString_inj (List.cons.inj heq).2
      rw [List.cons_append, List.cons_append, List.append_assoc, List.append_assoc] at htail
      obtain ⟨rfl, hafter⟩ := marshal_inj value value' (stops_entries more rest)
        (stops_entries more' rest') (List.cons.inj htail).2
      obtain ⟨rfl, hsame⟩ := marshalEntries_inj more more' hafter
      exact ⟨rfl, hsame⟩

end

end Marshalled

end CoreMesh.Cache
