import CoreMesh.Lib.OrderedDict
import Mathlib.Algebra.GroupWithZero.Nat

/-!
# What is recorded of attributes

`_safe_attributes` keeps a fingerprint and the length of what may be a body or a secret, and cuts all other
texts. A span's attributes go through it when they are set and once more when they are exported. A fingerprint
has 64 characters, and the keys it is recorded under are not sensitive themselves, so that it is taken for an
ordinary text the second time.
-/

namespace CoreMesh.Tracing.Sanitising

open OrderedDict

/-! ### Values -/

/-- An attribute's value; an enumeration's member may be a text as well. What is neither a number, a text nor a
sequence is any object. -/
inductive Value (F O : Type) where
  | none
  | enum (text : Option String) (value : Value F O)
  | bool (value : Bool)
  | int (value : Int)
  | float (value : F)
  | str (text : String)
  | bytes (bytes : List UInt8)
  | sequence (items : List (Value F O))
  | other (object : O)

/-- `str.lower`, `json.dumps` or `str` where that fails, and SHA-256. Of the first it is used that the end of a
text in small letters of ASCII stays what it is. -/
structure Python (F O : Type) where
  lower : String → String
  dumps : Value F O → String
  sha256 : String → BitVec 256
  lower_ending : ∀ key ending : String, (∀ c ∈ ending.toList, c.toNat < 128 ∧ c.isUpper = false) →
    ending.toList <:+ (lower (key ++ ending)).toList

variable {F O : Type}

namespace Value

/-- `isinstance(item, bool | int | float | str)`. -/
def isScalar : Value F O → Bool
  | bool _ | int _ | float _ | str _ => true
  | enum text _ => text.isSome
  | none | bytes _ | sequence _ | other _ => false

/-- None, or a member whose value is. -/
def isNone : Value F O → Bool
  | none => true
  | enum _ value => value.isNone
  | bool _ | int _ | float _ | str _ | bytes _ | sequence _ | other _ => false

end Value

def cut (maxLength : Nat) (text : String) : String := String.ofList (text.toList.take maxLength)

def hexByte (byte : UInt8) : List Char := [Nat.digitChar (byte.toNat / 16), Nat.digitChar (byte.toNat % 16)]

/-- `hexdigest`. -/
def hexDigest (digest : BitVec 256) : String :=
  String.ofList ((List.range 64).map fun i => Nat.digitChar (digest.toNat / 16 ^ (63 - i) % 16))

section Attributes

variable (python : Python F O)

def stableText : Value F O → String
  | .bytes bytes => String.ofList (bytes.flatMap hexByte)
  | .str text | .enum (some text) _ => text
  | value => python.dumps value

def contentMetadata (name : String) (value : Value F O) : List (String × Value F O) :=
  let serialized := stableText python value
  [(name ++ ".sha256", .str (hexDigest (python.sha256 serialized))),
    (name ++ ".length", .int serialized.length)]

/-! ### Keys -/

def sensitiveLeafSegments : List String :=
  ["authorization", "body", "content", "document", "input", "message", "output", "password", "prompt",
    "query", "response", "secret", "sql", "stacktrace", "text", "token", "user_id"]

def sensitiveKeySuffixes : List String :=
  ["exception.message", "exception.stacktrace", "query.text", "redis.key"]

def preservedKeySuffixes : List String :=
  [".sha256", ".length", ".token_count", ".input_tokens", ".output_tokens"]

def endsWith (text ending : String) : Bool := ending.toList.isSuffixOf text.toList

/-- What is behind the last dot. -/
def leaf (key : String) : String := String.ofList ((key.toList.reverse.takeWhile (· ≠ '.')).reverse)

def isSensitiveAttributeKey (keyLower : String) : Bool :=
  if preservedKeySuffixes.any (endsWith keyLower) ||
      ["input_tokens", "output_tokens", "token_count"].contains keyLower then false
  else if sensitiveKeySuffixes.any fun ending => keyLower == ending || endsWith keyLower ("." ++ ending) then true
  else sensitiveLeafSegments.contains (leaf keyLower)

def isSensitive (key : String) : Bool := isSensitiveAttributeKey (python.lower key)

/-! ### What is kept -/

mutual

def otelValue (maxLength : Nat) : Value F O → Value F O
  | .none => .none
  | .enum _ value => otelValue maxLength value
  | .bool value => .bool value
  | .int value => .int value
  | .float value => .float value
  | .str text => .str (cut maxLength text)
  | .sequence items => .sequence (otelItems maxLength items)
  | .bytes bytes => .str (cut maxLength (stableText python (.bytes bytes)))
  | .other object => .str (cut maxLength (stableText python (.other object)))

def otelItems (maxLength : Nat) : List (Value F O) → List (Value F O)
  | [] => []
  | item :: items =>
      let kept := otelValue maxLength item
      if kept.isScalar then kept :: otelItems maxLength items else otelItems maxLength items

end

/-- One attribute; its key is a text already. -/
def record (maxLength : Nat) (safe : List (String × Value F O)) (entry : String × Value F O) :
    List (String × Value F O) :=
  if isSensitive python entry.1 then
    insertAll Prod.fst safe (contentMetadata python entry.1 entry.2)
  else
    match otelValue python maxLength entry.2 with
    | .none => safe
    | value => insert Prod.fst safe (entry.1, value)

def safeAttributes (maxLength : Nat) (attributes : List (String × Value F O)) : List (String × Value F O) :=
  attributes.foldl (record python maxLength) []

/-! ### The entries of one attribute -/

/-- What is written for an attribute. -/
def written (maxLength : Nat) (entry : String × Value F O) : List (String × Value F O) :=
  if isSensitive python entry.1 then contentMetadata python entry.1 entry.2
  else if entry.2.isNone then []
  else [(entry.1, otelValue python maxLength entry.2)]

variable {python} {maxLength : Nat}

theorem cut_cut (text : String) : cut maxLength (cut maxLength text) = cut maxLength text := by
  rw [cut, cut, String.toList_ofList, List.take_take, Nat.min_self]

theorem length_hexDigest (digest : BitVec 256) : (hexDigest digest).toList.length = 64 := by
  rw [hexDigest, String.toList_ofList, List.length_map, List.length_range]

theorem cut_hexDigest_eq_iff (digest : BitVec 256) :
    cut maxLength (hexDigest digest) = hexDigest digest ↔ 64 ≤ maxLength := by
  constructor
  · intro h
    have hlength := congrArg (fun text => text.toList.length) h
    simp only [cut, String.toList_ofList, List.length_take, length_hexDigest] at hlength
    omega
  · intro h
    rw [cut, List.take_of_length_le (by rw [length_hexDigest]; exact h), String.ofList_toList]

theorem otelValue_eq_none_iff (value : Value F O) :
    otelValue python maxLength value = .none ↔ value.isNone = true := by
  fun_induction Value.isNone value with
  | case1 => simp [otelValue]
  | case2 text value ih =>
      rw [otelValue]
      exact ih
  | _ => simp [otelValue]

theorem isNone_otelValue (value : Value F O) :
    (otelValue python maxLength value).isNone = value.isNone := by
  fun_induction Value.isNone value with
  | case1 => simp [otelValue, Value.isNone]
  | case2 text value ih =>
      rw [otelValue]
      exact ih
  | _ => simp [otelValue, Value.isNone]

mutual

theorem otelValue_otelValue : ∀ value : Value F O,
    otelValue python maxLength (otelValue python maxLength value) = otelValue python maxLength value
  | .none => by rw [otelValue, otelValue]
  | .enum _ value => by
      rw [otelValue]
      exact otelValue_otelValue value
  | .bool _ | .int _ | .float _ => by rw [otelValue, otelValue]
  | .str text => by rw [otelValue, otelValue, cut_cut]
  | .bytes _ | .other _ => by rw [otelValue, otelValue, cut_cut]
  | .sequence items => by rw [otelValue, otelValue, otelItems_otelItems items]

theorem otelItems_otelItems : ∀ items : List (Value F O),
    otelItems python maxLength (otelItems python maxLength items) = otelItems python maxLength items
  | [] => by rw [otelItems, otelItems]
  | item :: items => by
      rw [otelItems]
      split
      · rename_i hscalar
        rw [otelItems, otelValue_otelValue item, if_pos hscalar, otelItems_otelItems items]
      · exact otelItems_otelItems items

end

theorem record_eq (safe : List (String × Value F O)) (entry : String × Value F O) :
    record python maxLength safe entry =
      insertAll Prod.fst safe (written python maxLength entry) := by
  rw [record, written]
  split
  · rfl
  · split
    · rename_i hnone
      rw [if_pos ((otelValue_eq_none_iff _).mp hnone)]
      rfl
    · rename_i hvalue
      rw [if_neg fun hnone => hvalue ((otelValue_eq_none_iff _).mpr hnone)]
      rfl

theorem safeAttributes_eq (attributes : List (String × Value F O)) :
    safeAttributes python maxLength attributes =
      insertAll Prod.fst [] (attributes.flatMap (written python maxLength)) := by
  have hrun : ∀ safe, attributes.foldl (record python maxLength) safe =
      insertAll Prod.fst safe (attributes.flatMap (written python maxLength)) := by
    induction attributes with
    | nil => exact fun safe => rfl
    | cons entry attributes ih =>
        intro safe
        rw [List.foldl_cons, ih, record_eq, List.flatMap_cons, insertAll_append]
  exact hrun []

/-! ### What is written -/

theorem not_isSensitive_of_ending {key ending : String} (hpreserved : ending ∈ preservedKeySuffixes)
    (hsmall : (ending.toList.all fun c => decide (c.toNat < 128 ∧ c.isUpper = false)) = true) :
    isSensitive python (key ++ ending) = false := by
  have hends : preservedKeySuffixes.any (endsWith (python.lower (key ++ ending))) = true :=
    List.any_eq_true.mpr ⟨ending, hpreserved,
      List.isSuffixOf_iff_suffix.mpr (python.lower_ending key ending fun c hc =>
        of_decide_eq_true (List.all_eq_true.mp hsmall c hc))⟩
  rw [isSensitive, isSensitiveAttributeKey, hends]
  rfl

theorem not_isSensitive_sha256 (key : String) : isSensitive python (key ++ ".sha256") = false :=
  not_isSensitive_of_ending (by decide) (by decide)

theorem not_isSensitive_length (key : String) : isSensitive python (key ++ ".length") = false :=
  not_isSensitive_of_ending (by decide) (by decide)

/-- What is written is cut already, or a fingerprint. -/
theorem mem_written {entry safe : String × Value F O} (hmem : safe ∈ written python maxLength entry) :
    isSensitive python safe.1 = false ∧ safe.2.isNone = false ∧
      (otelValue python maxLength safe.2 = safe.2 ∨ isSensitive python entry.1 = true ∧
        ∃ digest, safe = (entry.1 ++ ".sha256", .str (hexDigest digest))) := by
  rw [written] at hmem
  split at hmem
  · rename_i hsensitive
    rw [contentMetadata, List.mem_cons, List.mem_singleton] at hmem
    obtain rfl | rfl := hmem
    · exact ⟨not_isSensitive_sha256 _, rfl, .inr ⟨hsensitive, _, rfl⟩⟩
    · exact ⟨not_isSensitive_length _, rfl, .inl (by rw [otelValue])⟩
  · rename_i hordinary
    split at hmem
    · cases hmem
    · rename_i hvalue
      rw [List.mem_singleton] at hmem
      subst hmem
      refine ⟨Bool.eq_false_iff.mpr hordinary, ?_, .inl (otelValue_otelValue _)⟩
      rw [isNone_otelValue]
      exact Bool.eq_false_iff.mpr hvalue

theorem append_length_ne (key key' : String) : key ++ ".length" ≠ key' ++ ".sha256" := by
  intro h
  have hlast := congrArg (fun text => text.toList.getLast?) h
  simp [String.toList_append] at hlast

/-- Under the key of a fingerprint there is written the fingerprint itself, or what an attribute that has this
key brings. -/
theorem last?_written (entry : String × Value F O) {key : String} (hsensitive : isSensitive python key = true) :
    last? Prod.fst (written python maxLength entry) (key ++ ".sha256") =
      if entry.1 = key then some (key ++ ".sha256",
        .str (hexDigest (python.sha256 (stableText python entry.2))))
      else if entry.1 = key ++ ".sha256" ∧ entry.2.isNone = false then
        some (key ++ ".sha256", otelValue python maxLength entry.2)
      else none := by
  obtain ⟨name, value⟩ := entry
  dsimp only
  rw [written]
  dsimp only
  by_cases hname : isSensitive python name = true
  · have hne : name ≠ key ++ ".sha256" := by
      intro heq
      rw [heq, not_isSensitive_sha256] at hname
      cases hname
    rw [if_pos hname, contentMetadata, last?, List.reverse_cons, List.reverse_singleton,
      List.singleton_append, get?_cons, if_neg (append_length_ne _ _), get?_cons]
    by_cases hsame : name = key
    · subst hsame
      rw [if_pos rfl, if_pos rfl]
    · rw [if_neg fun heq => hsame ((String.append_left_inj _).mp heq), if_neg hsame, if_neg fun h => hne h.1]
      rfl
  · have hne : name ≠ key := by
      intro heq
      exact hname (heq ▸ hsensitive)
    rw [if_neg hname, if_neg hne]
    cases hnone : value.isNone with
    | true =>
        rw [if_pos rfl, if_neg fun h => Bool.noConfusion h.2]
        rfl
    | false =>
        rw [if_neg Bool.false_ne_true, last?, List.reverse_singleton, get?_cons]
        by_cases hsame : name = key ++ ".sha256"
        · rw [if_pos hsame, if_pos ⟨hsame, rfl⟩, hsame]
        · rw [if_neg hsame, if_neg fun h => hsame h.1]
          rfl

/-! ### The second time -/

/-- Every attribute with a key is followed by one that takes the place of its fingerprint. -/
def FingerprintReplaced (attributes : List (String × Value F O)) (key : String) : Prop :=
  ∀ before value after, attributes = before ++ (key, value) :: after →
    ∃ replaced, (key ++ ".sha256", replaced) ∈ after ∧ replaced.isNone = false

theorem mem_safeAttributes_iff {attributes : List (String × Value F O)} {safe : String × Value F O} :
    safe ∈ safeAttributes python maxLength attributes ↔
      last? Prod.fst (attributes.flatMap (written python maxLength)) safe.1 = some safe := by
  have hempty : Distinct Prod.fst ([] : List (String × Value F O)) := List.nodup_nil
  rw [safeAttributes_eq, (hempty.insertAll _).mem_iff, get?_insertAll]
  exact iff_of_eq (congrArg (· = some safe) Option.or_none)

theorem distinct_safeAttributes (attributes : List (String × Value F O)) :
    Distinct Prod.fst (safeAttributes python maxLength attributes) := by
  have hempty : Distinct Prod.fst ([] : List (String × Value F O)) := List.nodup_nil
  rw [safeAttributes_eq]
  exact hempty.insertAll _

theorem exists_written_of_mem {attributes : List (String × Value F O)} {safe : String × Value F O}
    (hmem : safe ∈ safeAttributes python maxLength attributes) :
    ∃ entry ∈ attributes, safe ∈ written python maxLength entry :=
  List.mem_flatMap.mp (key_of_last? (mem_safeAttributes_iff.mp hmem)).2

/-- No key is sensitive any more, so the values are taken one by one. -/
theorem safeAttributes_safeAttributes (attributes : List (String × Value F O)) :
    safeAttributes python maxLength (safeAttributes python maxLength attributes) =
      (safeAttributes python maxLength attributes).map fun safe =>
        (safe.1, otelValue python maxLength safe.2) := by
  have hwritten : ∀ safe ∈ safeAttributes python maxLength attributes,
      written python maxLength safe = [(safe.1, otelValue python maxLength safe.2)] := by
    intro safe hsafe
    obtain ⟨entry, -, hmem⟩ := exists_written_of_mem hsafe
    obtain ⟨hordinary, hvalue, -⟩ := mem_written hmem
    rw [written, if_neg (Bool.eq_false_iff.mp hordinary), if_neg (Bool.eq_false_iff.mp hvalue)]
  rw [safeAttributes_eq, List.flatMap_congr hwritten, ← List.map_eq_flatMap]
  apply insertAll_of_distinct
  rw [Distinct, List.map_map]
  exact distinct_safeAttributes attributes

theorem safeAttributes_idempotent_iff (attributes : List (String × Value F O)) :
    safeAttributes python maxLength (safeAttributes python maxLength attributes) =
        safeAttributes python maxLength attributes ↔
      ∀ safe ∈ safeAttributes python maxLength attributes, otelValue python maxLength safe.2 = safe.2 := by
  have hmap := @List.map_inj_left _ _ (safeAttributes python maxLength attributes)
    (fun safe => (safe.1, otelValue python maxLength safe.2)) id
  rw [List.map_id] at hmap
  rw [safeAttributes_safeAttributes, hmap]
  refine forall₂_congr fun safe _ => ?_
  exact ⟨fun h => congrArg Prod.snd h, fun h => Prod.ext rfl h⟩

/-- What an attribute more changes about the entry under the key of a fingerprint. -/
theorem last?_flatMap_concat (attributes : List (String × Value F O)) (entry : String × Value F O)
    {key : String} (hsensitive : isSensitive python key = true) :
    last? Prod.fst ((attributes ++ [entry]).flatMap (written python maxLength)) (key ++ ".sha256") =
      if entry.1 = key then some (key ++ ".sha256",
        .str (hexDigest (python.sha256 (stableText python entry.2))))
      else if entry.1 = key ++ ".sha256" ∧ entry.2.isNone = false then
        some (key ++ ".sha256", otelValue python maxLength entry.2)
      else last? Prod.fst (attributes.flatMap (written python maxLength)) (key ++ ".sha256") := by
  rw [List.flatMap_append, last?_append, List.flatMap_singleton, last?_written entry hsensitive]
  split
  · rfl
  · split
    · rfl
    · rfl

/-- A fingerprint that nothing takes the place of is there in the end. -/
theorem exists_fingerprint {attributes : List (String × Value F O)} {key : String}
    (hsensitive : isSensitive python key = true) (hkept : ¬FingerprintReplaced attributes key) :
    ∃ digest, (key ++ ".sha256", .str (hexDigest digest)) ∈ safeAttributes python maxLength attributes := by
  rw [FingerprintReplaced] at hkept
  push Not at hkept
  obtain ⟨before, value, after, rfl, hafter⟩ := hkept
  suffices hlast : ∃ digest, last? Prod.fst ((before ++ (key, value) :: after).flatMap
      (written python maxLength)) (key ++ ".sha256") = some (key ++ ".sha256", .str (hexDigest digest)) by
    obtain ⟨digest, hdigest⟩ := hlast
    exact ⟨digest, mem_safeAttributes_iff.mpr hdigest⟩
  induction after using List.reverseRecOn with
  | nil => exact ⟨_, by rw [last?_flatMap_concat before (key, value) hsensitive, if_pos rfl]⟩
  | append_singleton after entry ih =>
      rw [← List.cons_append, ← List.append_assoc, last?_flatMap_concat _ entry hsensitive]
      split
      · exact ⟨_, rfl⟩
      · split
        · rename_i hreplaced
          refine absurd hreplaced.2 (hafter entry.2 ?_)
          rw [← hreplaced.1]
          exact List.mem_append_right _ List.mem_cons_self
        · exact ih fun replaced hmem => hafter replaced (List.mem_append_left _ hmem)

theorem fixed_of_replaced {attributes : List (String × Value F O)} {key : String}
    (hsensitive : isSensitive python key = true) (hreplaced : FingerprintReplaced attributes key)
    {safe : String × Value F O}
    (hlast : last? Prod.fst (attributes.flatMap (written python maxLength)) (key ++ ".sha256") = some safe) :
    otelValue python maxLength safe.2 = safe.2 := by
  induction attributes using List.reverseRecOn with
  | nil => cases hlast
  | append_singleton attributes entry ih =>
      rw [last?_flatMap_concat _ entry hsensitive] at hlast
      split at hlast
      · -- A sensitive attribute at the end is followed by none.
        rename_i hkey
        obtain ⟨replaced, hmem, -⟩ := hreplaced attributes entry.2 [] (by rw [← hkey])
        cases hmem
      · split at hlast
        · rw [← Option.some.inj hlast]
          exact otelValue_otelValue _
        · rename_i hordinary
          refine ih (fun before value after heq => ?_) hlast
          obtain ⟨replaced, hmem, hvalue⟩ := hreplaced before value (after ++ [entry]) (by rw [heq]; simp)
          rw [List.mem_append, List.mem_singleton] at hmem
          obtain hmem | rfl := hmem
          · exact ⟨replaced, hmem, hvalue⟩
          · exact absurd ⟨rfl, hvalue⟩ hordinary

/-- Attributes are the same when they are sanitised once more, unless a fingerprint is cut. -/
theorem safeAttributes_safeAttributes_eq_iff (python : Python F O) (maxLength : Nat)
    (attributes : List (String × Value F O)) :
    safeAttributes python maxLength (safeAttributes python maxLength attributes) =
        safeAttributes python maxLength attributes ↔
      64 ≤ maxLength ∨ ∀ key, isSensitive python key = true → FingerprintReplaced attributes key := by
  rw [safeAttributes_idempotent_iff]
  constructor
  · intro hfixed
    by_contra hnot
    rw [not_or] at hnot
    obtain ⟨hshort, hkept⟩ := hnot
    push Not at hkept
    obtain ⟨key, hsensitive, hkey⟩ := hkept
    obtain ⟨digest, hmem⟩ := @exists_fingerprint _ _ python maxLength _ _ hsensitive hkey
    have heq := hfixed _ hmem
    rw [otelValue] at heq
    exact hshort ((cut_hexDigest_eq_iff digest).mp (Value.str.inj heq))
  · intro hcondition safe hsafe
    obtain ⟨entry, -, hwritten⟩ := exists_written_of_mem hsafe
    obtain hfixed | ⟨hsensitive, digest, rfl⟩ := (mem_written hwritten).2.2
    · exact hfixed
    · obtain hlong | hreplaced := hcondition
      · rw [otelValue, (cut_hexDigest_eq_iff digest).mpr hlong]
      · exact fixed_of_replaced hsensitive (hreplaced _ hsensitive) (mem_safeAttributes_iff.mp hsafe)

end Attributes

/-! ### A short limit -/

/-- On texts of ASCII; the digest is that of `x`. -/
def ascii : Python Rat Unit where
  lower := fun text => String.ofList (text.toList.map Char.toLower)
  dumps := fun _ => ""
  sha256 := fun _ => 0x2d711642b726b04401627ca9fbac32f5c8530fb1903cc4db02258717921a4881#256
  lower_ending := by
    intro key ending hsmall
    have hself : ending.toList.map Char.toLower = ending.toList := by
      refine (List.map_congr_left fun c hc => ?_).trans (List.map_id _)
      exact dif_neg (of_decide_eq_false (hsmall c hc).2)
    rw [String.toList_ofList, String.toList_append, List.map_append, hself]
    exact List.suffix_append _ _

/-- How long the recorded texts are. -/
def textLengths (safe : List (String × Value Rat Unit)) : List Nat :=
  safe.map fun entry =>
    match entry.2 with
    | .str text => text.toList.length
    | _ => 0

/-- The first half of the fingerprint is left. -/
theorem fingerprint_cut : safeAttributes ascii 32 (safeAttributes ascii 32 [("prompt", .str "x")]) ≠
    safeAttributes ascii 32 [("prompt", .str "x")] := by
  intro h
  have hlengths := congrArg textLengths h
  revert hlengths
  decide +kernel

end CoreMesh.Tracing.Sanitising
