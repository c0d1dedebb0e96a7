import Mathlib.Data.List.DropRight
import CoreMesh.Cache.GoJson
import CoreMesh.Http.Header
import CoreMesh.Http.Url
import CoreMesh.Lib.KeyedList

/-!
# What the cache reads of a request

`extractRequest` and what it calls: the prompt and the system text of a conversation, the hash of the
other parameters, and the scope the two are looked up in. SHA-256 is a parameter.
-/

namespace CoreMesh.Cache

open CoreMesh.Http KeyedList

/-- `sha256.Sum256` in hexadecimal. -/
structure Sha256 where
  hex : String → String
  injective : ∀ a b, hex a = hex b → a = b
  hexDigits : ∀ text, ∀ c ∈ (hex text).toList, c ∈ "0123456789abcdef".toList

structure Request where
  method : String
  url : URL
  header : Header
  /-- The JSON text that the body is, if it can be read and is one. -/
  body : Option Json

structure CacheRequest where
  prompt : String
  model : String
  systemHash : String
  paramsHash : String
  scopeHash : String
  stream : Bool
  deriving DecidableEq, Repr

/-- `unicode.IsSpace`. -/
def isSpace (c : Char) : Bool :=
  (9 ≤ c.toNat && c.toNat ≤ 13) || c.toNat == 0x20 || c.toNat == 0x85 || c.toNat == 0xa0 ||
    c.toNat == 0x1680 || (0x2000 ≤ c.toNat && c.toNat ≤ 0x200a) || c.toNat == 0x2028 ||
    c.toNat == 0x2029 || c.toNat == 0x202f || c.toNat == 0x205f || c.toNat == 0x3000

/-- `strings.TrimSpace`. -/
def trimSpace (text : String) : String :=
  String.ofList ((text.toList.dropWhile isSpace).rdropWhile isSpace)

/-- `strings.Contains`. -/
def contains (text needle : String) : Bool :=
  text.toList.tails.any fun rest => needle.toList.isPrefixOf rest

/-- `strings.ToLower`, as far as letters of ASCII come out of it. -/
def toLower (text : String) : String :=
  String.ofList (text.toList.map fun c =>
    if c.toNat = 0x130 then 'i' else if c.toNat = 0x212a then 'k' else c.toLower)

/-- `strings.EqualFold`, as far as letters of ASCII are equal to others. -/
def equalFold (text text' : String) : Bool :=
  let fold (c : Char) : Char :=
    if c.toNat = 0x17f then 's' else if c.toNat = 0x212a then 'k' else c.toLower
  text.toList.map fold == text'.toList.map fold

/-- The fields of a body as a map, in which the last of several members with one key is. -/
def fieldsOf : Json → Option (List (String × Json))
  | .null => some []
  | .obj members => some (members.foldr (fun member => insertMissing member.1 member.2) [])
  | _ => none

/-! ### Fields -/

theorem mem_insertMissing {α : Type} {key : String} {value : α} {entries : List (String × α)}
    {entry : String × α} (hmem : entry ∈ insertMissing key value entries) :
    entry = (key, value) ∨ entry ∈ entries := by
  induction entries with
  | nil => exact .inl (List.mem_singleton.mp hmem)
  | cons head rest ih =>
      obtain ⟨k, v⟩ := head
      unfold insertMissing at hmem
      split at hmem
      · exact .inr hmem
      · split at hmem
        · exact List.mem_cons.mp hmem
        · rcases List.mem_cons.mp hmem with rfl | hmem
          · exact .inr List.mem_cons_self
          · exact (ih hmem).imp_right (List.mem_cons_of_mem _)

theorem sorted_insertMissing {α : Type} {entries : List (String × α)} (hsorted : Sorted entries)
    (key : String) (value : α) : Sorted (insertMissing key value entries) := by
  induction entries with
  | nil => exact List.pairwise_singleton _ _
  | cons head rest ih =>
      obtain ⟨k, v⟩ := head
      obtain ⟨hleast, hrest⟩ := List.pairwise_cons.mp hsorted
      rcases lt_trichotomy key k with hlt | rfl | hgt
      · rw [insertMissing_before hlt]
        refine List.pairwise_cons.mpr ⟨fun entry hentry => ?_, hsorted⟩
        rcases List.mem_cons.mp hentry with rfl | hentry
        · exact hlt
        · exact lt_trans hlt (hleast entry hentry)
      · rw [insertMissing, if_pos rfl]
        exact hsorted
      · rw [insertMissing_after hgt]
        refine List.pairwise_cons.mpr ⟨fun entry hentry => ?_, ih hrest⟩
        rcases mem_insertMissing hentry with rfl | hentry
        · exact hgt
        · exact hleast entry hentry

theorem lookup_insertMissing {α : Type} {key : String} {entries : List (String × α)}
    (hfresh : entries.lookup key = none) (value : α) (k : String) :
    (insertMissing key value entries).lookup k = if k = key then some value else entries.lookup k := by
  induction entries with
  | nil => exact lookup_cons k key value []
  | cons head rest ih =>
      obtain ⟨name, v⟩ := head
      rw [lookup_cons] at hfresh
      have hne : key ≠ name := by
        intro heq
        rw [if_pos heq] at hfresh
        cases hfresh
      rw [if_neg hne] at hfresh
      unfold insertMissing
      rw [if_neg hne]
      split
      · rw [lookup_cons]
      · rw [lookup_cons, lookup_cons, ih hfresh]
        by_cases hname : k = name
        · simp [hname, Ne.symm hne]
        · simp [hname]

/-- Entries by key are the fields of the object they make. -/
theorem fieldsOf_of_sorted {entries : List (String × Json)} (hsorted : Sorted entries) :
    fieldsOf (.obj entries) = some entries := by
  refine congrArg some ?_
  induction entries with
  | nil => rfl
  | cons head rest ih =>
      obtain ⟨hleast, hrest⟩ := List.pairwise_cons.mp hsorted
      rw [List.foldr_cons, ih hrest]
      cases rest with
      | nil => rfl
      | cons next rest => exact insertMissing_before (hleast next List.mem_cons_self) _ _ _

theorem mem_fieldsOf {members fields : List (String × Json)}
    (hfields : fieldsOf (.obj members) = some fields) : ∀ field ∈ fields, field ∈ members := by
  obtain rfl := Option.some.inj hfields
  induction members with
  | nil => simp
  | cons member rest ih =>
      intro field hmem
      rcases mem_insertMissing hmem with rfl | hmem
      · exact List.mem_cons_self
      · exact List.mem_cons_of_mem _ (ih rfl field hmem)

theorem sorted_fieldsOf {json : Json} {fields : List (String × Json)}
    (hfields : fieldsOf json = some fields) : Sorted fields := by
  cases json with
  | null =>
      obtain rfl := Option.some.inj hfields
      exact List.Pairwise.nil
  | obj members =>
      obtain rfl := Option.some.inj hfields
      induction members with
      | nil => exact List.Pairwise.nil
      | cons member rest ih => exact sorted_insertMissing (ih rfl) member.1 member.2
  | _ => cases hfields

/-! ### Conversations -/

section Conversation

variable (floats : FloatCodec)

mutual

def contentText : GoValue floats.Value → String
  | .string text => text
  | .slice items => "\n".intercalate (contentParts items)
  | .map entries =>
      match entries.lookup "text" with
      | some (.string text) => text
      | _ => contentEntry entries
  | _ => ""

def contentParts : List (GoValue floats.Value) → List String
  | [] => []
  | item :: rest =>
      let text := trimSpace (contentText item)
      if text = "" then contentParts rest else text :: contentParts rest

/-- The text under the key `content`. -/
def contentEntry : List (String × GoValue floats.Value) → String
  | [] => ""
  | (key, value) :: rest => if key = "content" then contentText value else contentEntry rest

end

/-- An element of `messages`. -/
structure Message where
  role : String := ""
  content : Option Json := none

/-- A key selects the field whose name it is but for the case of letters. -/
def isField (name key : String) : Bool := toLower key == name

/-- Decodes a member; a role that is no string is an error. -/
def Message.member (message : Message) : String × Json → Option Message
  | (key, value) =>
      if isField "role" key then
        match value with
        | .null => some message
        | .str role => some { message with role }
        | _ => none
      else if isField "content" key then some { message with content := some value }
      else some message

def decodeMessage : Json → Option Message
  | .null => some {}
  | .obj members => members.foldlM Message.member {}
  | _ => none

/-- `json.Unmarshal` of the field `messages`, which is an error if there is none. -/
def decodeMessages : Option Json → Option (List Message)
  | some .null => some []
  | some (.arr items) => items.mapM decodeMessage
  | _ => none

/-- The role and text of a message that has text. -/
def turn (message : Message) : Option (String × String) := do
  let value ← decode floats (← message.content)
  let text := trimSpace (contentText floats value)
  if text = "" then none else some (message.role, text)

def isSystem (role : String) : Bool := role == "system" || role == "developer"

def isFallback (role : String) : Bool := !isSystem role && role != "user"

/-- The texts of the turns in certain roles. -/
def textsOf (role : String → Bool) (turns : List (String × String)) : List String :=
  (turns.filter fun turn => role turn.1).map Prod.snd

/-- The turns of the field `messages`. -/
def turnsOf (fields : List (String × Json)) : Option (List (String × String)) :=
  (decodeMessages (fields.lookup "messages")).map fun messages => messages.filterMap (turn floats)

def extractPromptAndSystem (fields : List (String × Json)) : String × List String :=
  match (fields.lookup "prompt").bind (decode floats) with
  | some value => (contentText floats value, [])
  | none =>
      match turnsOf floats fields with
      | none => ("", [])
      | some turns =>
          let userParts := textsOf (· == "user") turns
          let parts := if userParts = [] then textsOf isFallback turns else userParts
          ("\n".intercalate parts, textsOf isSystem turns)

end Conversation

/-! ### The request -/

def jsonString : Option Json → String
  | some (.str value) => value
  | _ => ""

def jsonBool : Option Json → Bool
  | some (.bool value) => value
  | _ => false

def formatBool (value : Bool) : String := if value then "true" else "false"

/-- The fields `hashJSONFields` hashes; one that does not decode is left out. -/
def normalized (floats : FloatCodec) (excluded : List String) (fields : List (String × Json)) :
    List (String × GoValue floats.Value) :=
  fields.filterMap fun (key, raw) =>
    if key ∈ excluded then none else (decode floats raw).map fun value => (key, value)

def normalizedText (floats : FloatCodec) (entries : List (String × GoValue floats.Value)) : String :=
  if entries.isEmpty then "" else String.ofList (marshal floats (.map entries))

def hashJSONFields (sha : Sha256) (floats : FloatCodec) (excluded : List String)
    (fields : List (String × Json)) : String :=
  sha.hex (normalizedText floats (normalized floats excluded fields))

/-- The lines that `hashScope` hashes, by key. -/
def scopeText (values : List (String × String)) : String :=
  String.join ((values.foldr (fun entry => insertMissing entry.1 entry.2) []).map fun (key, value) =>
    key ++ "=" ++ value ++ "\n")

def hashScope (sha : Sha256) (values : List (String × String)) : String := sha.hex (scopeText values)

/-- The fields of the body, none if it is not eligible. -/
def Request.fields (r : Request) : List (String × Json) := (r.body.bind fieldsOf).getD []

theorem sorted_fields (r : Request) : Sorted r.fields := by
  unfold Request.fields
  cases hfields : r.body.bind fieldsOf with
  | none => exact List.Pairwise.nil
  | some fields =>
      obtain ⟨json, -, hjson⟩ := Option.bind_eq_some_iff.mp hfields
      exact sorted_fieldsOf hjson

def excludedFields : List String := ["messages", "model", "prompt", "stream"]

def extractRequest (sha : Sha256) (floats : FloatCodec) (r : Request) : Option CacheRequest := do
  if r.method ≠ "POST" then none
  if !contains (toLower (r.header.get "Content-Type")) "application/json" then none
  let fields ← r.body.bind fieldsOf
  let (prompt, system) := extractPromptAndSystem floats fields
  let prompt := trimSpace prompt
  if prompt = "" then none
  let model := jsonString (fields.lookup "model")
  let systemHash := sha.hex ("\n".intercalate system)
  let paramsHash := hashJSONFields sha floats excludedFields fields
  let stream := jsonBool (fields.lookup "stream")
  let scopeHash := hashScope sha
    [("method", r.method), ("path", r.url.escapedPath), ("model", model),
      ("system_hash", systemHash), ("params_hash", paramsHash), ("stream", formatBool stream)]
  return { prompt, model, systemHash, paramsHash, scopeHash, stream }

/-! ### Eligible requests -/

/-- What the cache makes of the fields of a body. -/
def cacheRequestOf (sha : Sha256) (floats : FloatCodec) (r : Request) (fields : List (String × Json)) :
    CacheRequest where
  prompt := trimSpace (extractPromptAndSystem floats fields).1
  model := jsonString (fields.lookup "model")
  systemHash := sha.hex ("\n".intercalate (extractPromptAndSystem floats fields).2)
  paramsHash := hashJSONFields sha floats excludedFields fields
  scopeHash := hashScope sha
    [("method", r.method), ("path", r.url.escapedPath), ("model", jsonString (fields.lookup "model")),
      ("system_hash", sha.hex ("\n".intercalate (extractPromptAndSystem floats fields).2)),
      ("params_hash", hashJSONFields sha floats excludedFields fields),
      ("stream", formatBool (jsonBool (fields.lookup "stream")))]
  stream := jsonBool (fields.lookup "stream")

structure Eligible (floats : FloatCodec) (r : Request) : Prop where
  method : r.method = "POST"
  contentType : contains (toLower (r.header.get "Content-Type")) "application/json" = true
  body : r.body.bind fieldsOf = some r.fields
  prompt : trimSpace (extractPromptAndSystem floats r.fields).1 ≠ ""

/-- The requests the cache handles, and what it makes of them. -/
theorem extractRequest_eq_some_iff {sha : Sha256} {floats : FloatCodec} {r : Request}
    {c : CacheRequest} :
    extractRequest sha floats r = some c ↔
      Eligible floats r ∧ c = cacheRequestOf sha floats r r.fields := by
  by_cases hmethod : r.method ≠ "POST"
  · rw [extractRequest, if_pos hmethod]
    constructor
    · intro hnone
      cases hnone
    · exact fun heligible => absurd heligible.1.method hmethod
  by_cases hjson : (!contains (toLower (r.header.get "Content-Type")) "application/json") = true
  · simp only [extractRequest, if_neg hmethod, if_pos hjson]
    constructor
    · intro hnone
      cases hnone
    · intro heligible
      rw [heligible.1.contentType] at hjson
      cases hjson
  cases hbody : r.body.bind fieldsOf with
  | none =>
      simp only [extractRequest, if_neg hmethod, if_neg hjson, hbody]
      constructor
      · intro hnone
        cases hnone
      · intro heligible
        rw [heligible.1.body] at hbody
        cases hbody
  | some fields =>
      have hfields : r.fields = fields := by rw [Request.fields, hbody]; rfl
      by_cases hprompt : trimSpace (extractPromptAndSystem floats fields).1 = ""
      · have hnone : extractRequest sha floats r = none := by
          simp only [extractRequest, if_neg hmethod, if_neg hjson, hbody, Option.bind_eq_bind,
            Option.bind_some, if_pos hprompt, Option.bind_none]
        rw [hnone]
        constructor
        · intro hsome
          cases hsome
        · intro heligible
          exact absurd (by rw [hfields, hprompt]) heligible.1.prompt
      · have hsome : extractRequest sha floats r = some (cacheRequestOf sha floats r fields) := by
          simp only [extractRequest, if_neg hmethod, if_neg hjson, hbody, Option.bind_eq_bind,
            Option.bind_some, if_neg hprompt]
          rfl
        rw [hsome, hfields, Option.some_inj]
        constructor
        · rintro rfl
          exact ⟨⟨not_not.mp hmethod, by simpa using hjson, by rw [hbody, hfields],
            by rwa [hfields]⟩, rfl⟩
        · exact fun heligible => heligible.2.symm

def entryKey (sha : Sha256) (keyPrefix : String) (c : CacheRequest) : String :=
  keyPrefix ++ sha.hex (c.scopeHash ++ "\x00" ++ c.prompt)

end CoreMesh.Cache
