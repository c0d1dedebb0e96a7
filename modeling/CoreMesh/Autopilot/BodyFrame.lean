import CoreMesh.Autopilot.CachePolicy
import CoreMesh.Http.RawMessages

/-!
# What routing does to a body

`routeRequest` over the bytes of a body, with every way out of it. The body is read once and has to be put
back on each of them; where the model is replaced, it goes through a map of raw messages and is written anew.
-/

namespace CoreMesh.Autopilot.Bytes

open CoreMesh.Http CoreMesh.Cache JsonText KeyedList

/-- Bodies as bytes, of which those that are part of a character are read as it. -/
@[reducible] def bytesReader : JsonReader where
  Text := List Rune
  length := byteLength
  isBlank text := text.all fun rune =>
    match rune with
    | .char c => isSpace c
    | .byte _ => false
  unmarshal := JsonText.read maxNestingDepth

abbrev Request := Http.Request bytesReader.Text

/-- `json.Unmarshal` of a raw message. -/
def rawJson (raw : RawMessage) : Json := ((value raw.length maxNestingDepth raw).map Prod.fst).getD .null

def jsonFields (fields : List (String × RawMessage)) : List (String × Json) :=
  fields.map fun field => (field.1, rawJson field.2)

/-- None for an error. -/
def rewriteModel (fields : List (String × RawMessage)) (model : String) : Option (List Rune) :=
  marshalFields (insertMissing "model" [quoted model] (fields.filter fun field => field.1 != "model"))

/-- What `routeRequest` returns: a decision if the request is routed, and whether there is an error. -/
structure Exit where
  request : Request
  decision : Option Decision
  failed : Bool

section Route

variable (sha : Sha256) (floats : Float64) (cfg : Config)

def routeRequest (lookup : ExperimentLookup) (r : Request) : Exit :=
  if r.method ≠ "POST" then ⟨r, none, false⟩
  else if !contains (toLower (r.header.get "Content-Type")) "application/json" then ⟨r, none, false⟩
  else
    match r.body with
    | none => ⟨r, none, false⟩
    | some body =>
        -- After an error the body is closed, and there is nothing more to read.
        if body.failed then ⟨{ r with body := some ⟨[], true⟩ }, none, true⟩
        else
          let restored := restoreRequestBody bytesReader r body.text
          if bytesReader.isBlank body.text then ⟨restored, none, false⟩
          else
            match unmarshalFields body.text with
            | none => ⟨restored, none, false⟩
            | some fields =>
                if trimSpace (extractPromptText floats.toFloatCodec (jsonFields fields)) = "" then
                  ⟨restored, none, false⟩
                else
                  let classification := classifyFields floats (jsonFields fields)
                  let decision := decision sha cfg lookup (userIdentity r) classification
                  if r.url.path = unifiedExecutionPath then ⟨restored, some decision, false⟩
                  else
                    match rewriteModel fields decision.model with
                    | none => ⟨restored, none, true⟩
                    | some routedBody => ⟨restoreRequestBody bytesReader r routedBody, some decision, false⟩

end Route

/-! ### The frame -/

/-- The members of an object with another model: each key once, and under each other key the value that the
last member with it had. -/
structure ModelReplaced (members members' : List (String × Json)) (model : String) : Prop where
  nodup : (members'.map Prod.fst).Nodup
  keys : ∀ key, key ∈ members'.map Prod.fst ↔ key = "model" ∨ key ∈ members.map Prod.fst
  kept : ∀ key ≠ "model", Json.lookup members' key = Json.lookup members key
  model : Json.lookup members' "model" = some (.str model)

/-- The request is as it came, or has its body again with the length of that. -/
def SameBody (r r' : Request) : Prop :=
  r' = r ∨ ∃ text, r.body = some ⟨text, false⟩ ∧ r' = restoreRequestBody bytesReader r text

structure BodyFrame (r : Request) (exit : Exit) : Prop where
  /-- The only error is that of reading the body. -/
  failed : exit.failed = true → exit.decision = none ∧ ∃ text, r.body = some ⟨text, true⟩
  unrouted : exit.failed = false → exit.decision = none → SameBody r exit.request
  executed : ∀ decision ∈ exit.decision, r.url.path = unifiedExecutionPath → SameBody r exit.request
  rewritten : ∀ decision ∈ exit.decision, r.url.path ≠ unifiedExecutionPath →
    ∃ text routed members members', r.body = some ⟨text, false⟩ ∧
      exit.request = restoreRequestBody bytesReader r routed ∧
      bytesReader.unmarshal text = some (.obj members) ∧
      bytesReader.unmarshal routed = some (.obj members') ∧
      ModelReplaced members members' decision.model ∧ (IsUtf8 text → IsUtf8 routed)

/-! ### Fields -/

theorem lookup_insertMissing_of_sorted {α : Type} {entries : List (String × α)} (hsorted : Sorted entries)
    (k : String) (value : α) (key : String) : (insertMissing k value entries).lookup key =
      (entries.lookup key).or (if key = k then some value else none) := by
  induction entries with
  | nil =>
      rw [insertMissing, lookup_cons]
      rfl
  | cons head rest ih =>
      obtain ⟨name, v⟩ := head
      obtain ⟨hleast, hrest⟩ := List.pairwise_cons.mp hsorted
      obtain hlt | rfl | hgt := lt_trichotomy k name
      · have hfresh : ((name, v) :: rest).lookup k = none := by
          apply List.lookup_eq_none_iff.mpr
          intro entry hmem
          obtain rfl | hmem := List.mem_cons.mp hmem
          · simpa using hlt.ne
          · simpa using (hlt.trans (hleast entry hmem)).ne
        rw [insertMissing_before hlt, lookup_cons]
        by_cases hkey : key = k
        · rw [if_pos hkey, hkey, hfresh, if_pos rfl]
          rfl
        · rw [if_neg hkey, if_neg hkey, Option.or_none]
      · rw [insertMissing, if_pos rfl, lookup_cons]
        by_cases hkey : key = k
        · rw [if_pos hkey]
          rfl
        · rw [if_neg hkey, if_neg hkey, Option.or_none]
      · rw [insertMissing_after hgt, lookup_cons, lookup_cons, ih hrest]
        split
        · rfl
        · rfl

theorem lookup_fieldsOf {members fields : List (String × Json)} (hfields : fieldsOf (.obj members) = some fields)
    (key : String) : fields.lookup key = Json.lookup members key := by
  induction members generalizing fields with
  | nil =>
      obtain rfl := Option.some.inj hfields
      rfl
  | cons member rest ih =>
      obtain rfl := Option.some.inj hfields
      have hrest : fieldsOf (.obj rest) = some (rest.foldr (fun m => insertMissing m.1 m.2) []) := rfl
      rw [List.foldr_cons, lookup_insertMissing_of_sorted (sorted_fieldsOf hrest), ih hrest]
      have hlast : ([member].find? fun m => m.1 == key).map Prod.snd =
          if key = member.1 then some member.2 else none := by
        rw [List.find?_singleton]
        by_cases hkey : key = member.1
        · rw [if_pos (beq_iff_eq.mpr hkey.symm), if_pos hkey]
          rfl
        · rw [if_neg fun h => hkey (beq_iff_eq.mp h).symm, if_neg hkey]
          rfl
      rw [Json.lookup, Json.lookup, List.reverse_cons, List.find?_append, Option.map_or, hlast]

/-- Keys that are there are those with a value. -/
theorem mem_keys_iff {members : List (String × Json)} {key : String} :
    key ∈ members.map Prod.fst ↔ Json.lookup members key ≠ none := by
  rw [Json.lookup, ne_eq, Option.map_eq_none_iff, List.find?_eq_none]
  push Not
  simp only [List.mem_reverse, beq_iff_eq, List.mem_map]

theorem modelReplaced_setModel {members fields : List (String × Json)}
    (hfields : fieldsOf (.obj members) = some fields) (model : String) :
    ModelReplaced members (setModel fields model) model := by
  have hsorted := sorted_setModel (sorted_fieldsOf hfields) model
  have hlookup : ∀ key, Json.lookup (setModel fields model) key =
      if key = "model" then some (.str model) else Json.lookup members key := by
    intro key
    rw [← lookup_fieldsOf (fieldsOf_of_sorted hsorted), lookup_setModel, lookup_fieldsOf hfields]
  constructor
  · apply List.pairwise_map.mpr
    exact hsorted.imp fun hlt => ne_of_lt hlt
  · intro key
    rw [mem_keys_iff, mem_keys_iff, hlookup]
    by_cases hkey : key = "model"
    · rw [if_pos hkey]
      exact iff_of_true (Option.some_ne_none _) (.inl hkey)
    · rw [if_neg hkey, or_iff_right hkey]
  · intro key hkey
    rw [hlookup, if_neg hkey]
  · rw [hlookup, if_pos rfl]

/-! ### Raw fields -/

theorem rawJson_eq {text : List Rune} {raw : String × RawMessage} {member : String × Json}
    (hraw : IsRaw text raw member) : rawJson raw.2 = member.2 := by
  have hdepth : innerDepth ≤ maxNestingDepth := by decide
  rw [rawJson, hraw.part.value_eq (Nat.le_refl _) hdepth]
  rfl

theorem jsonFields_eq {text : List Rune} {raws : List (String × RawMessage)} {fields : List (String × Json)}
    (hraws : List.Forall₂ (IsRaw text) raws fields) : jsonFields raws = fields := by
  induction hraws with
  | nil => rfl
  | cons hfirst _ ih =>
      rw [jsonFields, List.map_cons, rawJson_eq hfirst, hfirst.key]
      exact congrArg _ ih

theorem isRaw_quoted (text : List Rune) (model : String) :
    IsRaw text ("model", [quoted model]) ("model", .str model) where
  key := rfl
  part := by
    apply scalar_part
    intro l hl fuel depth rest
    cases hl with
    | refl => rw [quoted, value, unquote_quoted]
    | string hunquote => rw [value, hunquote, unquote_quoted]
  valid := by
    intro l hl
    rw [List.mem_singleton.mp hl]
    exact valid_quoted model
  within := by
    intro l hl
    rw [List.mem_singleton.mp hl]
    exact kept_quoted model

/-- The fields of a body with another model are written without an error, and read back as such. -/
theorem rewriteModel_eq_some {text : List Rune} {raws : List (String × RawMessage)}
    {fields : List (String × Json)} (hraws : List.Forall₂ (IsRaw text) raws fields) (model : String) :
    ∃ routed, rewriteModel raws model = some routed ∧
      bytesReader.unmarshal routed = some (.obj (setModel fields model)) ∧ (IsUtf8 text → IsUtf8 routed) := by
  have hset := forall₂_insertMissing (fun _ _ h => h.key) (isRaw_quoted text model) (isRaw_filter hraws "model")
  obtain ⟨routed, hrouted, hread, hkept⟩ := marshalFields_eq_some hset
  refine ⟨routed, hrouted, hread, fun hutf8 rune hrune => ?_⟩
  obtain hin | hchar := hkept rune hrune
  · exact hutf8 rune hin
  · exact hchar

/-! ### Every way out -/

/-- Where there is a prompt, the text is that of an object. -/
theorem exists_members_of_prompt {json : Json} {fields : List (String × Json)} {floats : Float64}
    (hfields : fieldsOf json = some fields)
    (hprompt : trimSpace (extractPromptText floats.toFloatCodec fields) ≠ "") :
    ∃ members, json = .obj members := by
  cases json with
  | obj members => exact ⟨members, rfl⟩
  | null =>
      obtain rfl := Option.some.inj hfields
      exact absurd rfl hprompt
  | _ => cases hfields

section Exits

variable {r : Request} {text : List Rune}

theorem bodyFrame_unread (r : Request) : BodyFrame r ⟨r, none, false⟩ where
  failed := fun hfailed => by cases hfailed
  unrouted := fun _ _ => .inl rfl
  executed := fun _ hdecision => by cases hdecision
  rewritten := fun _ hdecision => by cases hdecision

theorem bodyFrame_failed (hbody : r.body = some ⟨text, true⟩) (request : Request) :
    BodyFrame r ⟨request, none, true⟩ where
  failed := fun _ => ⟨rfl, text, hbody⟩
  unrouted := fun hfailed => by cases hfailed
  executed := fun _ hdecision => by cases hdecision
  rewritten := fun _ hdecision => by cases hdecision

theorem bodyFrame_restored (hbody : r.body = some ⟨text, false⟩) :
    BodyFrame r ⟨restoreRequestBody bytesReader r text, none, false⟩ where
  failed := fun hfailed => by cases hfailed
  unrouted := fun _ _ => .inr ⟨text, hbody, rfl⟩
  executed := fun _ hdecision => by cases hdecision
  rewritten := fun _ hdecision => by cases hdecision

theorem bodyFrame_executed (hbody : r.body = some ⟨text, false⟩) (hpath : r.url.path = unifiedExecutionPath)
    (decision : Decision) : BodyFrame r ⟨restoreRequestBody bytesReader r text, some decision, false⟩ where
  failed := fun hfailed => by cases hfailed
  unrouted := fun _ hdecision => by cases hdecision
  executed := fun _ _ _ => .inr ⟨text, hbody, rfl⟩
  rewritten := fun _ _ hother => absurd hpath hother

theorem bodyFrame_rewritten (hbody : r.body = some ⟨text, false⟩) (hpath : r.url.path ≠ unifiedExecutionPath)
    {members fields : List (String × Json)} (hread : bytesReader.unmarshal text = some (.obj members))
    (hfields : fieldsOf (.obj members) = some fields) {decision : Decision} {routed : List Rune}
    (hrouted : bytesReader.unmarshal routed = some (.obj (setModel fields decision.model)))
    (hutf8 : IsUtf8 text → IsUtf8 routed) :
    BodyFrame r ⟨restoreRequestBody bytesReader r routed, some decision, false⟩ where
  failed := fun hfailed => by cases hfailed
  unrouted := fun _ hdecision => by cases hdecision
  executed := fun _ _ hexecute => absurd hexecute hpath
  rewritten := by
    intro other hother _
    obtain rfl := Option.some.inj hother
    exact ⟨text, routed, members, _, hbody, rfl, hread, hrouted, modelReplaced_setModel hfields _, hutf8⟩

end Exits

/-- Every request, by every way out of the routing. -/
theorem bodyFrame_routeRequest (sha : Sha256) (floats : Float64) (cfg : Config) (lookup : ExperimentLookup)
    (r : Request) : BodyFrame r (routeRequest sha floats cfg lookup r) := by
  rw [routeRequest]
  split
  · exact bodyFrame_unread r
  split
  · exact bodyFrame_unread r
  split
  · exact bodyFrame_unread r
  rename_i body hbody
  obtain ⟨text, failed⟩ := body
  split
  · rename_i hfailed
    obtain rfl : failed = true := hfailed
    exact bodyFrame_failed hbody _
  rename_i hread
  obtain rfl : failed = false := Bool.eq_false_iff.mpr hread
  dsimp only
  split
  · exact bodyFrame_restored hbody
  split
  · exact bodyFrame_restored hbody
  rename_i raws hraws
  obtain ⟨json, fields, hjson, hfields, hrel⟩ := unmarshalFields_eq_some hraws
  rw [jsonFields_eq hrel]
  split
  · exact bodyFrame_restored hbody
  rename_i hprompt
  obtain ⟨members, rfl⟩ := exists_members_of_prompt hfields hprompt
  split
  · rename_i hpath
    exact bodyFrame_executed hbody hpath _
  · rename_i hpath
    obtain ⟨routed, hrewrite, hrouted, hutf8⟩ := rewriteModel_eq_some hrel
      (decision sha cfg lookup (userIdentity r) (classifyFields floats fields)).model
    rw [hrewrite]
    exact bodyFrame_rewritten hbody hpath hjson hfields hrouted hutf8

/-- A body of which one byte comes before an error. -/
def brokenOff : Request where
  method := "POST"
  url := { path := "/v1/chat/completions" }
  header := Header.empty.set "Content-Type" "application/json"
  body := some ⟨[.char '{'], true⟩
  contentLength := 29
  remoteAddr := "10.0.0.7:5000"

theorem brokenOff_body_lost :
    (routeRequest hexSha literalFloat64 {} .noStore brokenOff).decision.isNone = true ∧
      (routeRequest hexSha literalFloat64 {} .noStore brokenOff).request.body ≠ brokenOff.body := by
  have hexit : routeRequest hexSha literalFloat64 {} .noStore brokenOff =
      ⟨{ brokenOff with body := some ⟨[], true⟩ }, none, true⟩ := by
    have hcontent : contains (toLower (brokenOff.header.get "Content-Type")) "application/json" = true := by
      decide +kernel
    rw [routeRequest, hcontent]
    rfl
  rw [hexit]
  refine ⟨rfl, fun hsame => ?_⟩
  have htext := congrArg (Option.map Body.text) hsame
  exact List.cons_ne_nil _ _ (Option.some.inj htext).symm

end CoreMesh.Autopilot.Bytes
