import CoreMesh.Cache.Parameters
import CoreMesh.Lib.Separators

/-!
# What the exact key tells apart

Requests with one entry key agree on everything the key is made from. The conversation is not among
it: of the turns only the prompt and the system text are, each joined into one text.
-/

namespace CoreMesh.Cache

open CoreMesh.Http KeyedList Separators

/-! ### Lines of the scope -/

theorem not_newline_of_hex (sha : Sha256) (text : String) : '\n' ∉ (sha.hex text).toList := by
  intro hmem
  exact absurd (sha.hexDigits text _ hmem) (by decide)

theorem not_newline_escape (path : String) : '\n' ∉ (escape path).toList := by
  have hhex : ∀ n, upperhex.getD n '0' ≠ '\n' := by
    intro n
    by_cases hn : n < 16
    · have hall : ∀ n < 16, upperhex.getD n '0' ≠ '\n' := by decide
      exact hall n hn
    · have hlength : upperhex.length = 16 := by decide
      rw [List.getD_eq_getElem?_getD, List.getElem?_eq_none (by omega)]
      decide
  intro hmem
  rw [escape, String.toList_ofList, List.mem_flatMap] at hmem
  obtain ⟨c, -, hc⟩ := hmem
  split at hc
  · simp only [List.mem_cons, List.not_mem_nil, or_false] at hc
    rcases hc with hc | hc | hc
    · exact absurd hc (by decide)
    · exact hhex _ hc.symm
    · exact hhex _ hc.symm
  · rename_i hplain
    obtain rfl := List.mem_singleton.mp hc
    exact hplain (by decide)

theorem not_newline_escapedPath (u : URL) : '\n' ∉ u.escapedPath.toList := by
  unfold URL.escapedPath
  split
  · rename_i hraw
    intro hmem
    have hvalid := List.all_eq_true.mp hraw.2.1 _ hmem
    exact absurd hvalid (by decide)
  split
  · decide
  · exact not_newline_escape u.path

theorem not_newline_formatBool (value : Bool) : '\n' ∉ (formatBool value).toList := by
  cases value <;> decide

/-- The text of a scope ends in lines of which only the model can hold several. -/
theorem scopeText_toList (method path model systemHash paramsHash stream : String) :
    (scopeText [("method", method), ("path", path), ("model", model), ("system_hash", systemHash),
        ("params_hash", paramsHash), ("stream", stream)]).toList
      = ("method=".toList ++ method.toList ++ "\nmodel=".toList ++ model.toList
          ++ '\n' :: ("params_hash=".toList ++ paramsHash.toList)
          ++ '\n' :: ("path=".toList ++ path.toList)
          ++ '\n' :: ("stream=".toList ++ stream.toList)
          ++ '\n' :: ("system_hash=".toList ++ systemHash.toList)) ++ ['\n'] := by
  have hkeys : ["method", "model", "params_hash", "path", "stream", "system_hash"].Pairwise
      (· < ·) := by decide +kernel
  simp only [List.pairwise_cons, List.forall_mem_cons] at hkeys
  obtain ⟨⟨hmethod, -⟩, ⟨hparams, hpath, -⟩, ⟨hlast, hstream, hsystem, -⟩, ⟨hpath', -⟩, ⟨hsystem', -⟩, -⟩ :=
    hkeys
  have hsorted : [("method", method), ("path", path), ("model", model), ("system_hash", systemHash),
      ("params_hash", paramsHash), ("stream", stream)].foldr
        (fun entry => insertMissing entry.1 entry.2) [] =
      [("method", method), ("model", model), ("params_hash", paramsHash), ("path", path),
        ("stream", stream), ("system_hash", systemHash)] := by
    show insertMissing _ _ (insertMissing _ _ (insertMissing _ _ (insertMissing _ _
      (insertMissing _ _ [("stream", stream)])))) = _
    rw [insertMissing_before hstream, insertMissing_after hsystem, insertMissing_after hsystem',
      insertMissing, insertMissing_before hparams, insertMissing_after hpath,
      insertMissing_after hlast, insertMissing_before hpath',
      insertMissing_before hmethod]
  rw [scopeText, hsorted]
  simp [String.join]

theorem line_inj {front front' value value' : List Char} (key : List Char) (hkey : '\n' ∉ key)
    (hvalue : '\n' ∉ value) (hvalue' : '\n' ∉ value')
    (heq : front ++ '\n' :: (key ++ value) = front' ++ '\n' :: (key ++ value')) :
    front = front' ∧ value = value' := by
  obtain ⟨hfront, hback⟩ := last_separator (by simp [hkey, hvalue]) (by simp [hkey, hvalue']) heq
  exact ⟨hfront, List.append_cancel_left hback⟩

/-! ### What a key determines -/

/-- The requests agree on all that the cache tells requests apart by. -/
structure SameKeyed (floats : FloatCodec) (r r' : Request) : Prop where
  method : r.method = r'.method
  path : r.url.escapedPath = r'.url.escapedPath
  model : jsonString (r.fields.lookup "model") = jsonString (r'.fields.lookup "model")
  stream : jsonBool (r.fields.lookup "stream") = jsonBool (r'.fields.lookup "stream")
  params : normalized floats excludedFields r.fields = normalized floats excludedFields r'.fields
  system : "\n".intercalate (extractPromptAndSystem floats r.fields).2
    = "\n".intercalate (extractPromptAndSystem floats r'.fields).2
  prompt : trimSpace (extractPromptAndSystem floats r.fields).1
    = trimSpace (extractPromptAndSystem floats r'.fields).1

theorem normalizedText_inj {floats : FloatCodec} {entries entries' : List (String × GoValue floats.Value)}
    (heq : normalizedText floats entries = normalizedText floats entries') : entries = entries' := by
  have hstops : Stops [] := fun c hc => by cases hc
  have hne : ∀ entries : List (String × GoValue floats.Value), String.ofList (marshal floats (.map entries)) ≠ "" := by
    intro entries hempty
    obtain ⟨c, rest, hmarshal, -⟩ := marshal_head (GoValue.map entries)
    have hlist := congrArg String.toList hempty
    rw [String.toList_ofList, hmarshal] at hlist
    cases hlist
  unfold normalizedText at heq
  split at heq
  · rename_i hnil
    split at heq
    · rename_i hnil'
      rw [List.isEmpty_iff.mp hnil, List.isEmpty_iff.mp hnil']
    · exact absurd heq.symm (hne _)
  · split at heq
    · exact absurd heq (hne _)
    · have hmarshal := String.ofList_injective heq
      have hvalues := (marshal_inj (GoValue.map entries) (GoValue.map entries') hstops hstops
        (congrArg (· ++ []) hmarshal)).1
      injection hvalues

theorem scopeText_inj {path path' model model' systemHash systemHash' paramsHash paramsHash' : String}
    {stream stream' : Bool} (method : String)
    (hpath : '\n' ∉ path.toList) (hpath' : '\n' ∉ path'.toList)
    (hsystem : '\n' ∉ systemHash.toList) (hsystem' : '\n' ∉ systemHash'.toList)
    (hparams : '\n' ∉ paramsHash.toList) (hparams' : '\n' ∉ paramsHash'.toList)
    (heq : scopeText [("method", method), ("path", path), ("model", model),
        ("system_hash", systemHash), ("params_hash", paramsHash), ("stream", formatBool stream)]
      = scopeText [("method", method), ("path", path'), ("model", model'),
        ("system_hash", systemHash'), ("params_hash", paramsHash'), ("stream", formatBool stream')]) :
    path = path' ∧ model = model' ∧ systemHash = systemHash' ∧ paramsHash = paramsHash' ∧
      stream = stream' := by
  have htext := congrArg String.toList heq
  rw [scopeText_toList, scopeText_toList] at htext
  obtain ⟨htext, hsystemHash⟩ := line_inj _ (by decide) hsystem hsystem' (List.append_cancel_right htext)
  obtain ⟨htext, hstream⟩ :=
    line_inj _ (by decide) (not_newline_formatBool stream) (not_newline_formatBool stream') htext
  obtain ⟨htext, hpaths⟩ := line_inj _ (by decide) hpath hpath' htext
  obtain ⟨htext, hparamsHash⟩ := line_inj _ (by decide) hparams hparams' htext
  refine ⟨String.toList_inj.mp hpaths, String.toList_inj.mp (List.append_cancel_left htext),
    String.toList_inj.mp hsystemHash, String.toList_inj.mp hparamsHash, ?_⟩
  cases stream <;> cases stream' <;> first | rfl | exact absurd hstream (by decide)

/-- The requests agree on all that a scope is made from. -/
structure SameScope (floats : FloatCodec) (r r' : Request) : Prop where
  path : r.url.escapedPath = r'.url.escapedPath
  model : jsonString (r.fields.lookup "model") = jsonString (r'.fields.lookup "model")
  stream : jsonBool (r.fields.lookup "stream") = jsonBool (r'.fields.lookup "stream")
  params : normalized floats excludedFields r.fields = normalized floats excludedFields r'.fields
  system : "\n".intercalate (extractPromptAndSystem floats r.fields).2
    = "\n".intercalate (extractPromptAndSystem floats r'.fields).2

theorem SameKeyed.scope {floats : FloatCodec} {r r' : Request} (hsame : SameKeyed floats r r') :
    SameScope floats r r' :=
  ⟨hsame.path, hsame.model, hsame.stream, hsame.params, hsame.system⟩

theorem paramsHash_eq_iff {sha : Sha256} {floats : FloatCodec} {fields fields' : List (String × Json)} :
    hashJSONFields sha floats excludedFields fields = hashJSONFields sha floats excludedFields fields' ↔
      normalized floats excludedFields fields = normalized floats excludedFields fields' := by
  constructor
  · exact fun heq => normalizedText_inj (sha.injective _ _ heq)
  · intro heq
    rw [hashJSONFields, hashJSONFields, heq]

theorem scopeHash_eq_iff {sha : Sha256} {floats : FloatCodec} {r r' : Request} {c c' : CacheRequest}
    (hextract : extractRequest sha floats r = some c)
    (hextract' : extractRequest sha floats r' = some c') :
    c.scopeHash = c'.scopeHash ↔ SameScope floats r r' := by
  obtain ⟨heligible, rfl⟩ := extractRequest_eq_some_iff.mp hextract
  obtain ⟨heligible', rfl⟩ := extractRequest_eq_some_iff.mp hextract'
  constructor
  · intro heq
    dsimp only [cacheRequestOf] at heq
    rw [heligible.method, heligible'.method] at heq
    obtain ⟨hpath, hmodel, hsystem, hparams, hstream⟩ := scopeText_inj "POST"
      (not_newline_escapedPath _) (not_newline_escapedPath _) (not_newline_of_hex sha _)
      (not_newline_of_hex sha _) (not_newline_of_hex sha _) (not_newline_of_hex sha _)
      (sha.injective _ _ heq)
    exact ⟨hpath, hmodel, hstream, paramsHash_eq_iff.mp hparams, sha.injective _ _ hsystem⟩
  · intro hsame
    simp only [cacheRequestOf, heligible.method, heligible'.method, hsame.path, hsame.model,
      hsame.stream, hsame.system, paramsHash_eq_iff.mpr hsame.params]

/-- The values `hashScope` gets for a request. -/
def scopeValues (r : Request) (c : CacheRequest) : List (String × String) :=
  [("method", r.method), ("path", r.url.escapedPath), ("model", c.model),
    ("system_hash", c.systemHash), ("params_hash", c.paramsHash), ("stream", formatBool c.stream)]

/-- The text of a scope says each of its values, whatever the model is. -/
theorem scopeText_injective (sha : Sha256) (floats : FloatCodec) (r r' : Request)
    (c c' : CacheRequest) (hextract : extractRequest sha floats r = some c)
    (hextract' : extractRequest sha floats r' = some c') :
    c.scopeHash = hashScope sha (scopeValues r c) ∧
      (scopeText (scopeValues r c) = scopeText (scopeValues r' c') ↔
        r.method = r'.method ∧ r.url.escapedPath = r'.url.escapedPath ∧ c.model = c'.model ∧
          c.systemHash = c'.systemHash ∧ c.paramsHash = c'.paramsHash ∧ c.stream = c'.stream) := by
  obtain ⟨heligible, rfl⟩ := extractRequest_eq_some_iff.mp hextract
  obtain ⟨heligible', rfl⟩ := extractRequest_eq_some_iff.mp hextract'
  have hmethod := heligible.method.trans heligible'.method.symm
  refine ⟨rfl, ?_⟩
  constructor
  · intro heq
    unfold scopeValues at heq
    rw [hmethod] at heq
    exact ⟨hmethod, scopeText_inj r'.method (not_newline_escapedPath _) (not_newline_escapedPath _)
      (not_newline_of_hex sha _) (not_newline_of_hex sha _) (not_newline_of_hex sha _)
      (not_newline_of_hex sha _) heq⟩
  · intro hsame
    obtain ⟨hmethod, hpath, hmodel, hsystem, hparams, hstream⟩ := hsame
    simp only [scopeValues, hmethod, hpath, hmodel, hsystem, hparams, hstream]

/-- The key is made from nothing else. -/
theorem entryKey_congr {sha : Sha256} {floats : FloatCodec} {r r' : Request} {c c' : CacheRequest}
    (hextract : extractRequest sha floats r = some c)
    (hextract' : extractRequest sha floats r' = some c') (hsame : SameKeyed floats r r')
    (keyPrefix : String) : entryKey sha keyPrefix c = entryKey sha keyPrefix c' := by
  have hscope := (scopeHash_eq_iff hextract hextract').mpr hsame.scope
  obtain ⟨-, rfl⟩ := extractRequest_eq_some_iff.mp hextract
  obtain ⟨-, rfl⟩ := extractRequest_eq_some_iff.mp hextract'
  rw [entryKey, entryKey, hscope]
  simp only [cacheRequestOf, hsame.prompt]

theorem entryKey_inj {sha : Sha256} {floats : FloatCodec} {r r' : Request} {c c' : CacheRequest}
    {keyPrefix : String} (hextract : extractRequest sha floats r = some c)
    (hextract' : extractRequest sha floats r' = some c')
    (hkey : entryKey sha keyPrefix c = entryKey sha keyPrefix c') :
    c.scopeHash = c'.scopeHash ∧ c.prompt = c'.prompt := by
  obtain ⟨-, rfl⟩ := extractRequest_eq_some_iff.mp hextract
  obtain ⟨-, rfl⟩ := extractRequest_eq_some_iff.mp hextract'
  have hnul : ∀ text, '\x00' ∉ (sha.hex text).toList := fun text hmem =>
    absurd (sha.hexDigits text _ hmem) (by decide)
  have hlist := congrArg String.toList hkey
  rw [entryKey, entryKey, String.toList_append, String.toList_append] at hlist
  have hhashed := congrArg String.toList
    (sha.injective _ _ (String.toList_inj.mp (List.append_cancel_left hlist)))
  simp only [String.toList_append, List.append_assoc] at hhashed
  obtain ⟨hscopes, hprompts⟩ := first_separator (hnul _) (hnul _) hhashed
  exact ⟨String.toList_inj.mp hscopes, String.toList_inj.mp hprompts⟩

theorem sameKeyed_of_entryKey {sha : Sha256} {floats : FloatCodec} {r r' : Request} {c c' : CacheRequest}
    {keyPrefix : String} (hextract : extractRequest sha floats r = some c)
    (hextract' : extractRequest sha floats r' = some c')
    (hkey : entryKey sha keyPrefix c = entryKey sha keyPrefix c') : SameKeyed floats r r' := by
  obtain ⟨hscope, hprompt⟩ := entryKey_inj hextract hextract' hkey
  have hsame := (scopeHash_eq_iff hextract hextract').mp hscope
  obtain ⟨heligible, rfl⟩ := extractRequest_eq_some_iff.mp hextract
  obtain ⟨heligible', rfl⟩ := extractRequest_eq_some_iff.mp hextract'
  exact ⟨heligible.method.trans heligible'.method.symm, hsame.path, hsame.model, hsame.stream,
    hsame.params, hsame.system, hprompt⟩

/-- The texts of the system and developer turns as one. -/
def systemText (floats : FloatCodec) (r : Request) : String :=
  "\n".intercalate (textsOf isSystem ((turnsOf floats r.fields).getD []))

theorem systemText_eq {floats : FloatCodec} {r : Request} (hprompt : r.fields.lookup "prompt" = none) :
    "\n".intercalate (extractPromptAndSystem floats r.fields).2 = systemText floats r := by
  rw [extractPromptAndSystem, hprompt, Option.bind_none, systemText]
  cases turnsOf floats r.fields with
  | none => rfl
  | some turns => rfl

/-- What the requests of one key have in common. The turns of system and developer are compared where
there is no other prompt than the messages. -/
structure SameRequest (floats : FloatCodec) (r r' : Request) : Prop where
  method : r.method = r'.method
  path : r.url.escapedPath = r'.url.escapedPath
  model : jsonString (r.fields.lookup "model") = jsonString (r'.fields.lookup "model")
  stream : jsonBool (r.fields.lookup "stream") = jsonBool (r'.fields.lookup "stream")
  params : KeepsParameters floats r r' ∧ KeepsParameters floats r' r
  system : r.fields.lookup "prompt" = none → r'.fields.lookup "prompt" = none →
    systemText floats r = systemText floats r'
  prompt : trimSpace (extractPromptAndSystem floats r.fields).1
    = trimSpace (extractPromptAndSystem floats r'.fields).1

/-- Requests with one entry key agree on method, path, model, stream flag, parameters, system text and
prompt. -/
theorem entryKey_injective (sha : Sha256) (floats : FloatCodec) (keyPrefix : String) (r r' : Request)
    (c c' : CacheRequest) (hextract : extractRequest sha floats r = some c)
    (hextract' : extractRequest sha floats r' = some c')
    (hkey : entryKey sha keyPrefix c = entryKey sha keyPrefix c') : SameRequest floats r r' := by
  have hsame := sameKeyed_of_entryKey hextract hextract' hkey
  have hdecoded := normalized_eq_iff.mp hsame.params
  exact {
    method := hsame.method
    path := hsame.path
    model := hsame.model
    stream := hsame.stream
    params := ⟨hdecoded.keepsParameters, hdecoded.symm.keepsParameters⟩
    system := fun hprompt hprompt' => by
      rw [← systemText_eq hprompt, ← systemText_eq hprompt', hsame.system]
    prompt := hsame.prompt }

/-! ### Requests -/

/-- A text as the codes of its characters: injective, and in hexadecimal as a hash is. -/
def hexText (text : List Char) : List Char :=
  text.flatMap fun c => hex4 (c.toNat / 65536) ++ hex4 (c.toNat % 65536)

theorem hexText_inj {text text' : List Char} (heq : hexText text = hexText text') : text = text' := by
  induction text generalizing text' with
  | nil =>
      cases text' with
      | nil => rfl
      | cons c rest => cases heq
  | cons c rest ih =>
      cases text' with
      | nil => cases heq
      | cons c' rest' =>
          obtain ⟨hfirst, hrest⟩ := List.append_inj heq rfl
          obtain ⟨hhigh, hlow⟩ := List.append_inj hfirst rfl
          have hmax : ∀ c : Char, c.toNat / 65536 < 65536 := by
            intro c
            have hvalid : c.val.toNat < 4294967296 := c.val.toNat_lt
            have hcode : c.toNat = c.val.toNat := rfl
            omega
          have hhigh := hex4_injective (hmax c) (hmax c') hhigh
          have hlow := hex4_injective (Nat.mod_lt _ (by decide)) (Nat.mod_lt _ (by decide)) hlow
          have hcode : c.toNat = c'.toNat := by omega
          rw [Char.toNat_inj.mp hcode, ih hrest]

theorem hexDigit_mem (n : Nat) : hexDigit (n % 16) ∈ "0123456789abcdef".toList := by
  have hall : ∀ n < 16, hexDigit n ∈ "0123456789abcdef".toList := by decide
  exact hall _ (Nat.mod_lt _ (by decide))

theorem hex4_mem {n : Nat} {c : Char} (hc : c ∈ hex4 n) : c ∈ "0123456789abcdef".toList := by
  simp only [hex4, List.mem_cons, List.not_mem_nil, or_false] at hc
  rcases hc with rfl | rfl | rfl | rfl <;> exact hexDigit_mem _

def hexSha : Sha256 where
  hex text := String.ofList (hexText text.toList)
  injective _ _ heq := String.toList_inj.mp (hexText_inj (String.ofList_injective heq))
  hexDigits text c hc := by
    rw [String.toList_ofList, hexText, List.mem_flatMap] at hc
    obtain ⟨x, -, hc⟩ := hc
    rcases List.mem_append.mp hc with hc | hc <;> exact hex4_mem hc

/-- A literal in the range of a float64, by its exponent. -/
def InRange (literal : List Char) : Prop :=
  literal ≠ [] ∧ (∀ c ∈ literal, isNumberChar c = true) ∧
    (Json.decimal (String.ofList literal)).exponent ≤ 308

instance (literal : List Char) : Decidable (InRange literal) :=
  haveI : Decidable (∀ c ∈ literal, isNumberChar c = true) := List.decidableBAll _ _
  inferInstanceAs (Decidable (_ ∧ _ ∧ _))

/-- Floats kept as their literals. -/
def literalFloats : FloatCodec where
  Value := { literal : List Char // InRange literal }
  parseFloat literal := if h : InRange literal.toList then some ⟨literal.toList, h⟩ else none
  format := Subtype.val
  parse_format f := by rw [dif_pos (by rw [String.toList_ofList]; exact f.2)]; simp
  format_ne f := f.2.1
  format_chars f := f.2.2.1

/-- Literals that are not the shortest ones for their floats, and those that are. -/
def shortestLiterals : List (String × String) :=
  [("1.0", "1"), ("0.50", "0.5"), ("0.1000000000000000055511151231257827", "0.1")]

/-- Floats as the literals they are written as: a float that is read is written in the shortest way. -/
def shortestFloats : FloatCodec where
  Value := { literal : List Char // InRange literal ∧ shortestLiterals.lookup (String.ofList literal) = none }
  parseFloat literal :=
    let shortest := (shortestLiterals.lookup literal).getD literal
    if h : InRange shortest.toList ∧ shortestLiterals.lookup (String.ofList shortest.toList) = none then
      some ⟨shortest.toList, h⟩
    else none
  format := Subtype.val
  parse_format f := by
    dsimp only
    rw [f.2.2, Option.getD_none, dif_pos (by rw [String.toList_ofList]; exact f.2)]
    simp
  format_ne f := f.2.1.1
  format_chars f := f.2.1.2.1

theorem shortestFloats_parseFloat {literal shortest : String}
    (hliteral : shortestLiterals.lookup literal = some shortest)
    (hshortest : shortestLiterals.lookup shortest = none) :
    shortestFloats.parseFloat literal = shortestFloats.parseFloat shortest := by
  simp [shortestFloats, hliteral, hshortest]

def post (body : Json) : Request where
  method := "POST"
  url := { path := "/v1/chat/completions" }
  header := Header.empty.set "Content-Type" "application/json"
  body := some body

def message (role content : String) : Json := .obj [("role", .str role), ("content", .str content)]

/-- A second question after some answer. -/
def dialogue (answer : String) : Request :=
  post (.obj [("messages", .arr [message "user" "Is it safe?", message "assistant" answer,
    message "user" "Why?"])])

def seeded : Request := post (.obj [("prompt", .str "Hi"), ("seed", .num "1e400")])

def unseeded : Request := post (.obj [("prompt", .str "Hi")])

def named : Request := post (.obj [("model", .str "m"), ("prompt", .str "Hi")])

def askedTools : Json :=
  .arr [.obj [("limits", .obj [("max", .num "1.0"), ("min", .num "0.5")]), ("name", .str "f")]]

/-- A question with parameters. -/
def asked : Request :=
  post (.obj [("messages", .arr [message "system" "Be brief.", message "user" "Why?"]), ("model", .str "m"),
    ("seed", .num "7"), ("tools", askedTools)])

def reaskedTools : Json :=
  .arr [.obj [("name", .str "f"), ("limits", .obj [("min", .num "0.50"), ("max", .num "1")])]]

/-- The same with the members of its objects in another order, and its numbers in another spelling. -/
def reasked : Request :=
  post (.obj [("tools", reaskedTools), ("seed", .num "7"), ("model", .str "m"),
    ("messages", .arr [message "developer" " Be brief. ", message "user" "Why?"])])

theorem lookup_asked {key : String} (hkey : key ∉ excludedFields) :
    asked.fields.lookup key =
        (if key = "seed" then some (.num "7") else if key = "tools" then some askedTools else none) ∧
      reasked.fields.lookup key =
        if key = "seed" then some (.num "7") else if key = "tools" then some reaskedTools else none := by
  have hasked : asked.fields =
      [("messages", .arr [message "system" "Be brief.", message "user" "Why?"]), ("model", .str "m"),
        ("seed", .num "7"), ("tools", askedTools)] := by rfl
  have hreasked : reasked.fields =
      [("messages", .arr [message "developer" " Be brief. ", message "user" "Why?"]), ("model", .str "m"),
        ("seed", .num "7"), ("tools", reaskedTools)] := by rfl
  simp only [excludedFields, List.mem_cons, List.not_mem_nil, or_false, not_or] at hkey
  obtain ⟨hmessages, hmodel, -, -⟩ := hkey
  rw [hasked, hreasked]
  simp only [lookup_cons, if_neg hmessages, if_neg hmodel, List.lookup_nil, and_self]

theorem decode_askedTools : decode shortestFloats askedTools = decode shortestFloats reaskedTools := by
  have hone : shortestFloats.parseFloat "1.0" = shortestFloats.parseFloat "1" :=
    shortestFloats_parseFloat rfl rfl
  have hhalf : shortestFloats.parseFloat "0.50" = shortestFloats.parseFloat "0.5" :=
    shortestFloats_parseFloat rfl rfl
  obtain ⟨one, hreadOne⟩ : ∃ f, shortestFloats.parseFloat "1" = some f :=
    Option.isSome_iff_exists.mp (by decide +kernel)
  obtain ⟨half, hreadHalf⟩ : ∃ f, shortestFloats.parseFloat "0.5" = some f :=
    Option.isSome_iff_exists.mp (by decide +kernel)
  have hlimits : "limits" < "name" := by decide +kernel
  have hmax : "max" < "min" := by decide +kernel
  simp [askedTools, reaskedTools, decode, decodeItems, decodeMembers, hone, hhalf, hreadOne, hreadHalf,
    insertMissing, hlimits, hmax, lt_asymm hlimits, lt_asymm hmax]

theorem sameDecoded_asked : SameDecoded shortestFloats asked reasked := by
  intro key hkey
  obtain ⟨hasked, hreasked⟩ := lookup_asked hkey
  rw [hasked, hreasked]
  split
  · rfl
  · split
    · exact decode_askedTools
    · rfl

theorem eq_of_isEmpty {α : Type} {l l' : List α} (h : l.isEmpty = true) (h' : l'.isEmpty = true) :
    l = l' :=
  (List.isEmpty_iff.mp h).trans (List.isEmpty_iff.mp h').symm

theorem entryKey_injective_reordered :
    ∃ c c', extractRequest hexSha shortestFloats asked = some c ∧
      extractRequest hexSha shortestFloats reasked = some c' ∧
      entryKey hexSha "coremesh:semantic:entry:" c = entryKey hexSha "coremesh:semantic:entry:" c' ∧
      SameRequest shortestFloats asked reasked := by
  have heligible : (extractRequest hexSha shortestFloats asked).isSome := by decide +kernel
  have heligible' : (extractRequest hexSha shortestFloats reasked).isSome := by decide +kernel
  obtain ⟨c, hc⟩ := Option.isSome_iff_exists.mp heligible
  obtain ⟨c', hc'⟩ := Option.isSome_iff_exists.mp heligible'
  have hkey := entryKey_congr hc hc' {
    method := rfl
    path := rfl
    model := by decide +kernel
    stream := by decide +kernel
    params := normalized_eq_iff.mpr sameDecoded_asked
    system := by decide +kernel
    prompt := by decide +kernel } "coremesh:semantic:entry:"
  exact ⟨c, c', hc, hc', hkey, entryKey_injective hexSha shortestFloats _ asked reasked c c' hc hc' hkey⟩

/-- A model that imitates the lines that follow it. -/
def imitating : Request :=
  post (.obj [("model", .str "m\nparams_hash=\npath=/v1/chat/completions\nstream=true\nsystem_hash=="),
    ("prompt", .str "Hi")])

theorem scopeText_injective_imitating :
    ∃ c c', extractRequest hexSha literalFloats named = some c ∧
      extractRequest hexSha literalFloats imitating = some c' ∧
      scopeText (scopeValues named c) ≠ scopeText (scopeValues imitating c') := by
  have heligible : (extractRequest hexSha literalFloats named).isSome := by decide +kernel
  have heligible' : (extractRequest hexSha literalFloats imitating).isSome := by decide +kernel
  obtain ⟨c, hc⟩ := Option.isSome_iff_exists.mp heligible
  obtain ⟨c', hc'⟩ := Option.isSome_iff_exists.mp heligible'
  refine ⟨c, c', hc, hc', fun hsame => ?_⟩
  obtain ⟨-, hvalues⟩ := scopeText_injective hexSha literalFloats named imitating c c' hc hc'
  obtain ⟨-, -, hmodel, -⟩ := hvalues.mp hsame
  obtain ⟨-, rfl⟩ := extractRequest_eq_some_iff.mp hc
  obtain ⟨-, rfl⟩ := extractRequest_eq_some_iff.mp hc'
  revert hmodel
  decide +kernel

/-- Two conversations that differ in an answer have one key. -/
theorem not_same_conversation :
    ∃ c c', extractRequest hexSha literalFloats (dialogue "Yes.") = some c ∧
      extractRequest hexSha literalFloats (dialogue "No.") = some c' ∧
      entryKey hexSha "coremesh:semantic:entry:" c = entryKey hexSha "coremesh:semantic:entry:" c' ∧
      turnsOf literalFloats (dialogue "Yes.").fields
        ≠ turnsOf literalFloats (dialogue "No.").fields := by
  have heligible : (extractRequest hexSha literalFloats (dialogue "Yes.")).isSome := by decide +kernel
  have heligible' : (extractRequest hexSha literalFloats (dialogue "No.")).isSome := by decide +kernel
  obtain ⟨c, hc⟩ := Option.isSome_iff_exists.mp heligible
  obtain ⟨c', hc'⟩ := Option.isSome_iff_exists.mp heligible'
  refine ⟨c, c', hc, hc', entryKey_congr hc hc' ?_ _, by decide +kernel⟩
  exact {
    method := rfl
    path := rfl
    model := by decide +kernel
    stream := by decide +kernel
    params := eq_of_isEmpty (by decide +kernel) (by decide +kernel)
    system := by decide +kernel
    prompt := by decide +kernel }

end CoreMesh.Cache
