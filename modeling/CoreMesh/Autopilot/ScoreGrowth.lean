import CoreMesh.Autopilot.CachePolicy
import CoreMesh.Autopilot.TextGrowth
import CoreMesh.Lib.Binary64
import CoreMesh.Lib.JsonText

/-!
# Requests that grow

A longer prompt, a further message, further tools, more tokens: what the score makes of them. The signals
of the text are all kept. The other two are not as safe: a number that no float64 holds takes the tools
around it with it, and a number of tokens that no `int` holds wraps to the least.
-/

namespace CoreMesh.Autopilot

open CoreMesh.Cache LineGrowth

/-! ### Fields -/

def promptFields : List String := ["prompt", "input", "payload_query"]

def toolFields : List String := ["tools", "functions"]

/-- What may become of the field of a request that grows. -/
inductive Grown : String → Option Json → Option Json → Prop where
  | prompt {key : String} {raw raw' : Json} (hkey : key ∈ promptFields) (happended : Appended raw raw') :
      Grown key (some raw) (some raw')
  | firstPrompt {key : String} (hkey : key ∈ promptFields) (text : String) : Grown key none (some (.str text))
  | message {before after : List Json} {raw raw' : Json} (happended : AppendedMessage raw raw') :
      Grown "messages" (some (.arr (before ++ raw :: after))) (some (.arr (before ++ raw' :: after)))
  | userMessage {before after : List Json} {raw : Json} {message : Message}
      (hmessage : decodeMessage raw = some message) (hrole : message.role = "user") :
      Grown "messages" (some (.arr (before ++ after))) (some (.arr (before ++ raw :: after)))
  | firstMessage {absent : Option Json} {raw : Json} {message : Message}
      (habsent : absent = none ∨ absent = some .null) (hmessage : decodeMessage raw = some message)
      (hrole : message.role = "user") : Grown "messages" absent (some (.arr [raw]))
  | tools {key : String} {tools tools' : List Json} (hkey : key ∈ toolFields) (hsub : tools.Sublist tools') :
      Grown key (some (.arr tools)) (some (.arr tools'))
  | firstTools {key : String} {absent : Option Json} (hkey : key ∈ toolFields)
      (habsent : absent = none ∨ absent = some .null) (tools : List Json) :
      Grown key absent (some (.arr tools))
  | maxTokens {literal literal' : String} (hliteral : Json.isNumber literal = true)
      (hliteral' : Json.isNumber literal' = true) (hlt : numberValue literal < numberValue literal') :
      Grown "max_tokens" (some (.num literal)) (some (.num literal'))

/-- One field grows, and the others are as they were. -/
structure Change (key : String) (fields fields' : List (String × Json)) : Prop where
  grown : Grown key (fields.lookup key) (fields'.lookup key)
  others : ∀ name, name ≠ key → fields'.lookup name = fields.lookup name

section Prompts

variable {floats : FloatCodec} {key : String} {fields fields' : List (String × Json)}

/-- The texts of the fields that are prompts. -/
def promptTexts (floats : FloatCodec) (keys : List String) (fields : List (String × Json)) : List String :=
  keys.filterMap fun key => (fields.lookup key).bind (textPart floats)

theorem extractPromptText_eq (fields : List (String × Json)) :
    extractPromptText floats fields = "\n".intercalate
      (promptTexts floats promptFields fields ++ messageTexts floats (fields.lookup "messages")) := by
  rfl

theorem textPart_eq_some {raw : Json} {text : String} (htext : textPart floats raw = some text) :
    text ≠ "" ∧ PyText.Trimmed isSpace text.toList := by
  rw [textPart_eq] at htext
  obtain ⟨value, -, hpart⟩ := Option.bind_eq_some_iff.mp htext
  exact partOf_eq_some hpart

theorem trimSpace_extractPromptText (fields : List (String × Json)) :
    trimSpace (extractPromptText floats fields) = extractPromptText floats fields := by
  rw [extractPromptText_eq]
  apply trimSpace_intercalate
  intro text htext
  obtain hprompt | hmessage := List.mem_append.mp htext
  · obtain ⟨key, -, hkey⟩ := List.mem_filterMap.mp hprompt
    obtain ⟨raw, -, hraw⟩ := Option.bind_eq_some_iff.mp hkey
    exact textPart_eq_some hraw
  · obtain ⟨message, -, hcounts⟩ := List.mem_filterMap.mp hmessage
    unfold messageText at hcounts
    split at hcounts
    · obtain ⟨content, -, hcontent⟩ := Option.bind_eq_some_iff.mp hcounts
      exact textPart_eq_some hcontent
    · cases hcounts

theorem extractPromptText_congr (hprompts : ∀ name ∈ promptFields, fields'.lookup name = fields.lookup name)
    (hmessages : fields'.lookup "messages" = fields.lookup "messages") :
    extractPromptText floats fields' = extractPromptText floats fields := by
  have htexts : promptTexts floats promptFields fields' = promptTexts floats promptFields fields := by
    apply List.filterMap_congr
    intro name hname
    rw [hprompts name hname]
  rw [extractPromptText_eq, extractPromptText_eq, htexts, hmessages]

theorem promptTexts_grows {keys : List String} (hgrows : ∀ name ∈ keys, List.SublistForall₂ TextGrows
      ((fields.lookup name).bind (textPart floats)).toList
      ((fields'.lookup name).bind (textPart floats)).toList) :
    List.SublistForall₂ TextGrows (promptTexts floats keys fields) (promptTexts floats keys fields') := by
  induction keys with
  | nil => exact .nil
  | cons name rest ih =>
      have hsplit (fields : List (String × Json)) : promptTexts floats (name :: rest) fields =
          ((fields.lookup name).bind (textPart floats)).toList ++ promptTexts floats rest fields := by
        unfold promptTexts
        rw [← filterMap_singleton fun key => (fields.lookup key).bind (textPart floats),
          ← List.filterMap_append, List.singleton_append]
      rw [hsplit, hsplit]
      apply sublistForall₂_append
      · exact hgrows name List.mem_cons_self
      · exact ih fun other hother => hgrows other (List.mem_cons_of_mem _ hother)

theorem toolFields_disjoint : ∀ key ∈ toolFields, key ∉ promptFields ∧ key ≠ "messages" := by decide

theorem promptFields_disjoint : ∀ key ∈ promptFields, key ≠ "messages" := by decide

theorem Grown.textPart_grows {raw raw' : Option Json} (hgrown : Grown key raw raw')
    (hkey : key ∈ promptFields) : List.SublistForall₂ TextGrows (raw.bind (textPart floats)).toList
      (raw'.bind (textPart floats)).toList := by
  cases hgrown with
  | prompt _ happended => exact Autopilot.textPart_grows happended
  | firstPrompt _ text => exact .nil
  | message _ => exact absurd rfl (promptFields_disjoint _ hkey)
  | userMessage _ _ => exact absurd rfl (promptFields_disjoint _ hkey)
  | firstMessage _ _ _ => exact absurd rfl (promptFields_disjoint _ hkey)
  | tools htools _ => exact absurd hkey (toolFields_disjoint key htools).1
  | firstTools htools _ _ => exact absurd hkey (toolFields_disjoint key htools).1
  | maxTokens _ _ _ => exact absurd hkey (by decide)

theorem Grown.messageTexts_grows {raw raw' : Option Json} (hgrown : Grown "messages" raw raw') :
    List.SublistForall₂ TextGrows (messageTexts floats raw) (messageTexts floats raw') := by
  generalize hname : "messages" = name at hgrown
  cases hgrown with
  | prompt hkey _ => exact absurd hname.symm (promptFields_disjoint _ hkey)
  | firstPrompt hkey _ => exact absurd hname.symm (promptFields_disjoint _ hkey)
  | @message before after raw raw' happended =>
      apply messageTexts_arr before [raw] [raw'] after
      intro messages hmessages
      rw [mapM_singleton, Option.map_eq_some_iff] at hmessages
      obtain ⟨message, hmessage, rfl⟩ := hmessages
      obtain ⟨message', hmessage', hgrows⟩ := decodeMessage_appended happended hmessage
      refine ⟨[message'], by rw [mapM_singleton, hmessage']; rfl, ?_⟩
      rw [filterMap_singleton, filterMap_singleton]
      exact hgrows.messageText
  | @userMessage before after raw message hmessage _ =>
      apply messageTexts_arr before [] [raw] after
      intro messages hmessages
      obtain rfl := Option.some.inj hmessages
      exact ⟨[message], by rw [mapM_singleton, hmessage]; rfl, .nil⟩
  | firstMessage habsent _ _ =>
      obtain rfl | rfl := habsent
      · exact .nil
      · exact .nil
  | tools hkey _ => exact absurd hname.symm (toolFields_disjoint _ hkey).2
  | firstTools hkey _ _ => exact absurd hname.symm (toolFields_disjoint _ hkey).2
  | maxTokens _ _ _ => exact absurd hname (by decide)

/-- No line of the prompt gets lost as a request grows. -/
theorem Change.prompt_grows (hchange : Change key fields fields') :
    TextGrows (extractPromptText floats fields) (extractPromptText floats fields') := by
  rw [extractPromptText_eq, extractPromptText_eq]
  apply textGrows_intercalate
  apply sublistForall₂_append
  · apply promptTexts_grows
    intro name hname
    by_cases hkey : name = key
    · subst hkey
      exact hchange.grown.textPart_grows hname
    · rw [hchange.others name hkey]
      exact sublistForall₂_refl _
  · by_cases hkey : "messages" = key
    · subst hkey
      exact hchange.grown.messageTexts_grows
    · rw [hchange.others _ hkey]
      exact sublistForall₂_refl _

end Prompts

/-! ### Tools -/

section Tools

variable {floats : FloatCodec}

mutual

/-- A value decodes if there is a float64 for each of its numbers. -/
theorem decode_isSome_iff : ∀ raw : Json, (decode floats raw).isSome = true ↔
    ∀ literal ∈ raw.literals, (floats.parseFloat literal).isSome = true
  | .null => by simp [decode, Json.literals]
  | .bool value => by simp [decode, Json.literals]
  | .num literal => by simp [decode, Json.literals]
  | .str value => by simp [decode, Json.literals]
  | .arr items => by
      rw [decode, Option.isSome_map, Json.literals]
      exact decodeItems_isSome_iff items
  | .obj members => by
      rw [decode, Option.isSome_map, Json.literals]
      exact decodeMembers_isSome_iff members

theorem decodeItems_isSome_iff : ∀ items : List Json, (decodeItems floats items).isSome = true ↔
    ∀ literal ∈ Json.literalsItems items, (floats.parseFloat literal).isSome = true
  | [] => by simp [decodeItems, Json.literalsItems]
  | item :: rest => by
      rw [Json.literalsItems, List.forall_mem_append, ← decode_isSome_iff item,
        ← decodeItems_isSome_iff rest, decodeItems]
      cases decode floats item with
      | none => simp
      | some value => cases decodeItems floats rest <;> simp

theorem decodeMembers_isSome_iff : ∀ members : List (String × Json),
    (decodeMembers floats members).isSome = true ↔
      ∀ literal ∈ Json.literalsMembers members, (floats.parseFloat literal).isSome = true
  | [] => by simp [decodeMembers, Json.literalsMembers]
  | (key, item) :: rest => by
      rw [Json.literalsMembers, List.forall_mem_append, ← decode_isSome_iff item,
        ← decodeMembers_isSome_iff rest, decodeMembers]
      cases decode floats item with
      | none => simp
      | some value => cases decodeMembers floats rest <;> simp

end

theorem decodeItems_eq_nil_iff {items : List Json} {values : List (GoValue floats.Value)}
    (hvalues : decodeItems floats items = some values) : values = [] ↔ items = [] := by
  cases items with
  | nil =>
      obtain rfl := Option.some.inj hvalues
      simp
  | cons item rest =>
      rw [decodeItems, Option.bind_eq_bind, Option.bind_eq_some_iff] at hvalues
      obtain ⟨value, -, hvalues⟩ := hvalues
      obtain ⟨rest', -, hcons⟩ := Option.bind_eq_some_iff.mp hvalues
      rw [← Option.some.inj hcons]
      simp

end Tools

/-! ### Numbers -/

/-- A number is read as the nearest float64, if there is one. -/
def Rounds (floats : Float64) : Prop :=
  ∀ literal, Json.isNumber literal = true → (floats.parseFloat literal).map floats.toRat =
    if |Binary64.nearest (numberValue literal)| < 2 ^ (1024 : ℤ) then
      some (Binary64.nearest (numberValue literal))
    else none

section Numbers

variable {floats : Float64}

theorem hasNonEmptyJSON_arr {items : List Json} : hasNonEmptyJSON floats (some (.arr items)) = true ↔
    items ≠ [] ∧ ∀ literal ∈ Json.literals (.arr items), (floats.parseFloat literal).isSome = true := by
  rw [← decode_isSome_iff, hasNonEmptyJSON, Option.bind_some, decode]
  cases hvalues : decodeItems floats.toFloatCodec items with
  | none => simp
  | some values =>
      rw [ne_eq, ← decodeItems_eq_nil_iff hvalues]
      simp

theorem large_iff {x : ℚ} : 1500 < truncateInt64 x ↔ 1501 ≤ x ∧ x < 2 ^ 63 := by
  unfold truncateInt64
  dsimp only
  by_cases hpos : 0 ≤ x
  · rw [if_pos hpos]
    have hlow : 1501 ≤ ⌊x⌋ ↔ 1501 ≤ x := by
      rw [Int.le_floor]
      norm_num
    have hhigh : ⌊x⌋ < 2 ^ 63 ↔ x < 2 ^ 63 := by
      rw [Int.floor_lt]
      norm_num
    rw [← hlow, ← hhigh]
    split <;> omega
  · rw [if_neg hpos]
    have hceil : ⌈x⌉ ≤ 0 := Int.ceil_le.mpr (by push_cast; linarith)
    constructor
    · intro hlarge
      split at hlarge <;> omega
    · intro hlarge
      linarith [hlarge.1]

/-- A number of tokens counts from the bound on until its conversion to an integer wraps. -/
theorem maxTokens_large_iff (hrounds : Rounds floats) {literal : String}
    (hliteral : Json.isNumber literal = true) : 1500 < maxTokens floats (some (.num literal)) ↔
      1501 ≤ Binary64.nearest (numberValue literal) ∧ numberValue literal < 2 ^ 63 - 512 := by
  have hread := hrounds literal hliteral
  generalize numberValue literal = x at hread ⊢
  have hwraps (hx : 1501 ≤ Binary64.nearest x) : Binary64.nearest x < 2 ^ 63 ↔ x < 2 ^ 63 - 512 := by
    have hnonneg : 0 ≤ x := by
      by_contra hneg
      linarith [Binary64.nearest_nonpos (not_le.mp hneg).le]
    have hiff := Binary64.nearest_lt_zpow_iff (e := 10) (by norm_num) hnonneg
    norm_num at hiff ⊢
    exact hiff
  rw [maxTokens, numberField, hread, large_iff]
  split
  · rw [Option.getD_some]
    exact and_congr_right hwraps
  · next hout =>
      rw [Option.getD_none]
      constructor
      · intro hzero
        linarith [hzero.1]
      · rintro ⟨hlow, hhigh⟩
        have hbelow := (hwraps hlow).mpr hhigh
        refine absurd ?_ hout
        rw [abs_of_nonneg (by linarith)]
        calc
          Binary64.nearest x < 2 ^ 63 := hbelow
          _ = 2 ^ (63 : ℤ) := (zpow_natCast 2 63).symm
          _ ≤ 2 ^ (1024 : ℤ) := zpow_le_zpow_right₀ (by norm_num) (by norm_num)

end Numbers

/-! ### The score -/

def Signal.worth (signal : Signal) : Nat := if signal.present then signal.points else 0

theorem score_eq_worth (floats : Float64) (fields : List (String × Json)) :
    (classifyFields floats fields).score = ((signals floats fields).map Signal.worth).sum := by
  rw [classifyFields]
  dsimp only
  induction signals floats fields with
  | nil => rfl
  | cons signal rest ih =>
      rw [List.map_cons, List.sum_cons, ← ih, Signal.worth, List.filter_cons]
      split
      · rw [List.map_cons, List.sum_cons]
      · rw [zero_add]

/-- What the text of a request adds to the score. -/
def textScore (prompt : String) : Nat :=
  (if 180 < approximateTokenCount prompt then 2 else 0) +
    (if 400 < approximateTokenCount prompt then 2 else 0) +
    (if 0 < countMatches prompt codeMarkerWords then 3 else 0) +
    (if 1 ≤ countMatches prompt complexWords then 1 else 0) +
    (if 3 ≤ countMatches prompt complexWords then 1 else 0) +
    (if 4 ≤ countConstraints prompt then 1 else 0) +
    (if 8 ≤ countConstraints prompt then 1 else 0)

theorem score_eq (floats : Float64) (fields : List (String × Json)) :
    (classifyFields floats fields).score =
      textScore (extractPromptText floats.toFloatCodec fields) +
        (if hasNonEmptyJSON floats (fields.lookup "tools") ||
          hasNonEmptyJSON floats (fields.lookup "functions") then 3 else 0) +
        (if responseFormatIsComplex floats (fields.lookup "response_format") then 2 else 0) +
        (if 1500 < maxTokens floats (fields.lookup "max_tokens") then 2 else 0) +
        (if temperatureBound < temperature floats (fields.lookup "temperature") then 1 else 0) := by
  rw [score_eq_worth]
  simp only [signals, List.map_cons, List.map_nil, List.sum_cons, List.sum_nil, Signal.worth,
    decide_eq_true_eq, textScore]
  omega

theorem points_le {p q : Prop} [Decidable p] [Decidable q] (himp : p → q) (points : Nat) :
    (if p then points else 0) ≤ if q then points else 0 := by
  by_cases hp : p
  · rw [if_pos hp, if_pos (himp hp)]
  · rw [if_neg hp]
    exact Nat.zero_le _

theorem textScore_le {s t : String} (hgrows : TextGrows s t) (hs : trimSpace s = s) (ht : trimSpace t = t) :
    textScore s ≤ textScore t := by
  have htokens := hgrows.approximateTokenCount_le hs ht
  have hmarkers : countMatches s codeMarkerWords ≤ countMatches t codeMarkerWords :=
    hgrows.countMatches_le (by decide +kernel)
  have hkeywords : countMatches s complexWords ≤ countMatches t complexWords :=
    hgrows.countMatches_le (by decide +kernel)
  have hconstraints := hgrows.countConstraints_le
  have hlong := points_le (fun hlt : 180 < approximateTokenCount s => hlt.trans_le htokens) 2
  have hvery := points_le (fun hlt : 400 < approximateTokenCount s => hlt.trans_le htokens) 2
  have hcode := points_le (fun hlt : 0 < countMatches s codeMarkerWords => hlt.trans_le hmarkers) 3
  have hone := points_le (fun hle : 1 ≤ countMatches s complexWords => hle.trans hkeywords) 1
  have hthree := points_le (fun hle : 3 ≤ countMatches s complexWords => hle.trans hkeywords) 1
  have hfour := points_le (fun hle : 4 ≤ countConstraints s => hle.trans hconstraints) 1
  have height := points_le (fun hle : 8 ≤ countConstraints s => hle.trans hconstraints) 1
  unfold textScore
  omega

/-! ### Requests that grow -/

/-- Neither the score, nor the tier, nor the policy of the cache goes back. -/
structure NeverLowered (floats : Float64) (fields fields' : List (String × Json)) : Prop where
  score : (classifyFields floats fields).score ≤ (classifyFields floats fields').score
  tier : (classifyFields floats fields).tier = tier3 → (classifyFields floats fields').tier = tier3
  cachePolicy : (classifyFields floats fields).cachePolicy = cachePolicyBypass →
    (classifyFields floats fields').cachePolicy = cachePolicyBypass

/-- A larger number of tokens that no `int` holds, next to one that counted. -/
structure TokensWrap (floats : Float64) (key : String) (fields fields' : List (String × Json)) : Prop where
  field : key = "max_tokens"
  counted : 1500 < maxTokens floats (fields.lookup key)
  wraps : ∃ literal, fields'.lookup key = some (.num literal) ∧ 2 ^ 63 - 512 ≤ numberValue literal

/-- Further tools with a number that no float64 holds, next to tools that counted and were the only ones. -/
structure ToolsUnread (floats : Float64) (key : String) (fields fields' : List (String × Json)) : Prop where
  field : key ∈ toolFields
  counted : hasNonEmptyJSON floats (fields.lookup key) = true
  only : ∀ other ∈ toolFields, other ≠ key → hasNonEmptyJSON floats (fields.lookup other) = false
  unread : ∃ raw literal, fields'.lookup key = some raw ∧ literal ∈ raw.literals ∧
    floats.parseFloat literal = none

section Growth

variable {floats : Float64} {key : String} {fields fields' : List (String × Json)}

theorem neverLowered_iff : NeverLowered floats fields fields' ↔
    (classifyFields floats fields).score ≤ (classifyFields floats fields').score := by
  constructor
  · exact NeverLowered.score
  · intro hscore
    refine ⟨hscore, ?_, ?_⟩
    · unfold classifyFields at hscore ⊢
      dsimp only at hscore ⊢
      intro htier
      split at htier
      · rw [if_pos (by omega)]
      · exact absurd htier (by decide)
    · rw [classifyFields_cachePolicy, classifyFields_cachePolicy]
      intro hpolicy
      split at hpolicy
      · rw [if_pos (by omega)]
      · exact absurd hpolicy (by decide)

theorem Change.lookup_prompts (hchange : Change key fields fields') (hkey : key ∉ promptFields) :
    ∀ name ∈ promptFields, fields'.lookup name = fields.lookup name := by
  intro name hname
  apply hchange.others
  intro heq
  exact hkey (heq ▸ hname)

/-- The format of the response and the temperature do not grow. -/
theorem Grown.key_ne {raw raw' : Option Json} (hgrown : Grown key raw raw') :
    "response_format" ≠ key ∧ "temperature" ≠ key := by
  have hprompts : ∀ key ∈ promptFields, "response_format" ≠ key ∧ "temperature" ≠ key := by decide
  have htools : ∀ key ∈ toolFields, "response_format" ≠ key ∧ "temperature" ≠ key := by decide
  cases hgrown with
  | prompt hkey _ => exact hprompts _ hkey
  | firstPrompt hkey _ => exact hprompts _ hkey
  | message _ => decide
  | userMessage _ _ => decide
  | firstMessage _ _ _ => decide
  | tools hkey _ => exact htools _ hkey
  | firstTools hkey _ _ => exact htools _ hkey
  | maxTokens _ _ _ => decide

/-! #### Tokens -/

theorem Grown.literals {raw raw' : Option Json} (hgrown : Grown "max_tokens" raw raw') :
    ∃ literal literal', raw = some (.num literal) ∧ raw' = some (.num literal') ∧
      Json.isNumber literal = true ∧ Json.isNumber literal' = true ∧
        numberValue literal < numberValue literal' := by
  generalize hname : "max_tokens" = name at hgrown
  cases hgrown with
  | prompt hkey _ => exact absurd (hname ▸ hkey) (by decide)
  | firstPrompt hkey _ => exact absurd (hname ▸ hkey) (by decide)
  | message _ => exact absurd hname (by decide)
  | userMessage _ _ => exact absurd hname (by decide)
  | firstMessage _ _ _ => exact absurd hname (by decide)
  | tools hkey _ => exact absurd (hname ▸ hkey) (by decide)
  | firstTools hkey _ _ => exact absurd (hname ▸ hkey) (by decide)
  | @maxTokens literal literal' hliteral hliteral' hlt =>
      exact ⟨literal, literal', rfl, rfl, hliteral, hliteral', hlt⟩

theorem Change.tokens_kept (hrounds : Rounds floats) (hchange : Change key fields fields')
    (hwraps : ¬TokensWrap floats key fields fields')
    (hcounted : 1500 < maxTokens floats (fields.lookup "max_tokens")) :
    1500 < maxTokens floats (fields'.lookup "max_tokens") := by
  by_cases hkey : key = "max_tokens"
  · subst hkey
    obtain ⟨literal, literal', hraw, hraw', hliteral, hliteral', hlt⟩ := hchange.grown.literals
    have hbelow : numberValue literal' < 2 ^ 63 - 512 := by
      by_contra hlarge
      exact hwraps ⟨rfl, hcounted, literal', hraw', not_lt.mp hlarge⟩
    rw [hraw, maxTokens_large_iff hrounds hliteral] at hcounted
    rw [hraw', maxTokens_large_iff hrounds hliteral']
    refine ⟨?_, hbelow⟩
    have hnonneg : 0 ≤ numberValue literal := by
      by_contra hneg
      linarith [Binary64.nearest_nonpos (not_le.mp hneg).le, hcounted.1]
    exact hcounted.1.trans (Binary64.nearest_mono hnonneg hlt.le)
  · rwa [hchange.others _ (Ne.symm hkey)]

theorem TokensWrap.not_counted (hrounds : Rounds floats) (hchange : Change key fields fields')
    (hwraps : TokensWrap floats key fields fields') :
    ¬1500 < maxTokens floats (fields'.lookup "max_tokens") := by
  obtain ⟨rfl, -, last, hlast, hlarge⟩ := hwraps
  obtain ⟨-, literal', -, hraw', -, hliteral', -⟩ := hchange.grown.literals
  rw [hraw'] at hlast
  obtain rfl := Json.num.inj (Option.some.inj hlast)
  rw [hraw', maxTokens_large_iff hrounds hliteral']
  exact fun hcounted => absurd hcounted.2 (not_lt.mpr hlarge)

/-! #### Tools -/

theorem toolCalling_iff : (hasNonEmptyJSON floats (fields.lookup "tools") ||
      hasNonEmptyJSON floats (fields.lookup "functions")) = true ↔
    ∃ name ∈ toolFields, hasNonEmptyJSON floats (fields.lookup name) = true := by
  simp [toolFields]

theorem hasNonEmptyJSON_of_unread {raw : Json} {literal : String} (hmem : literal ∈ raw.literals)
    (hunread : floats.parseFloat literal = none) : hasNonEmptyJSON floats (some raw) = false := by
  have hnone : decode floats.toFloatCodec raw = none := by
    rw [← Option.not_isSome_iff_eq_none, decode_isSome_iff]
    intro hall
    have hsome := hall literal hmem
    rw [hunread] at hsome
    cases hsome
  rw [hasNonEmptyJSON, Option.bind_some, hnone]

/-- Tools that count still do when there are more of them, or one of the further ones is not read. -/
theorem Grown.tools_kept {raw raw' : Option Json} (hgrown : Grown key raw raw') (hkey : key ∈ toolFields)
    (hcounted : hasNonEmptyJSON floats raw = true) : hasNonEmptyJSON floats raw' = true ∨
      ∃ json literal, raw' = some json ∧ literal ∈ json.literals ∧ floats.parseFloat literal = none := by
  cases hgrown with
  | prompt hprompt _ => exact absurd hprompt (toolFields_disjoint key hkey).1
  | firstPrompt hprompt _ => exact absurd hprompt (toolFields_disjoint key hkey).1
  | message _ => exact absurd rfl (toolFields_disjoint _ hkey).2
  | userMessage _ _ => exact absurd rfl (toolFields_disjoint _ hkey).2
  | firstMessage _ _ _ => exact absurd rfl (toolFields_disjoint _ hkey).2
  | @tools _ items items' _ hsub =>
      by_cases hread : ∀ literal ∈ Json.literals (.arr items'), (floats.parseFloat literal).isSome = true
      · refine .inl (hasNonEmptyJSON_arr.mpr ⟨?_, hread⟩)
        rintro rfl
        exact (hasNonEmptyJSON_arr.mp hcounted).1 (List.sublist_nil.mp hsub)
      · simp only [not_forall, Option.not_isSome_iff_eq_none] at hread
        obtain ⟨literal, hmem, hnone⟩ := hread
        exact .inr ⟨.arr items', literal, rfl, hmem, hnone⟩
  | firstTools _ habsent _ => obtain rfl | rfl := habsent <;> cases hcounted
  | maxTokens _ _ _ => exact absurd hkey (by decide)

theorem Change.tools_kept (hchange : Change key fields fields')
    (hread : ¬ToolsUnread floats key fields fields')
    (hcounted : ∃ name ∈ toolFields, hasNonEmptyJSON floats (fields.lookup name) = true) :
    ∃ name ∈ toolFields, hasNonEmptyJSON floats (fields'.lookup name) = true := by
  -- Other tools that counted do so as before.
  by_cases hother : ∃ other ∈ toolFields, other ≠ key ∧ hasNonEmptyJSON floats (fields.lookup other) = true
  · obtain ⟨other, hmem, hne, hcounts⟩ := hother
    refine ⟨other, hmem, ?_⟩
    rwa [hchange.others other hne]
  · obtain ⟨name, hmem, hcounts⟩ := hcounted
    obtain rfl : name = key := by
      by_contra hne
      exact hother ⟨name, hmem, hne, hcounts⟩
    obtain hkept | ⟨raw, literal, hraw, hliteral, hnone⟩ := hchange.grown.tools_kept hmem hcounts
    · exact ⟨name, hmem, hkept⟩
    · refine absurd ⟨hmem, hcounts, ?_, raw, literal, hraw, hliteral, hnone⟩ hread
      intro other hmem' hne
      rw [Bool.eq_false_iff]
      exact fun hcounts' => hother ⟨other, hmem', hne, hcounts'⟩

theorem ToolsUnread.not_counted (hchange : Change key fields fields')
    (hunread : ToolsUnread floats key fields fields') :
    ¬∃ name ∈ toolFields, hasNonEmptyJSON floats (fields'.lookup name) = true := by
  obtain ⟨-, -, honly, raw, literal, hraw, hmem, hnone⟩ := hunread
  rintro ⟨name, hname, hcounts⟩
  by_cases hkey : name = key
  · rw [hkey, hraw, hasNonEmptyJSON_of_unread hmem hnone] at hcounts
    cases hcounts
  · rw [hchange.others name hkey, honly name hname hkey] at hcounts
    cases hcounts

/-! #### The score -/

theorem Change.score_le (hrounds : Rounds floats) (hchange : Change key fields fields')
    (hwraps : ¬TokensWrap floats key fields fields') (hread : ¬ToolsUnread floats key fields fields') :
    (classifyFields floats fields).score ≤ (classifyFields floats fields').score := by
  have hgrows : TextGrows (extractPromptText floats.toFloatCodec fields)
      (extractPromptText floats.toFloatCodec fields') := hchange.prompt_grows
  have htext := textScore_le hgrows (trimSpace_extractPromptText fields) (trimSpace_extractPromptText fields')
  have htools := points_le (fun htools : ∃ name ∈ toolFields, hasNonEmptyJSON floats (fields.lookup name) = true =>
    hchange.tools_kept hread htools) 3
  have htokens := points_le (hchange.tokens_kept hrounds hwraps) 2
  obtain ⟨hformat, htemperature⟩ := hchange.grown.key_ne
  rw [score_eq, score_eq, hchange.others _ hformat, hchange.others _ htemperature]
  simp only [toolCalling_iff]
  omega

theorem Change.text_eq (hchange : Change key fields fields') (hprompts : key ∉ promptFields)
    (hmessages : key ≠ "messages") :
    extractPromptText floats.toFloatCodec fields' = extractPromptText floats.toFloatCodec fields :=
  extractPromptText_congr (hchange.lookup_prompts hprompts) (hchange.others _ hmessages.symm)

theorem TokensWrap.score_lt (hrounds : Rounds floats) (hchange : Change key fields fields')
    (hwraps : TokensWrap floats key fields fields') :
    (classifyFields floats fields').score < (classifyFields floats fields).score := by
  have hlost := hwraps.not_counted hrounds hchange
  obtain ⟨rfl, hcounted, -⟩ := hwraps
  rw [score_eq, score_eq, hchange.text_eq (by decide) (by decide), hchange.others "tools" (by decide),
    hchange.others "functions" (by decide), hchange.others "response_format" (by decide),
    hchange.others "temperature" (by decide), if_neg hlost, if_pos hcounted]
  omega

theorem ToolsUnread.score_lt (hchange : Change key fields fields')
    (hunread : ToolsUnread floats key fields fields') :
    (classifyFields floats fields').score < (classifyFields floats fields).score := by
  have hlost := hunread.not_counted hchange
  obtain ⟨hkey, hcounted, -, -⟩ := hunread
  have hothers : ∀ key ∈ toolFields, key ∉ promptFields ∧ key ≠ "messages" ∧ "response_format" ≠ key ∧
      "max_tokens" ≠ key ∧ "temperature" ≠ key := by decide
  obtain ⟨hprompts, hmessages, hformat, htokens, htemperature⟩ := hothers key hkey
  rw [← toolCalling_iff] at hlost
  have hpresent := toolCalling_iff.mpr ⟨key, hkey, hcounted⟩
  rw [score_eq, score_eq, hchange.text_eq hprompts hmessages, hchange.others _ hformat,
    hchange.others _ htokens, hchange.others _ htemperature, if_neg hlost, if_pos hpresent]
  omega

/-- A request that grows keeps its score unless the number of tokens wraps or its only tools are not read. -/
theorem neverLowered_iff_read (hrounds : Rounds floats) (hchange : Change key fields fields') :
    NeverLowered floats fields fields' ↔
      ¬TokensWrap floats key fields fields' ∧ ¬ToolsUnread floats key fields fields' := by
  rw [neverLowered_iff]
  constructor
  · intro hscore
    constructor
    · intro hwraps
      exact absurd hscore (not_le.mpr (hwraps.score_lt hrounds hchange))
    · intro hunread
      exact absurd hscore (not_le.mpr (hunread.score_lt hchange))
  · rintro ⟨hwraps, hread⟩
    exact hchange.score_le hrounds hwraps hread

end Growth

/-! ### Float64s by a literal of theirs -/

/-- A literal that there is a float64 for. -/
def Fits (literal : List Char) : Prop :=
  literal ≠ [] ∧ (∀ c ∈ literal, isNumberChar c = true) ∧
    |Binary64.nearest (numberValue (String.ofList literal))| < 2 ^ (1024 : ℤ)

instance (literal : List Char) : Decidable (Fits literal) :=
  haveI : Decidable (∀ c ∈ literal, isNumberChar c = true) := List.decidableBAll _ _
  inferInstanceAs (Decidable (_ ∧ _ ∧ _))

def roundedFloats : Float64 where
  Value := { literal : List Char // Fits literal }
  parseFloat literal := if h : Fits literal.toList then some ⟨literal.toList, h⟩ else none
  format := Subtype.val
  parse_format f := by rw [dif_pos (by rw [String.toList_ofList]; exact f.2)]; simp
  format_ne f := f.2.1
  format_chars f := f.2.2.1
  toRat f := Binary64.nearest (numberValue (String.ofList f.1))

theorem rounds_roundedFloats : Rounds roundedFloats := by
  intro literal hliteral
  obtain ⟨hne, hchars⟩ := JsonText.isNumberChar_of_isNumber hliteral
  by_cases hsize : |Binary64.nearest (numberValue literal)| < 2 ^ (1024 : ℤ)
  · have hfits : Fits literal.toList := ⟨hne, hchars, by rwa [String.ofList_toList]⟩
    rw [if_pos hsize]
    have hparse : roundedFloats.parseFloat literal = some ⟨literal.toList, hfits⟩ := dif_pos hfits
    rw [hparse]
    simp [roundedFloats]
  · have hfits : ¬Fits literal.toList := fun hfits => hsize (by simpa using hfits.2.2)
    rw [if_neg hsize]
    have hparse : roundedFloats.parseFloat literal = none := dif_neg hfits
    rw [hparse]
    rfl

/-- A question with a number of tokens. -/
def withTokens (literal : String) : List (String × Json) :=
  [("max_tokens", .num literal), ("prompt", .str "Analyze this.")]

theorem change_withTokens (literal literal' : String) (hliteral : Json.isNumber literal = true)
    (hliteral' : Json.isNumber literal' = true) (hlt : numberValue literal < numberValue literal') :
    Change "max_tokens" (withTokens literal) (withTokens literal') where
  grown := .maxTokens hliteral hliteral' hlt
  others name hname := by
    simp only [withTokens, KeyedList.lookup_cons, if_neg hname]

theorem literals_read :
    (∀ literal ∈ ["2000", "4000", "1e19", "1e400"], Json.isNumber literal = true) ∧
      Json.decimal "2000" = ⟨false, 2000, 0⟩ ∧ Json.decimal "4000" = ⟨false, 4000, 0⟩ ∧
      Json.decimal "1e19" = ⟨false, 1, 19⟩ ∧ Json.decimal "1e400" = ⟨false, 1, 400⟩ := by
  decide +kernel

theorem numberValue_2000 : numberValue "2000" = 2000 := by
  obtain ⟨-, hdecimal, -, -, -⟩ := literals_read
  rw [numberValue, hdecimal]
  norm_num

theorem neverLowered_iff_read_tokens : NeverLowered roundedFloats (withTokens "2000") (withTokens "4000") := by
  obtain ⟨hnumber, -, hdecimal, -, -⟩ := literals_read
  have hafter : numberValue "4000" = 4000 := by
    rw [numberValue, hdecimal]
    norm_num
  have hchange := change_withTokens "2000" "4000" (hnumber _ (by simp)) (hnumber _ (by simp))
    (by rw [numberValue_2000, hafter]; norm_num)
  refine (neverLowered_iff_read rounds_roundedFloats hchange).mpr ⟨?_, ?_⟩
  · rintro ⟨-, -, literal, hliteral, hlarge⟩
    obtain rfl := Json.num.inj (Option.some.inj hliteral)
    rw [hafter] at hlarge
    norm_num at hlarge
  · intro hunread
    exact absurd hunread.field (by decide)

/-- The same question with tools. -/
def withTools (tools : List Json) : List (String × Json) :=
  [("prompt", .str "What is this?"), ("tools", .arr tools)]

def firstTool : Json := .obj [("name", .str "search")]

def secondTool : Json := .obj [("maximum", .num "1e400"), ("name", .str "measure")]

theorem change_withTools : Change "tools" (withTools [firstTool]) (withTools [firstTool, secondTool]) where
  grown := .tools (by decide) (List.sublist_append_left [firstTool] [secondTool])
  others name hname := by
    simp only [withTools, KeyedList.lookup_cons, if_neg hname]

theorem numberValue_1e19 : numberValue "1e19" = 10 ^ 19 := by
  obtain ⟨-, -, -, hdecimal, -⟩ := literals_read
  rw [numberValue, hdecimal]
  norm_num

/-- No float64 is as large. -/
theorem parseFloat_1e400 : roundedFloats.parseFloat "1e400" = none := by
  obtain ⟨hnumber, -, -, -, hdecimal⟩ := literals_read
  have hvalue : numberValue "1e400" = 10 ^ 400 := by
    rw [numberValue, hdecimal]
    norm_num
  have hread := rounds_roundedFloats "1e400" (hnumber _ (by simp))
  rw [hvalue, if_neg, Option.map_eq_none_iff] at hread
  · exact hread
  · have hlarge : (2 : ℚ) ^ (53 + 971 : ℤ) ≤ 10 ^ 400 :=
      calc
        (2 : ℚ) ^ (53 + 971 : ℤ) = (2 ^ 256) ^ 4 := by
          rw [← pow_mul]
          exact zpow_natCast 2 1024
        _ ≤ (10 ^ 100) ^ 4 := pow_le_pow_left₀ (by positivity) (by norm_num) 4
        _ = 10 ^ 400 := by rw [← pow_mul]
    rw [abs_of_nonneg (Binary64.nearest_nonneg (by positivity))]
    intro hsize
    have hbelow := (Binary64.nearest_lt_zpow_iff (e := 971) (by norm_num) (by positivity)).mp hsize
    have hmiddle : ((2 : ℚ) ^ 53 - 1 / 2) * 2 ^ (971 : ℤ) ≤ 2 ^ (53 + 971 : ℤ) := by
      rw [zpow_add₀ (by norm_num)]
      exact mul_le_mul_of_nonneg_right (by norm_num) (by positivity)
    exact absurd (hbelow.trans_le hmiddle) (not_lt.mpr hlarge)

theorem tier_eq (floats : Float64) (fields : List (String × Json)) :
    (classifyFields floats fields).tier =
      if 3 ≤ (classifyFields floats fields).score then tier3 else tier1 := by
  rw [classifyFields]

theorem score_withTokens {literal : String} (htext : textScore
      (extractPromptText roundedFloats.toFloatCodec (withTokens literal)) = 1) :
    (classifyFields roundedFloats (withTokens literal)).score =
      1 + if 1500 < maxTokens roundedFloats (some (.num literal)) then 2 else 0 := by
  have hcold : ¬temperatureBound < 0 := by norm_num [temperatureBound]
  have htools : (withTokens literal).lookup "tools" = none := rfl
  have hfunctions : (withTokens literal).lookup "functions" = none := rfl
  have hformat : (withTokens literal).lookup "response_format" = none := rfl
  have htemperature : (withTokens literal).lookup "temperature" = none := rfl
  have htokens : (withTokens literal).lookup "max_tokens" = some (.num literal) := rfl
  rw [score_eq, htext, htools, hfunctions, hformat, htemperature, htokens]
  simp [hasNonEmptyJSON, responseFormatIsComplex, temperature, numberField, hcold]

theorem score_withTools {tools : List Json} (htext : textScore
      (extractPromptText roundedFloats.toFloatCodec (withTools tools)) = 0) :
    (classifyFields roundedFloats (withTools tools)).score =
      if hasNonEmptyJSON roundedFloats (some (.arr tools)) then 3 else 0 := by
  have hcold : ¬temperatureBound < 0 := by norm_num [temperatureBound]
  have htools : (withTools tools).lookup "tools" = some (.arr tools) := rfl
  have hfunctions : (withTools tools).lookup "functions" = none := rfl
  have hformat : (withTools tools).lookup "response_format" = none := rfl
  have htemperature : (withTools tools).lookup "temperature" = none := rfl
  have htokens : (withTools tools).lookup "max_tokens" = none := rfl
  have hnone : hasNonEmptyJSON roundedFloats none = false := rfl
  have hfew : ¬1500 < truncateInt64 0 := by decide +kernel
  rw [score_eq, htext, htools, hfunctions, hformat, htemperature, htokens, hnone]
  simp [responseFormatIsComplex, temperature, maxTokens, numberField, hcold, hfew]

/-- Further tokens, and a further tool, take the request back to the first tier. -/
theorem larger_request_lowered :
    (Change "max_tokens" (withTokens "2000") (withTokens "1e19") ∧
      (classifyFields roundedFloats (withTokens "2000")).tier = tier3 ∧
      (classifyFields roundedFloats (withTokens "1e19")).tier = tier1) ∧
    Change "tools" (withTools [firstTool]) (withTools [firstTool, secondTool]) ∧
      (classifyFields roundedFloats (withTools [firstTool])).tier = tier3 ∧
      (classifyFields roundedFloats (withTools [firstTool, secondTool])).tier = tier1 := by
  obtain ⟨hnumber, -, -, -, -⟩ := literals_read
  have hchange := change_withTokens "2000" "1e19" (hnumber _ (by simp)) (hnumber _ (by simp))
    (by rw [numberValue_2000, numberValue_1e19]; norm_num)
  have hmany : 1500 < maxTokens roundedFloats (some (.num "2000")) := by
    have hnearest : Binary64.nearest 2000 = 2000 := by
      have hwhole := Binary64.nearest_intCast (n := 2000) (by norm_num)
      exact_mod_cast hwhole
    rw [maxTokens_large_iff rounds_roundedFloats (hnumber _ (by simp)), numberValue_2000, hnearest]
    norm_num
  have hwraps : ¬1500 < maxTokens roundedFloats (some (.num "1e19")) := by
    rw [maxTokens_large_iff rounds_roundedFloats (hnumber _ (by simp)), numberValue_1e19]
    norm_num
  have htools : hasNonEmptyJSON roundedFloats (some (.arr [firstTool])) = true := by decide +kernel
  have hunread : hasNonEmptyJSON roundedFloats (some (.arr [firstTool, secondTool])) = false :=
    hasNonEmptyJSON_of_unread (by decide +kernel) parseFloat_1e400
  refine ⟨⟨hchange, ?_, ?_⟩, change_withTools, ?_, ?_⟩
  · rw [tier_eq, score_withTokens (by decide +kernel), if_pos hmany]
    rfl
  · rw [tier_eq, score_withTokens (by decide +kernel), if_neg hwraps]
    rfl
  · rw [tier_eq, score_withTools (by decide +kernel), htools]
    rfl
  · rw [tier_eq, score_withTools (by decide +kernel), hunread]
    rfl

end CoreMesh.Autopilot
