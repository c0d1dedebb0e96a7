import Mathlib.Data.List.Infix
import CoreMesh.Autopilot.Classify
import CoreMesh.Lib.LineGrowth
import CoreMesh.Lib.PyText

/-!
# Texts that grow

What the score reads of the texts of a request, when text is appended to one of them: the words in it,
its constraints and the number of its tokens. All of it is read line by line, and none is lost when lines
get longer and more. A text is appended to somewhere in a content, which is decoded and trimmed on the way.
-/

namespace CoreMesh.Autopilot

open CoreMesh.Cache LineGrowth

/-! ### Texts -/

/-- The lines of the one text are lengthened to be lines of the other. -/
def TextGrows (s t : String) : Prop := Grows '\n' s.toList t.toList

section Texts

variable {s t : String}

theorem contains_iff {text needle : String} : contains text needle = true ↔ needle.toList <:+: text.toList := by
  unfold contains
  rw [List.any_eq_true, List.infix_iff_prefix_suffix]
  apply exists_congr
  intro rest
  rw [List.mem_tails, List.isPrefixOf_iff_prefix, and_comm]

theorem trimSpace_toList (text : String) : (trimSpace text).toList = PyText.trim isSpace text.toList := by
  rw [trimSpace, String.toList_ofList, PyText.trim]

theorem trimSpace_eq_self (hs : PyText.Trimmed isSpace s.toList) : trimSpace s = s := by
  apply String.toList_injective
  rw [trimSpace_toList, hs.trim_eq]

theorem trimmed_trimSpace (text : String) : PyText.Trimmed isSpace (trimSpace text).toList := by
  rw [trimSpace_toList]
  exact PyText.trimmed_trim isSpace _

/-- A text that is appended to lengthens the trimmed text. -/
theorem textGrows_append (text rest : String) : TextGrows (trimSpace text) (trimSpace (text ++ rest)) := by
  apply Grows.of_prefix
  rw [trimSpace_toList, trimSpace_toList, String.toList_append]
  exact PyText.trim_prefix_append isSpace _ _

theorem textGrows_intercalate {parts parts' : List String}
    (hparts : List.SublistForall₂ TextGrows parts parts') :
    TextGrows ("\n".intercalate parts) ("\n".intercalate parts') := by
  have hlists : List.SublistForall₂ (Grows '\n') (parts.map String.toList) (parts'.map String.toList) := by
    rw [List.sublistForall₂_map_left_iff, List.sublistForall₂_map_right_iff]
    exact hparts
  unfold TextGrows
  rw [String.toList_intercalate, String.toList_intercalate]
  exact grows_intercalate hlists

/-- Only a line break becomes one in small letters. -/
theorem lower_eq_break_iff (c : Char) :
    (if c.toNat = 0x130 then 'i' else if c.toNat = 0x212a then 'k' else c.toLower) = '\n' ↔ c = '\n' := by
  constructor
  · intro hbreak
    split at hbreak
    · cases hbreak
    · split at hbreak
      · cases hbreak
      · unfold Char.toLower at hbreak
        split at hbreak
        · next hupper =>
            have hfirst : 65 ≤ c.val.toNat := hupper.1
            have hlast : c.val.toNat ≤ 90 := hupper.2
            have hcode : (c.val.toNat + 32) % 2 ^ 32 = 10 := congrArg (fun c => c.val.toNat) hbreak
            omega
        · exact hbreak
  · intro hbreak
    subst hbreak
    rfl

theorem TextGrows.toLower (hgrows : TextGrows s t) : TextGrows (toLower s) (toLower t) := by
  unfold TextGrows Cache.toLower
  rw [String.toList_ofList, String.toList_ofList]
  exact Grows.map hgrows lower_eq_break_iff

theorem TextGrows.contains {needle : String} (hgrows : TextGrows s t) (hneedle : '\n' ∉ needle.toList)
    (hcontains : contains s needle = true) : contains t needle = true :=
  contains_iff.mpr (hgrows.infix_of_infix hneedle (contains_iff.mp hcontains))

theorem TextGrows.countMatches_le {needles : List String} (hgrows : TextGrows s t)
    (hneedles : ∀ needle ∈ needles, '\n' ∉ needle.toList) :
    countMatches s needles ≤ countMatches t needles := by
  apply List.countP_mono_left
  intro needle hneedle
  exact hgrows.toLower.contains (hneedles needle hneedle)

theorem isListItem_append (xs ys : List Char) (hitem : (isListItem ∘ String.ofList) xs = true) :
    (isListItem ∘ String.ofList) (xs ++ ys) = true := by
  obtain ⟨rest, hrest⟩ := PyText.trim_prefix_append isSpace xs ys
  simp only [Function.comp_apply, isListItem, trimSpace_toList, String.toList_ofList] at hitem ⊢
  rw [← hrest]
  split at hitem
  · next hline => rw [hline]; rfl
  · next hline => rw [hline]; rfl
  · next digit mark _ _ hdash hstar hline =>
      rw [hline]
      split
      · rfl
      · rfl
      · next heq =>
          have hfirst := (List.cons.inj heq).1
          have hsecond := (List.cons.inj (List.cons.inj heq).2).1
          rwa [hfirst, hsecond] at hitem
      · next hnone => exact absurd rfl (hnone _ _ _ _)
  · cases hitem

theorem TextGrows.countConstraints_le (hgrows : TextGrows s t) :
    countConstraints s ≤ countConstraints t := by
  apply Nat.add_le_add
  · apply hgrows.toLower.countMatches_le
    decide +kernel
  · rw [List.countP_map, List.countP_map, List.splitOn_eq_splitOnP, List.splitOn_eq_splitOnP]
    exact hgrows.toLower.countP_splitOnP_le rfl isListItem_append

theorem TextGrows.approximateTokenCount_le (hgrows : TextGrows s t) (hs : trimSpace s = s)
    (ht : trimSpace t = t) : approximateTokenCount s ≤ approximateTokenCount t := by
  have hlength := hgrows.length_le
  have hwords : fieldCount s ≤ fieldCount t := by
    apply hgrows.countP_splitOnP_le
    · rfl
    · intro xs ys hne
      simpa using fun hxs hys => by simp [hxs] at hne
  unfold approximateTokenCount
  rw [hs, ht]
  by_cases hempty : s = ""
  · rw [if_pos hempty]
    exact Nat.zero_le _
  · have hlonger : t ≠ "" := by
      intro hnil
      rw [hnil] at hlength
      exact hempty (String.toList_eq_nil_iff.mp (List.length_eq_zero_iff.mp (Nat.le_zero.mp hlength)))
    rw [if_neg hempty, if_neg hlonger]
    dsimp only
    split <;> split <;> omega

end Texts

/-! ### Contents -/

/-- An element of a content that is text. -/
inductive TextPart : Json → Prop where
  | string (text : String) : TextPart (.str text)
  | typed (text : String) : TextPart (.obj [("type", .str "text"), ("text", .str text)])

/-- Text is appended to the text of a content, somewhere in it, or as an element of its own. -/
inductive Appended : Json → Json → Prop where
  | text (text rest : String) : Appended (.str text) (.str (text ++ rest))
  | null (text : String) : Appended .null (.str text)
  | item {before after : List Json} {item item' : Json} (happended : Appended item item') :
      Appended (.arr (before ++ item :: after)) (.arr (before ++ item' :: after))
  | part {before after : List Json} {part : Json} (hpart : TextPart part) :
      Appended (.arr (before ++ after)) (.arr (before ++ part :: after))
  | textMember {before after : List (String × Json)} (text rest : String) :
      Appended (.obj (before ++ ("text", .str text) :: after))
        (.obj (before ++ ("text", .str (text ++ rest)) :: after))
  | contentMember {before after : List (String × Json)} {content content' : Json}
      (happended : Appended content content') :
      Appended (.obj (before ++ ("content", content) :: after))
        (.obj (before ++ ("content", content') :: after))

section Contents

variable {floats : FloatCodec}

def ContentGrows (value value' : GoValue floats.Value) : Prop :=
  TextGrows (trimSpace (contentText floats value)) (trimSpace (contentText floats value'))

/-- The text of an element, if there is any. -/
def partOf (floats : FloatCodec) (value : GoValue floats.Value) : Option String :=
  if trimSpace (contentText floats value) = "" then none else some (trimSpace (contentText floats value))

theorem contentParts_eq (items : List (GoValue floats.Value)) :
    contentParts floats items = items.filterMap (partOf floats) := by
  induction items with
  | nil => rfl
  | cons item rest ih =>
      rw [contentParts, ih]
      split
      · next hempty =>
          have hpart : partOf floats item = none := if_pos hempty
          rw [List.filterMap_cons_none hpart]
      · next hne =>
          have hpart : partOf floats item = some (trimSpace (contentText floats item)) := if_neg hne
          rw [List.filterMap_cons_some hpart]

theorem ContentGrows.partOf {value value' : GoValue floats.Value} (hgrows : ContentGrows value value') :
    List.SublistForall₂ TextGrows (partOf floats value).toList (partOf floats value').toList := by
  unfold Autopilot.partOf
  split
  · exact .nil
  · next hne =>
      have hlength := Grows.length_le hgrows
      have hne' : trimSpace (contentText floats value') ≠ "" := by
        intro hempty
        rw [hempty] at hlength
        exact hne (String.toList_eq_nil_iff.mp (List.length_eq_zero_iff.mp (Nat.le_zero.mp hlength)))
      rw [if_neg hne']
      exact .cons hgrows .nil

/-- Texts that are trimmed and not empty stay trimmed when they are joined. -/
theorem trimSpace_intercalate {parts : List String}
    (hparts : ∀ part ∈ parts, part ≠ "" ∧ PyText.Trimmed isSpace part.toList) :
    trimSpace ("\n".intercalate parts) = "\n".intercalate parts := by
  apply trimSpace_eq_self
  rw [String.toList_intercalate]
  apply PyText.trimmed_intercalate
  intro part hpart
  obtain ⟨text, htext, rfl⟩ := List.mem_map.mp hpart
  obtain ⟨hne, htrimmed⟩ := hparts text htext
  exact ⟨mt String.toList_eq_nil_iff.mp hne, htrimmed⟩

theorem partOf_eq_some {value : GoValue floats.Value} {text : String}
    (hpart : partOf floats value = some text) : text ≠ "" ∧ PyText.Trimmed isSpace text.toList := by
  unfold partOf at hpart
  split at hpart
  · cases hpart
  · next hne =>
      obtain rfl := Option.some.inj hpart
      exact ⟨hne, trimmed_trimSpace _⟩

theorem trimSpace_contentText_slice (items : List (GoValue floats.Value)) :
    trimSpace (contentText floats (.slice items)) = "\n".intercalate (items.filterMap (partOf floats)) := by
  rw [contentText, contentParts_eq]
  apply trimSpace_intercalate
  intro part hpart
  obtain ⟨item, -, hitem⟩ := List.mem_filterMap.mp hpart
  exact partOf_eq_some hitem

theorem filterMap_singleton {α β : Type} (f : α → Option β) (a : α) : [a].filterMap f = (f a).toList := by
  cases hfa : f a with
  | none => rw [List.filterMap_cons_none hfa]; rfl
  | some b => rw [List.filterMap_cons_some hfa]; rfl

theorem sublistForall₂_refl (texts : List String) : List.SublistForall₂ TextGrows texts texts :=
  sublistForall₂_of_forall (fun _ => Grows.refl _) (List.Sublist.refl _)

/-- The elements of a slice are as they were but for those in the middle. -/
theorem contentGrows_slice (before after : List (GoValue floats.Value))
    {middle middle' : List (GoValue floats.Value)}
    (hmiddle : List.SublistForall₂ TextGrows (middle.filterMap (partOf floats))
      (middle'.filterMap (partOf floats))) :
    ContentGrows (GoValue.slice (before ++ (middle ++ after)))
      (GoValue.slice (before ++ (middle' ++ after))) := by
  unfold ContentGrows
  rw [trimSpace_contentText_slice, trimSpace_contentText_slice]
  simp only [List.filterMap_append]
  apply textGrows_intercalate
  exact sublistForall₂_append (sublistForall₂_refl _)
    (sublistForall₂_append hmiddle (sublistForall₂_refl _))

theorem decodeItems_append (left right : List Json) :
    decodeItems floats (left ++ right) = (decodeItems floats left).bind fun values =>
      (decodeItems floats right).map (values ++ ·) := by
  induction left with
  | nil => simp [decodeItems]
  | cons item rest ih =>
      simp only [List.cons_append, decodeItems, ih]
      cases decode floats item with
      | none => rfl
      | some value =>
          cases decodeItems floats rest with
          | none => rfl
          | some values =>
              cases decodeItems floats right with
              | none => rfl
              | some values' => rfl

/-- The elements in the middle of an array may be others. -/
theorem decode_arr (before middle after : List Json) {value : GoValue floats.Value}
    (hvalue : decode floats (.arr (before ++ (middle ++ after))) = some value) :
    ∃ first values last, decodeItems floats middle = some values ∧
      value = .slice (first ++ (values ++ last)) ∧
      ∀ middle' values', decodeItems floats middle' = some values' →
        decode floats (.arr (before ++ (middle' ++ after))) = some (.slice (first ++ (values' ++ last))) := by
  rw [decode, Option.map_eq_some_iff] at hvalue
  obtain ⟨all, hall, rfl⟩ := hvalue
  rw [decodeItems_append, Option.bind_eq_some_iff] at hall
  obtain ⟨first, hfirst, hrest⟩ := hall
  obtain ⟨rest, hmore, rfl⟩ := Option.map_eq_some_iff.mp hrest
  rw [decodeItems_append, Option.bind_eq_some_iff] at hmore
  obtain ⟨values, hvalues, hlast⟩ := hmore
  obtain ⟨last, hafter, rfl⟩ := Option.map_eq_some_iff.mp hlast
  refine ⟨first, values, last, hvalues, rfl, fun middle' values' hvalues' => ?_⟩
  rw [decode, decodeItems_append, hfirst, Option.bind_some, decodeItems_append, hvalues',
    Option.bind_some, hafter]
  rfl

theorem decodeItems_singleton {item : Json} {value : GoValue floats.Value}
    (hvalue : decode floats item = some value) : decodeItems floats [item] = some [value] := by
  rw [decodeItems, hvalue]
  rfl

/-! ### Objects -/

/-- An entry is as it was, or it is the one of the key and has grown. -/
def EntryGrows (key : String) (G : GoValue floats.Value → GoValue floats.Value → Prop)
    (entry entry' : String × GoValue floats.Value) : Prop :=
  entry.1 = entry'.1 ∧ (entry.2 = entry'.2 ∨ entry.1 = key ∧ G entry.2 entry'.2)

variable {key : String} {G : GoValue floats.Value → GoValue floats.Value → Prop}

theorem entryGrows_refl (entry : String × GoValue floats.Value) : EntryGrows key G entry entry :=
  ⟨rfl, .inl rfl⟩

/-- A member whose value grows is the entry that does. -/
theorem decodeMembers_grows {value value' : Json}
    (hvalue : ∀ v, decode floats value = some v → ∃ v', decode floats value' = some v' ∧ G v v')
    (after : List (String × Json)) : ∀ (before : List (String × Json)) entries,
      decodeMembers floats (before ++ (key, value) :: after) = some entries →
        ∃ entries', decodeMembers floats (before ++ (key, value') :: after) = some entries' ∧
          List.Forall₂ (EntryGrows key G) entries entries' := by
  intro before
  induction before with
  | nil =>
      intro entries hentries
      simp only [List.nil_append, decodeMembers, Option.bind_eq_bind] at hentries ⊢
      obtain ⟨v, hv, hrest⟩ := Option.bind_eq_some_iff.mp hentries
      obtain ⟨rest, hafter, hinsert⟩ := Option.bind_eq_some_iff.mp hrest
      obtain rfl := Option.some.inj hinsert
      obtain ⟨v', hv', hgrows⟩ := hvalue v hv
      refine ⟨insertMissing key v' rest, by rw [hv', hafter]; rfl, ?_⟩
      have hentry : EntryGrows key G (key, v) (key, v') := ⟨rfl, .inr ⟨rfl, hgrows⟩⟩
      apply forall₂_insertMissing (fun _ _ h => h.1) hentry
      exact List.forall₂_same.mpr fun entry _ => entryGrows_refl entry
  | cons member before ih =>
      intro entries hentries
      obtain ⟨name, item⟩ := member
      simp only [List.cons_append, decodeMembers, Option.bind_eq_bind] at hentries ⊢
      obtain ⟨v, hv, hrest⟩ := Option.bind_eq_some_iff.mp hentries
      obtain ⟨rest, hafter, hinsert⟩ := Option.bind_eq_some_iff.mp hrest
      obtain rfl := Option.some.inj hinsert
      obtain ⟨rest', hafter', hgrows⟩ := ih rest hafter
      refine ⟨insertMissing name v rest', by rw [hv, hafter']; rfl, ?_⟩
      exact forall₂_insertMissing (fun _ _ h => h.1) (entryGrows_refl _) hgrows

theorem lookup_grows {entries entries' : List (String × GoValue floats.Value)}
    (hentries : List.Forall₂ (EntryGrows key G) entries entries') (k : String) :
    entries.lookup k = entries'.lookup k ∨
      k = key ∧ ∃ v v', entries.lookup k = some v ∧ entries'.lookup k = some v' ∧ G v v' := by
  induction hentries with
  | nil => exact .inl rfl
  | @cons entry entry' rest rest' hentry _ ih =>
      obtain ⟨name, v⟩ := entry
      obtain ⟨name', v'⟩ := entry'
      obtain ⟨rfl, hvalue⟩ : name = name' ∧ _ := hentry
      rw [KeyedList.lookup_cons, KeyedList.lookup_cons]
      split
      · next hk =>
          obtain hsame | ⟨hkey, hgrows⟩ := hvalue
          · exact .inl (congrArg some hsame)
          · exact .inr ⟨hk.trans hkey, v, v', rfl, rfl, hgrows⟩
      · exact ih

theorem contentEntry_eq (entries : List (String × GoValue floats.Value)) :
    contentEntry floats entries = ((entries.lookup "content").map (contentText floats)).getD "" := by
  induction entries with
  | nil => rfl
  | cons entry rest ih =>
      obtain ⟨name, v⟩ := entry
      rw [contentEntry, KeyedList.lookup_cons, ih]
      by_cases hname : name = "content"
      · rw [if_pos hname, if_pos hname.symm]
        rfl
      · rw [if_neg hname, if_neg (Ne.symm hname)]

theorem contentGrows_textMember {entries entries' : List (String × GoValue floats.Value)}
    (hentries : List.Forall₂ (EntryGrows "text" fun v v' => ∃ text rest, v = .string text ∧
      v' = .string (text ++ rest)) entries entries') :
    ContentGrows (GoValue.map entries) (GoValue.map entries') := by
  have hcontent : contentEntry floats entries = contentEntry floats entries' := by
    obtain hsame | ⟨hkey, -⟩ := lookup_grows hentries "content"
    · rw [contentEntry_eq, contentEntry_eq, hsame]
    · exact absurd hkey (by decide)
  unfold ContentGrows contentText
  obtain hsame | ⟨-, v, v', hv, hv', text, rest, rfl, rfl⟩ := lookup_grows hentries "text"
  · rw [hsame, hcontent]
    exact Grows.refl _
  · rw [hv, hv']
    exact textGrows_append text rest

theorem contentGrows_contentMember {entries entries' : List (String × GoValue floats.Value)}
    (hentries : List.Forall₂ (EntryGrows "content" ContentGrows) entries entries') :
    ContentGrows (GoValue.map entries) (GoValue.map entries') := by
  have hcontent : TextGrows (trimSpace (contentEntry floats entries))
      (trimSpace (contentEntry floats entries')) := by
    rw [contentEntry_eq, contentEntry_eq]
    obtain hsame | ⟨-, v, v', hv, hv', hgrows⟩ := lookup_grows hentries "content"
    · rw [hsame]
      exact Grows.refl _
    · rw [hv, hv']
      exact hgrows
  have htext : entries.lookup "text" = entries'.lookup "text" := by
    obtain hsame | ⟨hkey, -⟩ := lookup_grows hentries "text"
    · exact hsame
    · exact absurd hkey (by decide)
  unfold ContentGrows contentText
  rw [htext]
  split
  · exact Grows.refl _
  · exact hcontent

/-- A content that text is appended to decodes if it did, and its text grows. -/
theorem decode_appended {raw raw' : Json} (happended : Appended raw raw') :
    ∀ value, decode floats raw = some value →
      ∃ value', decode floats raw' = some value' ∧ ContentGrows value value' := by
  induction happended with
  | text text rest =>
      intro value hvalue
      obtain rfl := Option.some.inj hvalue
      exact ⟨.string (text ++ rest), rfl, textGrows_append text rest⟩
  | null text =>
      intro value hvalue
      obtain rfl := Option.some.inj hvalue
      refine ⟨.string text, rfl, Grows.of_prefix ?_⟩
      have hnull : contentText floats GoValue.null = "" := rfl
      have hempty : trimSpace "" = "" := by decide
      rw [hnull, hempty, String.toList_empty]
      exact List.nil_prefix
  | @item before after item item' _ ih =>
      intro value hvalue
      obtain ⟨first, values, last, hvalues, rfl, hdecode⟩ := decode_arr before [item] after hvalue
      cases hv : decode floats item with
      | none =>
          rw [decodeItems, hv] at hvalues
          cases hvalues
      | some v =>
          rw [decodeItems_singleton hv] at hvalues
          obtain rfl := Option.some.inj hvalues
          obtain ⟨v', hv', hgrows⟩ := ih v hv
          refine ⟨_, hdecode [item'] [v'] (decodeItems_singleton hv'), contentGrows_slice first last ?_⟩
          rw [filterMap_singleton, filterMap_singleton]
          exact hgrows.partOf
  | @part before after part hpart =>
      intro value hvalue
      obtain ⟨first, values, last, hvalues, rfl, hdecode⟩ := decode_arr before [] after hvalue
      obtain rfl := Option.some.inj hvalues
      obtain ⟨v, hv⟩ : ∃ v, decode floats part = some v := by
        cases hpart with
        | string text => exact ⟨_, rfl⟩
        | typed text => exact ⟨_, rfl⟩
      refine ⟨_, hdecode [part] [v] (decodeItems_singleton hv), contentGrows_slice first last ?_⟩
      exact .nil
  | @textMember before after text rest =>
      intro value hvalue
      obtain ⟨entries, hentries, rfl⟩ := Option.map_eq_some_iff.mp hvalue
      have htext : ∀ v, decode floats (.str text) = some v → ∃ v', decode floats (.str (text ++ rest)) =
          some v' ∧ ∃ text rest, v = .string text ∧ v' = .string (text ++ rest) :=
        fun v hv => ⟨_, rfl, text, rest, (Option.some.inj hv).symm, rfl⟩
      obtain ⟨entries', hentries', hgrows⟩ := decodeMembers_grows htext after before entries hentries
      exact ⟨.map entries', by rw [decode, hentries']; rfl, contentGrows_textMember hgrows⟩
  | @contentMember before after content content' _ ih =>
      intro value hvalue
      obtain ⟨entries, hentries, rfl⟩ := Option.map_eq_some_iff.mp hvalue
      obtain ⟨entries', hentries', hgrows⟩ := decodeMembers_grows ih after before entries hentries
      exact ⟨.map entries', by rw [decode, hentries']; rfl, contentGrows_contentMember hgrows⟩

theorem textPart_eq (raw : Json) : textPart floats raw = (decode floats raw).bind (partOf floats) := by
  cases hvalue : decode floats raw with
  | none => simp [textPart, hvalue]
  | some value => simp [textPart, hvalue, partOf]

theorem textPart_grows {raw raw' : Json} (happended : Appended raw raw') :
    List.SublistForall₂ TextGrows (textPart floats raw).toList (textPart floats raw').toList := by
  rw [textPart_eq, textPart_eq]
  cases hvalue : decode floats raw with
  | none => exact .nil
  | some value =>
      obtain ⟨value', hvalue', hgrows⟩ := decode_appended happended value hvalue
      rw [hvalue', Option.bind_some, Option.bind_some]
      exact hgrows.partOf

end Contents

/-! ### Messages -/

/-- Text is appended to the content of a message, or to a message that has none. -/
inductive AppendedMessage : Json → Json → Prop where
  | content {before after : List (String × Json)} {key : String} {content content' : Json}
      (hkey : isField "content" key = true) (happended : Appended content content') :
      AppendedMessage (.obj (before ++ (key, content) :: after)) (.obj (before ++ (key, content') :: after))
  | first {members : List (String × Json)} (habsent : ∀ member ∈ members, isField "content" member.1 = false)
      (text : String) : AppendedMessage (.obj members) (.obj (members ++ [("content", .str text)]))

structure MessageGrows (message message' : Message) : Prop where
  role : message.role = message'.role
  content : message.content = message'.content ∨ message.content = none ∨
    ∃ content content', message.content = some content ∧ message'.content = some content' ∧
      Appended content content'

section Messages

variable {floats : FloatCodec}

theorem isField_role {key : String} (hkey : isField "content" key = true) : isField "role" key = false := by
  unfold isField at hkey ⊢
  rw [beq_iff_eq.mp hkey]
  decide

theorem member_content (message : Message) {key : String} (hkey : isField "content" key = true)
    (value : Json) : message.member (key, value) = some { message with content := some value } := by
  simp only [Message.member, isField_role hkey, hkey, if_true, Bool.false_eq_true, if_false]

/-- A further member leaves the one message grown from the other. -/
theorem MessageGrows.member {message message' next : Message} (hgrows : MessageGrows message message')
    {member : String × Json} (hnext : message.member member = some next) :
    ∃ next', message'.member member = some next' ∧ MessageGrows next next' := by
  obtain ⟨key, value⟩ := member
  by_cases hrole : isField "role" key = true
  · simp only [Message.member, hrole, if_true] at hnext ⊢
    cases value with
    | null => exact ⟨message', rfl, Option.some.inj hnext ▸ hgrows⟩
    | str role => exact ⟨_, rfl, Option.some.inj hnext ▸ ⟨rfl, hgrows.content⟩⟩
    | _ => cases hnext
  · by_cases hcontent : isField "content" key = true
    · rw [member_content _ hcontent] at hnext ⊢
      exact ⟨_, rfl, Option.some.inj hnext ▸ ⟨hgrows.role, .inl rfl⟩⟩
    · simp only [Message.member, hrole, hcontent, Bool.false_eq_true, if_false] at hnext ⊢
      exact ⟨message', rfl, Option.some.inj hnext ▸ hgrows⟩

theorem MessageGrows.members {members : List (String × Json)} : ∀ {message message' last : Message},
    MessageGrows message message' → members.foldlM Message.member message = some last →
      ∃ last', members.foldlM Message.member message' = some last' ∧ MessageGrows last last' := by
  induction members with
  | nil =>
      intro message message' last hgrows hlast
      exact ⟨message', rfl, Option.some.inj hlast ▸ hgrows⟩
  | cons member rest ih =>
      intro message message' last hgrows hlast
      rw [List.foldlM_cons, Option.bind_eq_bind, Option.bind_eq_some_iff] at hlast
      obtain ⟨next, hnext, hlast⟩ := hlast
      obtain ⟨next', hnext', hgrows'⟩ := hgrows.member hnext
      obtain ⟨last', hlast', hgrown⟩ := ih hgrows' hlast
      refine ⟨last', ?_, hgrown⟩
      rw [List.foldlM_cons, Option.bind_eq_bind, hnext']
      exact hlast'

/-- Without a member for it there is no content. -/
theorem content_of_absent {members : List (String × Json)}
    (habsent : ∀ member ∈ members, isField "content" member.1 = false) :
    ∀ {message last : Message}, members.foldlM Message.member message = some last →
      last.content = message.content := by
  induction members with
  | nil =>
      intro message last hlast
      rw [← Option.some.inj hlast]
  | cons member rest ih =>
      intro message last hlast
      rw [List.foldlM_cons, Option.bind_eq_bind, Option.bind_eq_some_iff] at hlast
      obtain ⟨next, hnext, hlast⟩ := hlast
      rw [ih (fun other hother => habsent other (List.mem_cons_of_mem _ hother)) hlast]
      obtain ⟨key, value⟩ := member
      have hkey : isField "content" key = false := habsent (key, value) List.mem_cons_self
      simp only [Message.member, hkey, Bool.false_eq_true, if_false] at hnext
      split at hnext
      · split at hnext
        · rw [← Option.some.inj hnext]
        · rw [← Option.some.inj hnext]
        · cases hnext
      · rw [← Option.some.inj hnext]

theorem decodeMessage_appended {raw raw' : Json} (happended : AppendedMessage raw raw') {message : Message}
    (hmessage : decodeMessage raw = some message) :
    ∃ message', decodeMessage raw' = some message' ∧ MessageGrows message message' := by
  cases happended with
  | @content before after key content content' hkey happended =>
      rw [decodeMessage, List.foldlM_append, Option.bind_eq_bind, Option.bind_eq_some_iff] at hmessage
      obtain ⟨first, hfirst, hmessage⟩ := hmessage
      rw [List.foldlM_cons, member_content _ hkey, Option.bind_eq_bind, Option.bind_some] at hmessage
      have hgrows : MessageGrows { first with content := some content }
          { first with content := some content' } :=
        ⟨rfl, .inr (.inr ⟨content, content', rfl, rfl, happended⟩)⟩
      obtain ⟨message', hmessage', hgrown⟩ := hgrows.members hmessage
      refine ⟨message', ?_, hgrown⟩
      rw [decodeMessage, List.foldlM_append, hfirst, Option.bind_eq_bind, Option.bind_some,
        List.foldlM_cons, member_content _ hkey, Option.bind_eq_bind, Option.bind_some, hmessage']
  | @first members habsent text =>
      have hnone : message.content = none := content_of_absent habsent hmessage
      refine ⟨{ message with content := some (.str text) }, ?_, rfl, .inr (.inl hnone)⟩
      have hkey : isField "content" "content" = true := by decide +kernel
      rw [decodeMessage] at hmessage
      rw [decodeMessage, List.foldlM_append, hmessage]
      exact member_content message hkey _

/-- The text of a message that counts. -/
def messageText (floats : FloatCodec) (message : Message) : Option String :=
  if isPromptRole message.role then message.content.bind (textPart floats) else none

theorem MessageGrows.messageText {message message' : Message} (hgrows : MessageGrows message message') :
    List.SublistForall₂ TextGrows (messageText floats message).toList
      (messageText floats message').toList := by
  unfold Autopilot.messageText
  rw [← hgrows.role]
  split
  · obtain hsame | hnone | ⟨content, content', hcontent, hcontent', happended⟩ := hgrows.content
    · rw [hsame]
      exact sublistForall₂_refl _
    · rw [hnone]
      exact .nil
    · rw [hcontent, hcontent']
      exact textPart_grows happended
  · exact .nil

/-- The texts of a field of messages. -/
def messageTexts (floats : FloatCodec) (raw : Option Json) : List String :=
  ((decodeMessages raw).getD []).filterMap (messageText floats)

/-- The messages in the middle may be others. -/
theorem messageTexts_arr (before middle middle' after : List Json)
    (hmiddle : ∀ messages, middle.mapM decodeMessage = some messages →
      ∃ messages', middle'.mapM decodeMessage = some messages' ∧
        List.SublistForall₂ TextGrows (messages.filterMap (messageText floats))
          (messages'.filterMap (messageText floats))) :
    List.SublistForall₂ TextGrows (messageTexts floats (some (.arr (before ++ (middle ++ after)))))
      (messageTexts floats (some (.arr (before ++ (middle' ++ after))))) := by
  simp only [messageTexts, decodeMessages, List.mapM_append, Option.bind_eq_bind, Option.pure_def]
  cases before.mapM decodeMessage with
  | none => exact .nil
  | some first =>
      cases hmessages : middle.mapM decodeMessage with
      | none => exact .nil
      | some messages =>
          obtain ⟨messages', hmessages', hgrows⟩ := hmiddle messages hmessages
          rw [hmessages']
          cases after.mapM decodeMessage with
          | none => exact .nil
          | some last =>
              simp only [Option.bind_some, Option.getD_some, List.filterMap_append]
              exact sublistForall₂_append (sublistForall₂_refl _)
                (sublistForall₂_append hgrows (sublistForall₂_refl _))

theorem mapM_singleton {α β : Type} (f : α → Option β) (a : α) : [a].mapM f = (f a).map fun b => [b] := by
  rw [List.mapM_cons]
  cases f a with
  | none => rfl
  | some b => rfl

end Messages

end CoreMesh.Autopilot
