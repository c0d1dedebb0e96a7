import Mathlib.Data.List.Nodup
import Mathlib.Data.List.Perm.Basic
import Mathlib.Data.List.Induction
import Mathlib.Tactic.Common

/-!
# Dictionaries that keep the order of insertion

A dictionary is the list of its values, each of which has its key, in the order in which the keys came
first. A value whose key is there already takes the place of the old one.
-/

namespace OrderedDict

universe u v

variable {V : Type u} {K : Type v} [DecidableEq K] (key : V → K)

def insert (values : List V) (value : V) : List V :=
  if values.any fun other => key other == key value then
    values.map fun other => if key other = key value then value else other
  else values ++ [value]

def insertAll (values added : List V) : List V := added.foldl (insert key) values

def get? (values : List V) (k : K) : Option V := values.find? fun value => key value == k

/-- A value whose key is there already is left out. -/
def setDefault (values : List V) (value : V) : List V :=
  if values.any fun other => key other == key value then values else values ++ [value]

def setDefaults (values added : List V) : List V := added.foldl (setDefault key) values

/-- The values that a later one with the same key takes the place of. -/
def hidden : List V → List V
  | [] => []
  | value :: values => if key value ∈ values.map key then value :: hidden values else hidden values

/-- The last values of their keys. -/
def kept : List V → List V
  | [] => []
  | value :: values => if key value ∈ values.map key then kept values else value :: kept values

/-- The last value with a key, which is the one that stays. -/
def last? (values : List V) (k : K) : Option V := get? key values.reverse k

/-- A list of values is a dictionary if no two have the same key. -/
def Distinct (values : List V) : Prop := (values.map key).Nodup

instance (values : List V) : Decidable (Distinct key values) :=
  inferInstanceAs (Decidable (List.Nodup _))

variable {key}

theorem any_key_iff {values : List V} {k : K} :
    values.any (fun other => key other == k) = true ↔ k ∈ values.map key := by
  simp [List.mem_map]

theorem map_key_insert (values : List V) (value : V) :
    (insert key values value).map key =
      if key value ∈ values.map key then values.map key else values.map key ++ [key value] := by
  rw [insert]
  by_cases hkey : key value ∈ values.map key
  · rw [if_pos (any_key_iff.mpr hkey), if_pos hkey, List.map_map]
    refine List.map_congr_left fun other _ => ?_
    show key (if key other = key value then value else other) = key other
    split
    · rename_i hsame
      exact hsame.symm
    · rfl
  · rw [if_neg (fun hany => hkey (any_key_iff.mp hany)), if_neg hkey, List.map_append]
    rfl

theorem Distinct.insert {values : List V} (hdistinct : Distinct key values) (value : V) :
    Distinct key (insert key values value) := by
  rw [Distinct, map_key_insert]
  split
  · exact hdistinct
  · rename_i hfresh
    refine List.Nodup.append hdistinct (List.nodup_singleton _) fun k hk hk' => ?_
    obtain rfl := List.mem_singleton.mp hk'
    exact hfresh hk

theorem Distinct.insertAll {values : List V} (hdistinct : Distinct key values) (added : List V) :
    Distinct key (insertAll key values added) := by
  induction added generalizing values with
  | nil => exact hdistinct
  | cons value added ih => exact ih (hdistinct.insert value)

theorem insertAll_append (values added added' : List V) :
    insertAll key values (added ++ added') = insertAll key (insertAll key values added) added' :=
  List.foldl_append

theorem mem_insert {values : List V} {value other : V} (hmem : other ∈ insert key values value) :
    other ∈ values ∨ other = value := by
  rw [insert] at hmem
  split at hmem
  · obtain ⟨old, hold, rfl⟩ := List.mem_map.mp hmem
    split
    · exact .inr rfl
    · exact .inl hold
  · rw [List.mem_append, List.mem_singleton] at hmem
    exact hmem

theorem mem_insertAll {values added : List V} {value : V} (hmem : value ∈ insertAll key values added) :
    value ∈ values ∨ value ∈ added := by
  induction added generalizing values with
  | nil => exact .inl hmem
  | cons first added ih =>
      obtain hinserted | hadded := ih hmem
      · obtain hold | rfl := mem_insert hinserted
        · exact .inl hold
        · exact .inr List.mem_cons_self
      · exact .inr (List.mem_cons_of_mem _ hadded)

/-! ### Values by their key -/

theorem key_of_get? {values : List V} {k : K} {value : V} (hget : get? key values k = some value) :
    key value = k ∧ value ∈ values := by
  have hfound := List.find?_some hget
  exact ⟨by simpa using hfound, List.mem_of_find?_eq_some hget⟩

theorem get?_eq_none_iff {values : List V} {k : K} :
    get? key values k = none ↔ k ∉ values.map key := by
  rw [get?, List.find?_eq_none]
  simp [List.mem_map]

theorem get?_cons (value : V) (values : List V) (k : K) :
    get? key (value :: values) k = if key value = k then some value else get? key values k := by
  rw [get?, List.find?_cons]
  by_cases hkey : key value = k
  · simp [hkey]
  · have hskip : (key value == k) = false := beq_eq_false_iff_ne.mpr hkey
    rw [hskip, if_neg hkey]
    rfl

theorem get?_append (values values' : List V) (k : K) :
    get? key (values ++ values') k = (get? key values k).or (get? key values' k) :=
  List.find?_append

theorem last?_append (values values' : List V) (k : K) :
    last? key (values ++ values') k = (last? key values' k).or (last? key values k) := by
  rw [last?, List.reverse_append, get?_append]
  rfl

theorem last?_eq_none_iff {values : List V} {k : K} :
    last? key values k = none ↔ ∀ value ∈ values, key value ≠ k := by
  rw [last?, get?_eq_none_iff]
  simp [List.mem_map]

theorem get?_map_replace (values : List V) (value : V) (k : K) :
    get? key (values.map fun other => if key other = key value then value else other) k =
      if key value = k ∧ k ∈ values.map key then some value else get? key values k := by
  induction values with
  | nil => simp [get?]
  | cons other values ih =>
      rw [List.map_cons, List.map_cons, get?_cons, get?_cons, ih]
      by_cases hother : key other = key value
      · by_cases hk : key value = k
        · subst hk
          simp [hother]
        · simp [hother, hk]
      · by_cases hk : key value = k
        · subst hk
          simp [hother, Ne.symm hother]
        · simp [hother, hk]

theorem get?_insert (values : List V) (value : V) (k : K) :
    get? key (insert key values value) k = if key value = k then some value else get? key values k := by
  rw [insert]
  by_cases hkey : key value ∈ values.map key
  · rw [if_pos (any_key_iff.mpr hkey), get?_map_replace]
    by_cases hk : key value = k
    · rw [if_pos ⟨hk, hk ▸ hkey⟩, if_pos hk]
    · rw [if_neg fun h => hk h.1, if_neg hk]
  · rw [if_neg fun hany => hkey (any_key_iff.mp hany), get?_append, get?_cons]
    by_cases hk : key value = k
    · rw [if_pos hk, if_pos hk, get?_eq_none_iff.mpr (hk ▸ hkey), Option.none_or]
    · rw [if_neg hk, if_neg hk]
      exact Option.or_none

/-- What has been inserted last stays, and what was there before under the other keys. -/
theorem get?_insertAll (values added : List V) (k : K) :
    get? key (insertAll key values added) k = (last? key added k).or (get? key values k) := by
  induction added using List.reverseRecOn with
  | nil => rfl
  | append_singleton added value ih =>
      have hlast : last? key [value] k = if key value = k then some value else none := get?_cons value [] k
      rw [insertAll_append, last?_append, hlast]
      show get? key (insert key (insertAll key values added) value) k = _
      rw [get?_insert]
      split
      · rfl
      · exact ih

theorem Distinct.mem_iff {values : List V} (hdistinct : Distinct key values) {value : V} :
    value ∈ values ↔ get? key values (key value) = some value := by
  constructor
  · intro hmem
    cases hget : get? key values (key value) with
    | none => exact absurd (List.mem_map_of_mem hmem) (get?_eq_none_iff.mp hget)
    | some other =>
        obtain ⟨hkey, hother⟩ := key_of_get? hget
        rw [List.inj_on_of_nodup_map hdistinct hother hmem hkey]
  · exact fun hget => (key_of_get? hget).2

theorem Distinct.last?_eq {values : List V} (hdistinct : Distinct key values) {value : V}
    (hmem : value ∈ values) : last? key values (key value) = some value := by
  have hreverse : Distinct key values.reverse := by
    rw [Distinct, List.map_reverse, List.nodup_reverse]
    exact hdistinct
  exact hreverse.mem_iff.mp (List.mem_reverse.mpr hmem)

theorem key_of_last? {values : List V} {k : K} {value : V} (hlast : last? key values k = some value) :
    key value = k ∧ value ∈ values := by
  obtain ⟨hkey, hmem⟩ := key_of_get? hlast
  exact ⟨hkey, List.mem_reverse.mp hmem⟩

/-- A dictionary is what its keys lead to, but for the order. -/
theorem Distinct.perm_iff {values values' : List V} (hdistinct : Distinct key values)
    (hdistinct' : Distinct key values') :
    values.Perm values' ↔ ∀ k, get? key values k = get? key values' k := by
  rw [List.perm_ext_iff_of_nodup (List.Nodup.of_map key hdistinct) (List.Nodup.of_map key hdistinct')]
  constructor
  · intro hmem k
    cases hget : get? key values k with
    | none =>
        refine (get?_eq_none_iff.mpr fun hk => ?_).symm
        obtain ⟨value, hvalue, rfl⟩ := List.mem_map.mp hk
        exact get?_eq_none_iff.mp hget (List.mem_map_of_mem ((hmem value).mpr hvalue))
    | some value =>
        obtain ⟨rfl, hvalue⟩ := key_of_get? hget
        exact (hdistinct'.mem_iff.mp ((hmem value).mp hvalue)).symm
  · intro hall value
    rw [hdistinct.mem_iff, hdistinct'.mem_iff, hall]

theorem map_key_setDefault (values : List V) (value : V) :
    (setDefault key values value).map key =
      if key value ∈ values.map key then values.map key else values.map key ++ [key value] := by
  rw [setDefault]
  by_cases hkey : key value ∈ values.map key
  · rw [if_pos (any_key_iff.mpr hkey), if_pos hkey]
  · rw [if_neg (fun hany => hkey (any_key_iff.mp hany)), if_neg hkey, List.map_append]
    rfl

theorem Distinct.setDefault {values : List V} (hdistinct : Distinct key values) (value : V) :
    Distinct key (setDefault key values value) := by
  have hinserted := hdistinct.insert value
  rw [Distinct, map_key_insert] at hinserted
  rw [Distinct, map_key_setDefault]
  exact hinserted

theorem Distinct.setDefaults {values : List V} (hdistinct : Distinct key values) (added : List V) :
    Distinct key (setDefaults key values added) := by
  induction added generalizing values with
  | nil => exact hdistinct
  | cons value added ih => exact ih (hdistinct.setDefault value)

theorem mem_setDefaults {values added : List V} {value : V}
    (hmem : value ∈ setDefaults key values added) : value ∈ values ∨ value ∈ added := by
  induction added generalizing values with
  | nil => exact .inl hmem
  | cons first added ih =>
      obtain hset | hadded := ih hmem
      · rw [setDefault] at hset
        split at hset
        · exact .inl hset
        · rw [List.mem_append, List.mem_singleton] at hset
          obtain hold | rfl := hset
          · exact .inl hold
          · exact .inr List.mem_cons_self
      · exact .inr (List.mem_cons_of_mem first hadded)

theorem get?_setDefault (values : List V) (value : V) (k : K) :
    get? key (setDefault key values value) k = (get? key values k).or (get? key [value] k) := by
  rw [setDefault]
  split
  · rename_i hany
    have hmem := any_key_iff.mp hany
    cases hget : get? key values k with
    | some other => rfl
    | none =>
        have hne : key value ≠ k := by
          rintro rfl
          exact get?_eq_none_iff.mp hget hmem
        rw [get?_cons, if_neg hne]
        rfl
  · exact get?_append values [value] k

/-- The first value of a key stays. -/
theorem get?_setDefaults (values added : List V) (k : K) :
    get? key (setDefaults key values added) k = (get? key values k).or (get? key added k) := by
  induction added generalizing values with
  | nil => exact Option.or_none.symm
  | cons value added ih =>
      have happend : get? key (value :: added) k = (get? key [value] k).or (get? key added k) :=
        get?_append [value] added k
      show get? key (setDefaults key (setDefault key values value) added) k = _
      rw [ih, get?_setDefault, happend, Option.or_assoc]

/-- Values with different keys are inserted one behind the other. -/
theorem insertAll_of_distinct {added : List V} (hdistinct : Distinct key added) :
    insertAll key [] added = added := by
  induction added using List.reverseRecOn with
  | nil => rfl
  | append_singleton added value ih =>
      rw [Distinct, List.map_append, List.nodup_append] at hdistinct
      obtain ⟨hadded, -, hfresh⟩ := hdistinct
      have hnone : ¬ (added.any fun other => key other == key value) = true := by
        intro hany
        exact hfresh _ (any_key_iff.mp hany) (key value) List.mem_cons_self rfl
      rw [insertAll_append, ih hadded]
      show insert key added value = _
      rw [insert, if_neg hnone]

/-! ### Hidden values -/

theorem perm_hidden_kept (values : List V) : (hidden key values ++ kept key values).Perm values := by
  induction values with
  | nil => exact .nil
  | cons value values ih =>
      rw [hidden, kept]
      split
      · exact ih.cons value
      · exact List.perm_middle.trans (ih.cons value)

theorem mem_map_key_kept {values : List V} {k : K} :
    k ∈ (kept key values).map key ↔ k ∈ values.map key := by
  induction values with
  | nil => exact Iff.rfl
  | cons value values ih =>
      rw [kept, List.map_cons, List.mem_cons]
      split
      · rename_i hlater
        rw [ih]
        exact ⟨.inr, fun h => h.elim (fun heq => heq ▸ hlater) id⟩
      · rw [List.map_cons, List.mem_cons, ih]

theorem distinct_kept (values : List V) : Distinct key (kept key values) := by
  induction values with
  | nil => exact List.nodup_nil
  | cons value values ih =>
      rw [kept]
      split
      · exact ih
      · rename_i hlast
        exact List.nodup_cons.mpr ⟨fun hkept => hlast (mem_map_key_kept.mp hkept), ih⟩

theorem get?_kept (values : List V) (k : K) : get? key (kept key values) k = last? key values k := by
  induction values with
  | nil => rfl
  | cons value values ih =>
      have hcons : last? key (value :: values) k = (last? key values k).or (get? key [value] k) :=
        last?_append [value] values k
      rw [kept, hcons]
      split
      · rename_i hlater
        rw [ih]
        cases hlast : last? key values k with
        | some other => rfl
        | none =>
            have hne : key value ≠ k := by
              rintro rfl
              obtain ⟨other, hother, hsame⟩ := List.mem_map.mp hlater
              exact last?_eq_none_iff.mp hlast other hother hsame
            rw [get?_cons, if_neg hne]
            rfl
      · rename_i hfirst
        rw [get?_cons, get?_cons, ih]
        split
        · rename_i hsame
          have hnone : last? key values k = none :=
            last?_eq_none_iff.mpr fun other hother hk =>
              hfirst (List.mem_map.mpr ⟨other, hother, hk.trans hsame.symm⟩)
          rw [hnone]
          rfl
        · exact Option.or_none.symm

section Content

variable {W : Type*} (content : V → W)

/-- A key with what stands under it. -/
def entry (key : V → K) (content : V → W) (value : V) : K × W := (key value, content value)

theorem get?_map_entry (values : List V) (k : K) :
    get? Prod.fst (values.map (entry key content)) k =
      (get? key values k).map (entry key content) := by
  rw [get?, List.find?_map]
  rfl

variable {content}

/-- The kept values say the same exactly if the last values of all keys do. -/
theorem kept_perm_iff {values values' : List V} :
    ((kept key values).map (entry key content)).Perm ((kept key values').map (entry key content)) ↔
      ∀ k, (last? key values k).map content = (last? key values' k).map content := by
  have hdistinct : ∀ values : List V,
      Distinct Prod.fst ((kept key values).map (entry key content)) := by
    intro values
    rw [Distinct, List.map_map]
    exact distinct_kept values
  rw [(hdistinct values).perm_iff (hdistinct values')]
  refine forall_congr' fun k => ?_
  rw [get?_map_entry, get?_map_entry, get?_kept, get?_kept]
  cases hlast : last? key values k with
  | none => cases last? key values' k <;> simp
  | some value =>
      cases hlast' : last? key values' k with
      | none => simp
      | some value' =>
          have hkeys : key value = key value' :=
            (key_of_get? hlast).1.trans (key_of_get? hlast').1.symm
          simp [entry, hkeys]

theorem kept_of_distinct {values : List V} (hdistinct : Distinct key values) :
    kept key values = values := by
  induction values with
  | nil => rfl
  | cons value values ih =>
      obtain ⟨hfirst, hrest⟩ := List.nodup_cons.mp hdistinct
      rw [kept, if_neg hfirst, ih hrest]

/-- Dictionaries say the same, in some order, exactly if the values of all keys do. -/
theorem Distinct.entry_perm_iff {values values' : List V} (hdistinct : Distinct key values)
    (hdistinct' : Distinct key values') :
    (values.map (entry key content)).Perm (values'.map (entry key content)) ↔
      ∀ k, (last? key values k).map content = (last? key values' k).map content := by
  rw [← kept_perm_iff, kept_of_distinct hdistinct, kept_of_distinct hdistinct']

/-- Where the kept values say the same, what all values say is up to the hidden ones. -/
theorem perm_iff_hidden {values values' : List V}
    (hsame : ∀ k, (last? key values k).map content = (last? key values' k).map content) :
    (values.map (entry key content)).Perm (values'.map (entry key content)) ↔
      ((hidden key values).map (entry key content)).Perm
        ((hidden key values').map (entry key content)) := by
  have hparts : ∀ values : List V, (values.map (entry key content)).Perm
      ((hidden key values).map (entry key content) ++ (kept key values).map (entry key content)) := by
    intro values
    rw [← List.map_append]
    exact ((perm_hidden_kept values).map _).symm
  have hkept := kept_perm_iff.mpr hsame
  constructor
  · intro hall
    have happend := ((hparts values).symm.trans hall).trans (hparts values')
    exact (List.perm_append_right_iff _).mp (happend.trans (hkept.symm.append_left _))
  · intro hhidden
    exact (hparts values).trans ((hhidden.append hkept).trans (hparts values').symm)

end Content

end OrderedDict
