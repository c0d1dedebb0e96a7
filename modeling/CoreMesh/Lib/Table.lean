import Mathlib.Data.List.Nodup
import Mathlib.Tactic.Common

/-!
# Tables

A table is the list of its rows. The operations are those of single SQL statements: an `UPDATE` and a
`DELETE` with a condition, and an `INSERT` against a key, ignoring a conflict or failing on it.
-/

namespace Table

universe u v

variable {Row : Type u} {Key : Type v} [DecidableEq Key]

def update (rows : List Row) (condition : Row → Bool) (set : Row → Row) : List Row :=
  rows.map fun row => if condition row then set row else row

def delete (rows : List Row) (condition : Row → Bool) : List Row :=
  rows.filter fun row => !condition row

/-- `ON CONFLICT (key) DO NOTHING`. -/
def insertIgnore (key : Row → Key) (rows : List Row) (row : Row) : List Row :=
  if rows.any (fun other => key other == key row) then rows else rows ++ [row]

/-- A plain `INSERT`, which a row with the same key makes fail. -/
def insert (key : Row → Key) (rows : List Row) (row : Row) : Option (List Row) :=
  if rows.any (fun other => key other == key row) then none else some (rows ++ [row])

/-- `ON CONFLICT (key) DO UPDATE`: `merge` gives the row from the old one and the one proposed. -/
def upsert (key : Row → Key) (merge : Row → Row → Row) (rows : List Row) (row : Row) : List Row :=
  if rows.any (fun other => key other == key row) then
    update rows (fun other => key other == key row) fun old => merge old row
  else rows ++ [row]

def get? (key : Row → Key) (rows : List Row) (k : Key) : Option Row :=
  rows.find? fun row => key row == k

theorem mem_update {rows : List Row} {condition : Row → Bool} {set : Row → Row} {row : Row} :
    row ∈ update rows condition set ↔
      (∃ old ∈ rows, condition old = true ∧ row = set old) ∨ (row ∈ rows ∧ condition row = false) := by
  unfold update
  rw [List.mem_map]
  constructor
  · rintro ⟨old, hold, rfl⟩
    cases hcondition : condition old with
    | true => exact .inl ⟨old, hold, hcondition, by simp⟩
    | false => exact .inr ⟨by simpa using hold, by simpa using hcondition⟩
  · rintro (⟨old, hold, hcondition, rfl⟩ | ⟨hrow, hcondition⟩)
    · exact ⟨old, hold, by simp [hcondition]⟩
    · exact ⟨row, hrow, by simp [hcondition]⟩

/-- An update whose condition no row meets changes nothing. -/
theorem update_of_not_any {rows : List Row} {condition : Row → Bool} (set : Row → Row)
    (hnone : rows.any condition = false) : update rows condition set = rows := by
  unfold update
  refine (List.map_congr_left fun row hrow => ?_).trans (List.map_id rows)
  have hcondition : condition row = false := by
    simpa using List.any_eq_false.mp hnone row hrow
  simp [hcondition]

/-- An update that leaves the key alone leaves the keys alone. -/
theorem map_update {Column : Type v} {column : Row → Column} {set : Row → Row}
    (hkeeps : ∀ row, column (set row) = column row) (rows : List Row) (condition : Row → Bool) :
    (update rows condition set).map column = rows.map column := by
  unfold update
  rw [List.map_map]
  refine List.map_congr_left fun row _ => ?_
  show column (if condition row then set row else row) = column row
  split
  · exact hkeeps row
  · rfl

theorem mem_insertIgnore {key : Row → Key} {rows : List Row} {row other : Row}
    (hmem : other ∈ insertIgnore key rows row) : other ∈ rows ∨ other = row := by
  unfold insertIgnore at hmem
  split at hmem
  · exact .inl hmem
  · simpa using hmem

omit [DecidableEq Key] in
theorem nodup_map_concat {key : Row → Key} {rows : List Row} {row : Row}
    (hrows : (rows.map key).Nodup) (hfresh : key row ∉ rows.map key) :
    ((rows ++ [row]).map key).Nodup := by
  rw [List.map_append, List.map_singleton]
  refine List.nodup_append.mpr ⟨hrows, List.nodup_singleton _, fun a ha b hb hab => hfresh ?_⟩
  obtain rfl := List.mem_singleton.mp hb
  exact hab ▸ ha

/-- An insert that ignores a conflict keeps the key a key. -/
theorem nodup_map_insertIgnore {key : Row → Key} {rows : List Row} (row : Row)
    (hrows : (rows.map key).Nodup) : ((insertIgnore key rows row).map key).Nodup := by
  unfold insertIgnore
  split
  · exact hrows
  · next hfresh =>
      refine nodup_map_concat hrows fun hmem => hfresh ?_
      obtain ⟨other, hother, hkey⟩ := List.mem_map.mp hmem
      exact List.any_eq_true.mpr ⟨other, hother, by simp [hkey]⟩

theorem subset_insertIgnore (key : Row → Key) (rows : List Row) (row : Row) :
    rows ⊆ insertIgnore key rows row := by
  unfold insertIgnore
  split
  · exact fun _ hmem => hmem
  · exact fun _ hmem => List.mem_append_left _ hmem

/-- A plain insert that succeeds appends a row whose key is new. -/
theorem insert_eq_some {key : Row → Key} {rows rows' : List Row} {row : Row}
    (hinsert : insert key rows row = some rows') :
    key row ∉ rows.map key ∧ rows' = rows ++ [row] := by
  unfold insert at hinsert
  split at hinsert
  · cases hinsert
  · rename_i hfresh
    refine ⟨fun hmem => hfresh ?_, (Option.some.inj hinsert).symm⟩
    obtain ⟨other, hother, hkey⟩ := List.mem_map.mp hmem
    exact List.any_eq_true.mpr ⟨other, hother, by simp [hkey]⟩

theorem mem_upsert {key : Row → Key} {merge : Row → Row → Row} {rows : List Row} {row other : Row}
    (hmem : other ∈ upsert key merge rows row) :
    other ∈ rows ∨ other = row ∨ ∃ old ∈ rows, other = merge old row := by
  unfold upsert at hmem
  split at hmem
  · obtain ⟨old, hold, -, rfl⟩ | ⟨hrow, -⟩ := mem_update.mp hmem
    · exact .inr (.inr ⟨old, hold, rfl⟩)
    · exact .inl hrow
  · rw [List.mem_append, List.mem_singleton] at hmem
    exact hmem.imp_right .inl

theorem get?_cons (key : Row → Key) (row : Row) (rows : List Row) (k : Key) :
    get? key (row :: rows) k = if key row = k then some row else get? key rows k := by
  unfold get?
  by_cases hk : key row = k
  · simp [hk]
  · rw [if_neg hk, List.find?_cons_of_neg (by simpa using hk)]

/-- Only the rows with a key are changed by an update of them, and they keep it. -/
theorem get?_update {key : Row → Key} {set : Row → Row} (hkey : ∀ row, key (set row) = key row)
    (rows : List Row) (k k' : Key) :
    get? key (update rows (fun row => key row == k') set) k =
      if k' = k then (get? key rows k).map set else get? key rows k := by
  unfold update
  induction rows with
  | nil => simp [get?]
  | cons row rest ih =>
      rw [List.map_cons, get?_cons, get?_cons, ih]
      by_cases hk : k' = k
      · by_cases hrow : key row = k'
        · simp [hk, hrow, hkey]
        · simp [hk, hk ▸ hrow]
      · by_cases hrow : key row = k'
        · simp [hk, hrow, hkey]
        · simp [hk, hrow]

theorem get?_upsert {key : Row → Key} {merge : Row → Row → Row}
    (hkey : ∀ old row, key (merge old row) = key old) (rows : List Row) (row : Row) (k : Key) :
    get? key (upsert key merge rows row) k =
      if key row = k then some (((get? key rows k).map fun old => merge old row).getD row)
      else get? key rows k := by
  unfold upsert
  split
  · next hany =>
      rw [get?_update fun old => hkey old row]
      split
      · next hk =>
          obtain ⟨other, hother, hsame⟩ := List.any_eq_true.mp hany
          rw [beq_iff_eq] at hsame
          cases hget : get? key rows k with
          | none =>
              have hmiss := List.find?_eq_none.mp hget other hother
              exact absurd (hsame.trans hk) (by simpa using hmiss)
          | some old => rfl
      · rfl
  · next hnone =>
      have hmiss : get? key rows (key row) = none := by
        refine List.find?_eq_none.mpr fun other hother hsame => hnone ?_
        exact List.any_eq_true.mpr ⟨other, hother, hsame⟩
      unfold get? at hmiss ⊢
      rw [List.find?_append]
      split
      · next hk =>
          subst hk
          simp [hmiss]
      · next hk => simp [hk]

end Table
