import CoreMesh.Ingestion.Extraction
import CoreMesh.Lib.Except

/-!
# Which texts the offline extraction can convert

A text of digits, points and commas is converted to a float if its digits are in one or two groups with points
between. Every group of the patterns that a price is taken by is of that kind; an amount may be commas alone,
and the cell of a table may have more points. A count is converted if it is not too long.
-/

namespace CoreMesh.Ingestion

open Regex Pattern

/-! ### Groups of digits -/

/-- How many groups of other characters there are between points. -/
def digitGroups : Text → Nat
  | [] => 0
  | c :: rest => digitGroups rest + if c ≠ '.' ∧ rest.head?.all (· == '.') = true then 1 else 0

/-- One or two groups of digits with points between; commas do not count. -/
def IsAmount (raw : Text) : Prop := digitGroups (cleanse raw) = 1 ∨ digitGroups (cleanse raw) = 2

instance (raw : Text) : Decidable (IsAmount raw) := inferInstanceAs (Decidable (_ ∨ _))

theorem digitGroups_dropWhile (text : Text) :
    digitGroups (text.dropWhile (· == '.')) = digitGroups text := by
  induction text with
  | nil => rfl
  | cons c rest ih =>
      by_cases hc : c = '.'
      · subst hc
        rw [List.dropWhile_cons_of_pos rfl, ih, digitGroups, if_neg fun h => h.1 rfl, Nat.add_zero]
      · rw [List.dropWhile_cons_of_neg (by simpa using hc)]

theorem collapse_dropWhile (text : Text) :
    (collapse text).dropWhile (· == '.') = collapse (text.dropWhile (· == '.')) := by
  induction text with
  | nil => rfl
  | cons c rest ih =>
      by_cases hc : c = '.'
      · subst hc
        rw [List.dropWhile_cons_of_pos rfl, ← ih, collapse]
        split
        · rfl
        · rw [List.dropWhile_cons_of_pos rfl]
      · rw [List.dropWhile_cons_of_neg (by simpa using hc), collapse, if_neg fun h => hc h.1,
          List.dropWhile_cons_of_neg (by simpa using hc)]

theorem rdropWhile_cons (p : Char → Bool) (c : Char) (rest : Text) :
    (c :: rest).rdropWhile p =
      if rest.rdropWhile p = [] then if p c then [] else [c] else c :: rest.rdropWhile p := by
  rw [List.rdropWhile, List.rdropWhile, List.reverse_cons, List.dropWhile_append]
  by_cases hrest : rest.reverse.dropWhile p = []
  · rw [if_pos (List.isEmpty_iff.mpr hrest), if_pos (List.reverse_eq_nil_iff.mpr hrest)]
    cases hc : p c with
    | true => rw [List.dropWhile_cons_of_pos hc, if_pos rfl]; rfl
    | false => rw [List.dropWhile_cons_of_neg (by rw [hc]; exact Bool.false_ne_true), if_neg Bool.false_ne_true]; rfl
  · rw [if_neg fun h => hrest (List.isEmpty_iff.mp h),
      if_neg fun h => hrest (List.reverse_eq_nil_iff.mp h), List.reverse_append]
    rfl

/-- A text whose points are collapsed, without those at its end. -/
def squeezed (text : Text) : Text := (collapse text).rdropWhile (· == '.')

theorem squeezed_point (rest : Text) : squeezed ( '.' :: rest) =
    if squeezed rest = [] then [] else if rest.head? = some '.' then squeezed rest
    else '.' :: squeezed rest := by
  rw [squeezed, collapse]
  by_cases hhead : rest.head? = some '.'
  · rw [if_pos ⟨rfl, hhead⟩, if_pos hhead]
    split
    · rename_i hnil
      exact hnil
    · rfl
  · rw [if_neg fun h => hhead h.2, rdropWhile_cons, if_neg hhead]
    rfl

theorem squeezed_cons {c : Char} (hc : c ≠ '.') (rest : Text) : squeezed (c :: rest) = c :: squeezed rest := by
  have hpoint : (c == '.') = false := beq_eq_false_iff_ne.mpr hc
  rw [squeezed, collapse, if_neg fun h => hc h.1, rdropWhile_cons, hpoint, if_neg Bool.false_ne_true]
  split
  · rename_i hnil
    rw [squeezed, hnil]
  · rfl

theorem head_of_digitGroups_eq_zero {text : Text} (hzero : digitGroups text = 0) :
    text.head?.all (· == '.') = true := by
  induction text with
  | nil => rfl
  | cons c rest ih =>
      by_cases hc : c = '.'
      · subst hc
        rfl
      · rw [digitGroups] at hzero
        have hrest := ih (by omega)
        rw [if_pos ⟨hc, hrest⟩] at hzero
        omega

/-- The points that are left are those between two groups, and one in front. -/
theorem count_squeezed (text : Text) :
    (squeezed text = [] ∧ digitGroups text = 0) ∨ (squeezed text ≠ [] ∧ (squeezed text).head? = text.head? ∧
      (squeezed text).count '.' + 1 = digitGroups text + if text.head? = some '.' then 1 else 0) := by
  induction text with
  | nil => exact .inl ⟨rfl, rfl⟩
  | cons c rest ih =>
      by_cases hc : c = '.'
      · subst hc
        have hgroups : digitGroups ( '.' :: rest) = digitGroups rest := by
          rw [digitGroups, if_neg fun h => h.1 rfl, Nat.add_zero]
        rw [squeezed_point, hgroups, List.head?_cons, if_pos rfl]
        obtain ⟨hnil, hzero⟩ | ⟨hsome, hhead, hcount⟩ := ih
        · rw [if_pos hnil]
          exact .inl ⟨rfl, hzero⟩
        · rw [if_neg hsome]
          right
          split
          · rename_i hpoint
            rw [if_pos hpoint] at hcount
            exact ⟨hsome, hhead.trans hpoint, hcount⟩
          · rename_i hother
            rw [if_neg hother] at hcount
            refine ⟨List.cons_ne_nil _ _, rfl, ?_⟩
            rw [List.count_cons_self]
            omega
      · refine .inr ?_
        rw [squeezed_cons hc, digitGroups, List.count_cons_of_ne hc, List.head?_cons, List.head?_cons,
          if_neg fun h => hc (Option.some.inj h), Nat.add_zero]
        refine ⟨List.cons_ne_nil _ _, rfl, ?_⟩
        obtain ⟨hnil, hzero⟩ | ⟨hsome, hhead, hcount⟩ := ih
        · rw [if_pos ⟨hc, head_of_digitGroups_eq_zero hzero⟩, hnil, hzero]
          rfl
        · cases rest with
          | nil => exact absurd rfl hsome
          | cons d rest =>
              rw [List.head?_cons] at hcount ⊢
              rw [hcount]
              by_cases hd : d = '.'
              · rw [if_pos (congrArg some hd), if_pos ⟨hc, beq_iff_eq.mpr hd⟩]
              · rw [if_neg fun h => hd (Option.some.inj h), if_neg fun h => hd (beq_iff_eq.mp h.2)]

/-! ### Conversions -/

def isNumeral (c : Char) : Prop := asciiDecimal c = true ∨ c = '.'

theorem point_of_not_decimal {c : Char} (hc : isNumeral c) (hother : asciiDecimal c ≠ true) : c = '.' :=
  hc.resolve_left hother

theorem count_point_of_decimal {text : Text} (htext : ∀ c ∈ text, asciiDecimal c = true) :
    text.count '.' = 0 := by
  apply List.count_eq_zero.mpr
  intro hpoint
  cases htext _ hpoint

theorem all_decimal_iff {text : Text} (htext : ∀ c ∈ text, isNumeral c) :
    text.all asciiDecimal = true ↔ text.count '.' = 0 := by
  rw [List.all_eq_true]
  apply Iff.intro count_point_of_decimal
  intro hcount c hc
  apply (htext c hc).resolve_right
  intro hpoint
  rw [hpoint] at hc
  exact List.count_eq_zero.mp hcount hc

theorem floatOf_of_decimal {text : Text} (hrest : text.dropWhile asciiDecimal = []) :
    floatOf text = if text.takeWhile asciiDecimal = [] then .error (.noFloat text)
      else .ok (.ofRat (natOf (text.takeWhile asciiDecimal))) := by
  rw [floatOf, hrest]

theorem floatOf_of_other {text fraction : Text} {c : Char} (hrest : text.dropWhile asciiDecimal = c :: fraction) :
    floatOf text =
      if c = '.' ∧ fraction.all asciiDecimal ∧ text.takeWhile asciiDecimal ++ fraction ≠ [] then
        .ok (.ofRat (natOf (text.takeWhile asciiDecimal ++ fraction) / 10 ^ fraction.length))
      else .error (.noFloat text) := by
  rw [floatOf, hrest]

/-- A text that no point is in front of is converted if it has at most one. -/
theorem floatOf_isOk_iff {text : Text} (htext : ∀ c ∈ text, isNumeral c) (hhead : text.head? ≠ some '.') :
    (∃ x, floatOf text = .ok x) ↔ text ≠ [] ∧ text.count '.' ≤ 1 := by
  have hwhole : (text.takeWhile asciiDecimal).count '.' = 0 :=
    count_point_of_decimal fun c hc => List.mem_takeWhile_imp hc
  have hsplit := List.takeWhile_append_dropWhile (p := asciiDecimal) (l := text)
  cases hrest : text.dropWhile asciiDecimal with
  | nil =>
      rw [hrest, List.append_nil] at hsplit
      rw [hsplit] at hwhole
      rw [floatOf_of_decimal hrest, hsplit]
      split
      · rename_i hnil
        apply iff_of_false
        · intro ⟨x, hx⟩
          cases hx
        · intro ⟨hsome, _⟩
          exact hsome hnil
      · rename_i hsome
        exact ⟨fun _ => ⟨hsome, by omega⟩, fun _ => ⟨_, rfl⟩⟩
  | cons c fraction =>
      rw [hrest] at hsplit
      have hmem : ∀ d ∈ c :: fraction, isNumeral d := fun d hd =>
        htext d (hsplit ▸ List.mem_append_right _ hd)
      have hc : c = '.' := by
        apply point_of_not_decimal (hmem c List.mem_cons_self)
        intro hdecimal
        have hnot : asciiDecimal c = false := by
          have hhead := List.head?_dropWhile_not asciiDecimal text
          rw [hrest] at hhead
          exact hhead
        rw [hdecimal] at hnot
        cases hnot
      subst hc
      have hsome : text.takeWhile asciiDecimal ≠ [] := by
        intro hnil
        rw [hnil, List.nil_append] at hsplit
        exact hhead (by rw [← hsplit, List.head?_cons])
      have hcount : text.count '.' = fraction.count '.' + 1 := by
        rw [← hsplit, List.count_append, hwhole, List.count_cons_self, Nat.zero_add]
      have hfraction := all_decimal_iff fun d hd => hmem d (List.mem_cons_of_mem _ hd)
      have htext : text ≠ [] := fun hnil => hsome (by rw [hnil]; rfl)
      rw [floatOf_of_other hrest]
      split
      · rename_i hok
        have hzero := hfraction.mp hok.2.1
        exact ⟨fun _ => ⟨htext, by omega⟩, fun _ => ⟨_, rfl⟩⟩
      · rename_i hno
        apply iff_of_false
        · intro ⟨x, hx⟩
          cases hx
        · intro ⟨_, hle⟩
          apply hno
          refine ⟨rfl, hfraction.mpr (by omega), ?_⟩
          exact fun hnil => hsome (List.append_eq_nil_iff.mp hnil).1

theorem mem_of_mem_collapse {c : Char} {text : Text} (hc : c ∈ collapse text) : c ∈ text := by
  induction text with
  | nil => exact hc
  | cons d rest ih =>
      rw [collapse] at hc
      split at hc
      · exact List.mem_cons_of_mem _ (ih hc)
      · obtain rfl | hrest := List.mem_cons.mp hc
        · exact List.mem_cons_self
        · exact List.mem_cons_of_mem _ (ih hrest)

theorem mem_of_mem_squeezed {c : Char} {text : Text} (hc : c ∈ squeezed text) : c ∈ text :=
  mem_of_mem_collapse ((List.rdropWhile_prefix _ _).subset hc)

theorem head_dropWhile_point (text : Text) : (text.dropWhile (· == '.')).head? ≠ some '.' := by
  intro hpoint
  have hnot := List.head?_dropWhile_not (· == '.') text
  rw [hpoint] at hnot
  cases hnot

/-- A text is converted exactly if it has one or two groups. -/
theorem convert_isOk_iff {text : Text} (htext : ∀ c ∈ text, isNumeral c) :
    (∃ x, floatOf (PyText.trim (· == '.') (collapse text)) = .ok x) ↔
      digitGroups text = 1 ∨ digitGroups text = 2 := by
  have hhead := head_dropWhile_point text
  rw [PyText.trim, collapse_dropWhile, ← digitGroups_dropWhile text]
  have hmem : ∀ c ∈ text.dropWhile (· == '.'), isNumeral c := fun c hc =>
    htext c ((List.dropWhile_suffix _).subset hc)
  obtain ⟨hnil, hzero⟩ | ⟨hsome, hsame, hcount⟩ := count_squeezed (text.dropWhile (· == '.'))
  · apply iff_of_false
    · intro hok
      obtain ⟨x, hx⟩ := hok
      rw [← squeezed, hnil] at hx
      cases hx
    · omega
  · rw [if_neg hhead, Nat.add_zero] at hcount
    rw [← squeezed, floatOf_isOk_iff (fun c hc => hmem c (mem_of_mem_squeezed hc)) (hsame ▸ hhead)]
    apply Iff.intro
    · intro hone
      have hle := hone.2
      omega
    · intro hgroups
      exact ⟨hsome, by omega⟩

/-- The characters that a group of a number takes. -/
def isNumberChar (c : Char) : Prop := asciiDecimal c = true ∨ c = '.' ∨ c = ',' ∨ c = ':'

theorem isNumeral_of_mem_cleanse {raw : Text} (hraw : ∀ c ∈ raw, isNumberChar c) :
    ∀ c ∈ cleanse raw, isNumeral c := by
  intro c hc
  obtain ⟨d, hd, rfl⟩ := List.mem_map.mp hc
  obtain ⟨hd, hkept⟩ := List.mem_filter.mp hd
  obtain hdecimal | rfl | rfl | rfl := hraw d hd
  · rw [if_neg fun h => by rw [h] at hdecimal; cases hdecimal]
    exact .inl hdecimal
  · exact .inr rfl
  · cases hkept
  · exact .inr rfl

theorem parseFloat_isOk_iff {raw : Text} (hraw : ∀ c ∈ raw, isNumberChar c) :
    (∃ x, parseFloat raw = .ok x) ↔ IsAmount raw :=
  convert_isOk_iff (isNumeral_of_mem_cleanse hraw)

theorem intOf_isOk_iff {digits : Text} (hsome : digits ≠ []) (hdigits : ∀ c ∈ digits, asciiDecimal c = true) :
    (∃ n, intOf digits = .ok n) ↔ digits.length ≤ 4300 := by
  rw [intOf, if_neg fun h => h.elim hsome fun hall => hall (List.all_eq_true.mpr hdigits)]
  split
  · apply iff_of_false
    · intro ⟨n, hn⟩
      cases hn
    · omega
  · exact iff_of_true ⟨_, rfl⟩ (by omega)

/-! ### What the groups take -/

theorem isNumberChar_of_amount {raw : Text} (hraw : Matches ascii amount raw) : ∀ c ∈ raw, isNumberChar c := by
  obtain ⟨first, _, rfl, hfirst, second, third, rfl, hsecond, hthird⟩ := hraw
  intro c hc
  rw [List.mem_append, List.mem_append] at hc
  obtain hc | hc | hc := hc
  · obtain hdecimal | hcomma := Bool.or_eq_true_iff.mp ((all_of_matches_some hfirst).2 c hc)
    · exact .inl hdecimal
    · exact .inr (.inr (.inl (beq_iff_eq.mp hcomma)))
  · obtain rfl | ⟨d, rfl, hd⟩ := matches_optional hsecond
    · cases hc
    · rw [List.mem_singleton.mp hc]
      exact .inr (.inl (beq_iff_eq.mp hd))
  · exact .inl (all_of_matches_star hthird c hc)

theorem isNumberChar_of_amounts {raw : Text} (hraw : Matches ascii amounts raw) :
    ∀ c ∈ raw, isNumberChar c := by
  intro c hc
  obtain hother | hcomma := Bool.or_eq_true_iff.mp ((all_of_matches_some hraw).2 c hc)
  · obtain hdecimal | hpoint := Bool.or_eq_true_iff.mp hother
    · exact .inl hdecimal
    · exact .inr (.inl (beq_iff_eq.mp hpoint))
  · exact .inr (.inr (.inl (beq_iff_eq.mp hcomma)))

theorem cleanse_append (left right : Text) : cleanse (left ++ right) = cleanse left ++ cleanse right := by
  rw [cleanse, List.filter_append, List.map_append]
  rfl

theorem cleanse_of_decimal {text : Text} (htext : ∀ c ∈ text, asciiDecimal c = true) : cleanse text = text := by
  induction text with
  | nil => rfl
  | cons c rest ih =>
      obtain ⟨hc, hrest⟩ := List.forall_mem_cons.mp htext
      have hone : cleanse [c] = [c] := by
        have hall : ∀ n : Fin 58, asciiDecimal (Char.ofNat n) = true →
            cleanse [Char.ofNat n] = [Char.ofNat n] := by decide
        have hc' : c.toNat ≤ 57 := of_decide_eq_true (Bool.and_eq_true_iff.mp hc).2
        have hone := hall ⟨c.toNat, by omega⟩
        rw [Char.ofNat_toNat] at hone
        exact hone hc
      rw [← List.singleton_append, cleanse_append, hone, ih hrest]

theorem digitGroups_append {text rest : Text} (hsome : text ≠ []) (htext : ∀ c ∈ text, asciiDecimal c = true)
    (hrest : rest.head?.all (· == '.') = true) : digitGroups (text ++ rest) = digitGroups rest + 1 := by
  induction text with
  | nil => exact absurd rfl hsome
  | cons c text ih =>
      obtain ⟨hc, htext⟩ := List.forall_mem_cons.mp htext
      have hpoint : c ≠ '.' := by
        intro hpoint
        rw [hpoint] at hc
        cases hc
      rw [List.cons_append, digitGroups]
      cases text with
      | nil => rw [List.nil_append, if_pos ⟨hpoint, hrest⟩]
      | cons d text =>
          have hd : d ≠ '.' := by
            intro hpoint
            have hd := htext d List.mem_cons_self
            rw [hpoint] at hd
            cases hd
          rw [ih (List.cons_ne_nil _ _) htext, if_neg fun h => hd (beq_iff_eq.mp h.2)]

theorem digitGroups_of_decimal {text : Text} (hsome : text ≠ [])
    (htext : ∀ c ∈ text, asciiDecimal c = true) : digitGroups text = 1 := by
  have hgroups : digitGroups (text ++ []) = digitGroups [] + 1 := digitGroups_append hsome htext rfl
  rw [List.append_nil] at hgroups
  exact hgroups

/-- A price is always converted. -/
theorem isAmount_of_price {raw : Text} (hraw : Matches ascii price raw) : IsAmount raw := by
  obtain ⟨whole, _, rfl, hwhole, hrest⟩ := hraw
  obtain ⟨hsome, hwhole⟩ := all_of_matches_some hwhole
  obtain rfl | ⟨_, fraction, rfl, ⟨sign, rfl, hsign⟩, hfraction⟩ := matches_optional hrest
  · rw [List.append_nil, IsAmount, cleanse_of_decimal hwhole]
    exact .inl (digitGroups_of_decimal hsome hwhole)
  · obtain ⟨hfew, hfraction⟩ := all_of_matches_some hfraction
    have hpoint : cleanse [sign] = ['.'] := by
      obtain hsign | hsign := Bool.or_eq_true_iff.mp hsign
      · rw [beq_iff_eq.mp hsign]
        rfl
      · rw [beq_iff_eq.mp hsign]
        rfl
    rw [IsAmount, cleanse_append, cleanse_append, cleanse_of_decimal hwhole, cleanse_of_decimal hfraction,
      hpoint, digitGroups_append hsome hwhole rfl]
    rw [List.singleton_append, digitGroups, if_neg fun h => h.1 rfl, digitGroups_of_decimal hfew hfraction]
    exact .inr rfl

theorem isNumberChar_of_price {raw : Text} (hraw : Matches ascii price raw) : ∀ c ∈ raw, isNumberChar c := by
  obtain ⟨whole, _, rfl, hwhole, hrest⟩ := hraw
  intro c hc
  obtain hc | hc := List.mem_append.mp hc
  · exact .inl ((all_of_matches_some hwhole).2 c hc)
  · obtain rfl | ⟨_, fraction, rfl, ⟨sign, rfl, hsign⟩, hfraction⟩ := matches_optional hrest
    · cases hc
    · obtain rfl | hc := List.mem_cons.mp hc
      · obtain hpoint | hcolon := Bool.or_eq_true_iff.mp hsign
        · exact .inr (.inl (beq_iff_eq.mp hpoint))
        · exact .inr (.inr (.inr (beq_iff_eq.mp hcolon)))
      · exact .inl ((all_of_matches_some hfraction).2 c hc)

theorem eq_of_foldCase_eq_l {c : Char} (hc : foldCase c = 'l') : c = 'l' ∨ c = 'L' := by
  rw [foldCase] at hc
  split at hc
  · rename_i hcapital
    have hall : ∀ n : Fin 91, Char.ofNat (n + 32) = 'l' → Char.ofNat n = 'L' := by decide
    have hc' : c.toNat ≤ 90 := hcapital.2
    have hone := hall ⟨c.toNat, by omega⟩ hc
    rw [Char.ofNat_toNat] at hone
    exact .inr hone
  · split at hc
    · cases hc
    · split at hc
      · cases hc
      · split at hc
        · cases hc
        · exact .inl hc

theorem decimal_onesOf {qty : Text}
    (hqty : Matches ascii (atLeast (.one (.either (.letters 'l' 'l') .digit)) 1) qty) :
    onesOf qty ≠ [] ∧ ∀ c ∈ onesOf qty, asciiDecimal c = true := by
  obtain ⟨hsome, hqty⟩ := all_of_matches_some hqty
  refine ⟨fun hnil => hsome (List.map_eq_nil_iff.mp hnil), ?_⟩
  intro c hc
  obtain ⟨d, hd, rfl⟩ := List.mem_map.mp hc
  split
  · rfl
  · rename_i hother
    refine (Bool.or_eq_true_iff.mp (hqty d hd)).resolve_left ?_
    intro hletter
    obtain ⟨hle, hge⟩ := of_decide_eq_true hletter
    exact hother (eq_of_foldCase_eq_l (Char.le_antisymm hge hle))

end CoreMesh.Ingestion
