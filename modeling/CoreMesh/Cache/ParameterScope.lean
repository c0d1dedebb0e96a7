import CoreMesh.Cache.Replay

/-!
# Parameters and the scope

When the hash of the parameters, and with it the scope of the cache, tells the parameters of two
requests apart.
-/

namespace CoreMesh.Cache

/-! ### Separation -/

/-- Different parameters have different hashes, and no lookup for one request finds what is stored in
the scope of the other; the same parameters have one hash. -/
def Separates (r r' : Request) (c c' : CacheRequest) : Prop :=
  (¬ SameParameters r r' →
    (c.paramsHash ≠ c'.paramsHash ∧ c.scopeHash ≠ c'.scopeHash) ∧
      ∀ redis exactKey now hit, Lookup redis exactKey c'.scopeHash now hit →
        ∀ fields, redis hit.key = some fields → fields.field "scope_hash" ≠ c.scopeHash) ∧
  (SameParameters r r' → c.paramsHash = c'.paramsHash)

theorem scope_of_lookup {redis : Redis} {exactKey scopeHash : String} {now : Int} {hit : LookupResult}
    (hlookup : Lookup redis exactKey scopeHash now hit) {fields : Hash}
    (hfields : redis hit.key = some fields) : fields.field "scope_hash" = scopeHash := by
  obtain ⟨found, hfound, hcurrent, -⟩ := lookup_spec hlookup
  obtain rfl : found = fields := Option.some.inj (hfound.symm.trans hfields)
  simp only [isCurrent, Bool.and_eq_true, beq_iff_eq] at hcurrent
  exact hcurrent.1

/-- The scopes of two eligible requests separate their parameters exactly if decoding does. -/
theorem separates_iff (sha : Sha256) (floats : FloatCodec) (r r' : Request) (c c' : CacheRequest)
    (hextract : extractRequest sha floats r = some c)
    (hextract' : extractRequest sha floats r' = some c') :
    Separates r r' c c' ↔ (SameParameters r r' ↔ SameDecoded floats r r') := by
  have hscope : c.scopeHash = c'.scopeHash → SameDecoded floats r r' := fun heq =>
    normalized_eq_iff.mp ((scopeHash_eq_iff hextract hextract').mp heq).params
  have hparams : c.paramsHash = c'.paramsHash ↔ SameDecoded floats r r' := by
    obtain ⟨-, rfl⟩ := extractRequest_eq_some_iff.mp hextract
    obtain ⟨-, rfl⟩ := extractRequest_eq_some_iff.mp hextract'
    exact paramsHash_eq_iff.trans normalized_eq_iff
  constructor
  · rintro ⟨hdifferent, hsame⟩
    constructor
    · exact fun h => hparams.mp (hsame h)
    · intro hdecoded
      by_contra hne
      exact (hdifferent hne).1.1 (hparams.mpr hdecoded)
  · intro hiff
    refine ⟨fun hne => ⟨⟨?_, ?_⟩, ?_⟩, fun hsame => hparams.mpr (hiff.mp hsame)⟩
    · exact fun heq => hne (hiff.mpr (hparams.mp heq))
    · exact fun heq => hne (hiff.mpr (hscope heq))
    · intro redis exactKey now hit hlookup fields hfields heq
      exact hne (hiff.mpr (hscope (heq.symm.trans (scope_of_lookup hlookup hfields))))

theorem sameParameters_asked : SameParameters asked reasked := by
  have hdecimals : Json.decimal "1.0" = ⟨false, 10, -1⟩ ∧ Json.decimal "1" = ⟨false, 1, 0⟩ ∧
      Json.decimal "0.50" = ⟨false, 50, -2⟩ ∧ Json.decimal "0.5" = ⟨false, 5, -1⟩ := by decide +kernel
  obtain ⟨hone, hone', hhalf, hhalf'⟩ := hdecimals
  have hlimits : "limits" < "name" := by decide +kernel
  have hmax : "max" < "min" := by decide +kernel
  have htools : exactValue askedTools = exactValue reaskedTools := by
    simp [askedTools, reaskedTools, exactValue, exactItems, exactMembers, insertMissing, numberValue,
      hone, hone', hhalf, hhalf', hlimits, hmax, lt_asymm hlimits, lt_asymm hmax]
    norm_num
  intro key hkey
  obtain ⟨hasked, hreasked⟩ := lookup_asked hkey
  rw [hasked, hreasked]
  split
  · rfl
  · split
    · exact congrArg some htools
    · rfl

/-- Parameters in another order and another spelling are one set, and the hash is one. -/
theorem separates_iff_reordered :
    ∃ c c', extractRequest hexSha shortestFloats asked = some c ∧
      extractRequest hexSha shortestFloats reasked = some c' ∧
      Separates asked reasked c c' ∧ SameParameters asked reasked ∧ SameDecoded shortestFloats asked reasked ∧
      c.paramsHash = c'.paramsHash := by
  have heligible : (extractRequest hexSha shortestFloats asked).isSome := by decide +kernel
  have heligible' : (extractRequest hexSha shortestFloats reasked).isSome := by decide +kernel
  obtain ⟨c, hc⟩ := Option.isSome_iff_exists.mp heligible
  obtain ⟨c', hc'⟩ := Option.isSome_iff_exists.mp heligible'
  have hseparates := (separates_iff hexSha shortestFloats asked reasked c c' hc hc').mpr
    ⟨fun _ => sameDecoded_asked, fun _ => sameParameters_asked⟩
  exact ⟨c, c', hc, hc', hseparates, sameParameters_asked, sameDecoded_asked, hseparates.2 sameParameters_asked⟩

/-- A parameter out of range, and none. -/
theorem not_separates_of_overflow :
    ∃ c c', extractRequest hexSha literalFloats seeded = some c ∧
      extractRequest hexSha literalFloats unseeded = some c' ∧
      (seeded.fields.lookup "seed").isSome ∧ unseeded.fields.lookup "seed" = none ∧
      c.paramsHash = c'.paramsHash ∧ ¬ Separates seeded unseeded c c' := by
  have heligible : (extractRequest hexSha literalFloats seeded).isSome := by decide +kernel
  have heligible' : (extractRequest hexSha literalFloats unseeded).isSome := by decide +kernel
  obtain ⟨c, hc⟩ := Option.isSome_iff_exists.mp heligible
  obtain ⟨c', hc'⟩ := Option.isSome_iff_exists.mp heligible'
  have hseed : (seeded.fields.lookup "seed").isSome := by decide +kernel
  have hnone : unseeded.fields.lookup "seed" = none := by rfl
  have hhash : c.paramsHash = c'.paramsHash := by
    have hempty : normalized literalFloats excludedFields seeded.fields =
        normalized literalFloats excludedFields unseeded.fields :=
      eq_of_isEmpty (by decide +kernel) (by decide +kernel)
    obtain ⟨-, rfl⟩ := extractRequest_eq_some_iff.mp hc
    obtain ⟨-, rfl⟩ := extractRequest_eq_some_iff.mp hc'
    simpa only [cacheRequestOf, paramsHash_eq_iff] using hempty
  refine ⟨c, c', hc, hc', hseed, hnone, hhash, fun hseparates => ?_⟩
  refine (hseparates.1 fun hsame => ?_).1.1 hhash
  have hboth := hsame "seed" (by decide)
  rw [hnone] at hboth
  rw [Option.map_eq_none_iff.mp hboth] at hseed
  cases hseed

end CoreMesh.Cache
