import Mathlib.Algebra.BigOperators.Fin
import Mathlib.Algebra.Order.Ring.Rat
import Mathlib.Data.Finset.Sort
import Mathlib.Data.Matrix.Mul
import Mathlib.Data.Prod.Lex
import Mathlib.Data.Rat.Sqrt
import Mathlib.Data.String.Basic
import CoreMesh.Lib.Binary64
import CoreMesh.Lib.Except
import CoreMesh.Lib.Selection
import CoreMesh.LogMiner.Eligibility

/-!
# Candidate seeds

`_build_candidate_seeds`: the records of a feature scope, clustered, become one seed for each cluster and
one for each of the worst outliers. The numbers are those of an ordered field, and what numpy makes of them
is rounded in whatever way: `select_medoid` expands its distances into products, and these need not be the
distances of the vectors.
-/

namespace CoreMesh.LogMiner

open Outcome Selection PyText

/-- `normalize_prompt`, over a normalization of Unicode. -/
def normalizePrompt (nfkc : String → String) (prompt : String) : String :=
  " ".intercalate ((words (nfkc prompt).toList).map String.ofList)

variable {K : Type}

structure ClusterAssignments (K : Type) where
  labels : List ℤ
  /-- None where a score is not finite. -/
  outlierScores : List (Option K)

structure CandidateSeed (K : Type) where
  representative : InteractionRecord
  members : List InteractionRecord
  clusterExamples : List String
  clusterLabel : Option ℤ
  isNoise : Bool
  outlierScore : Option K

/-- The records of a feature scope, each with its vector. -/
structure Feature (K : Type) where
  records : List InteractionRecord
  width : ℕ
  vectors : Fin records.length → Fin width → K

namespace Feature

/-- The place of a record. -/
abbrev Index (feature : Feature K) := Fin feature.records.length

def record (feature : Feature K) (i : feature.Index) : InteractionRecord := feature.records.get i

end Feature

/-- What numpy computes with arrays of float64s, as long as it does not overflow. -/
structure NumpyArrays (K : Type) where
  add : K → K → K
  sub : K → K → K
  mul : K → K → K
  sqrt : K → K
  /-- The sum of a row. -/
  sum : List K → K
  /-- A number of `np.einsum("ij,ij->i", vectors, vectors)`. -/
  einsum : {width : ℕ} → List (Fin width → K) → ℕ → K
  /-- A number of `rows @ vectors.T`. Each can depend on all of both matrices. -/
  matmul : {width : ℕ} → List (Fin width → K) → List (Fin width → K) → ℕ → ℕ → K
  /-- `np.linalg.norm` of a vector. -/
  norm : {width : ℕ} → (Fin width → K) → K

variable [Field K] [LinearOrder K]

def finiteOutlierScore (score : Option K) : K := score.getD 0

/-! ### Distances -/

section Distances

variable (numpy : NumpyArrays K) {width : ℕ}

-- By name, so that the distance does not hold a proof of its own of this.
local instance two_atLeastTwo : Nat.AtLeastTwo 2 := ⟨Nat.le_refl 2⟩

/-- The distance of a row of a block from a vector, as `select_medoid` expands it. -/
def expandedDistance (vectors : List (Fin width → K)) (start : ℕ) (rows : List (Fin width → K)) (i j : ℕ) : K :=
  let squaredNorms := numpy.add (numpy.einsum vectors (start + i)) (numpy.einsum vectors j)
  numpy.sqrt (max (numpy.sub squaredNorms (numpy.mul 2 (numpy.matmul rows vectors i j))) 0)

def rowSum (vectors : List (Fin width → K)) (start : ℕ) (rows : List (Fin width → K)) (i : ℕ) : K :=
  numpy.sum ((List.range vectors.length).map (expandedDistance numpy vectors start rows i))

/-- The sum of the distances from each vector, in blocks of rows. -/
def distanceSums (vectors : List (Fin width → K)) : List K :=
  inBlocks 256 (fun start rows => (List.range rows.length).map (rowSum numpy vectors start rows)) vectors

def selectMedoid (vectors : List (Fin width → K)) : Except Raised ℕ :=
  if vectors = [] then .error .valueError else .ok (argmin (distanceSums numpy vectors) 0)

end Distances

/-! ### Seeds -/

section Seeds

variable (numpy : NumpyArrays K) (nfkc : String → String) (feature : Feature K)

/-- The normalized prompt of a record. -/
def promptText (i : feature.Index) : String := normalizePrompt nfkc (feature.record i).redactedPrompt

def distanceFrom (representative i : feature.Index) : K :=
  numpy.norm fun column => numpy.sub (feature.vectors i column) (feature.vectors representative column)

/-- The key that examples are sorted by. -/
def exampleKey (representative i : feature.Index) : K ×ₗ ℤ ×ₗ String :=
  toLex (distanceFrom numpy feature representative i,
    toLex ((feature.record i).createdAt, (feature.record i).traceId))

def nearestDistinctExamples (representative : feature.Index) (members : List feature.Index)
    (maximum : ℤ) : List String :=
  if maximum ≤ 0 then []
  else
    let ordered := sortedBy (exampleKey numpy feature representative)
      (members.filter (· ≠ representative))
    (firstDistinct (promptText nfkc feature) maximum.toNat [promptText nfkc feature representative]
      ordered).map fun i => (feature.record i).redactedPrompt

variable (label : feature.Index → ℤ) (score : feature.Index → Option K)

/-- The labels of the clusters in order. -/
def clusterLabels : List ℤ := ((Finset.univ.image label).filter (0 ≤ ·)).sort (· ≤ ·)

def memberIndices (cluster : ℤ) : List feature.Index :=
  (List.finRange feature.records.length).filter fun i => label i = cluster

def clusterSeed (maxClusterExamples cluster : ℤ) : Except Raised (CandidateSeed K) := do
  let members := memberIndices feature label cluster
  let localMedoid ← selectMedoid numpy (members.map feature.vectors)
  match members[localMedoid]? with
  | none => throw .indexError
  | some representative =>
      return {
        representative := feature.record representative
        members := members.map feature.record
        clusterExamples :=
          nearestDistinctExamples numpy nfkc feature representative members maxClusterExamples
        clusterLabel := some cluster
        isNoise := false
        outlierScore := some (finiteOutlierScore (score representative)) }

/-- The key that noise is sorted by, the higher scores first. -/
def noiseKey (i : feature.Index) : K ×ₗ ℤ ×ₗ String :=
  toLex (-finiteOutlierScore (score i),
    toLex ((feature.record i).createdAt, (feature.record i).traceId))

def noiseSeed (i : feature.Index) : CandidateSeed K where
  representative := feature.record i
  members := [feature.record i]
  clusterExamples := []
  clusterLabel := none
  isNoise := true
  outlierScore := some (finiteOutlierScore (score i))

def noiseSeeds (maxNoise : ℤ) : List (CandidateSeed K) :=
  if 0 < maxNoise then
    ((sortedBy (noiseKey feature score) (memberIndices feature label (-1))).take maxNoise.toNat).map
      (noiseSeed feature score)
  else []

def buildCandidateSeeds (assignments : ClusterAssignments K) (maxNoise maxClusterExamples : ℤ) :
    Except Raised (List (CandidateSeed K)) :=
  if h : assignments.labels.length = feature.records.length ∧
      assignments.outlierScores.length = feature.records.length then do
    let label (i : feature.Index) := assignments.labels.get (i.cast h.1.symm)
    let score (i : feature.Index) := assignments.outlierScores.get (i.cast h.2.symm)
    let clusters ← (clusterLabels feature label).mapM
      (clusterSeed numpy nfkc feature label score maxClusterExamples)
    return clusters ++ noiseSeeds feature label score maxNoise
  else .error .valueError

end Seeds

/-! ### Medoids -/

section Medoids

variable (numpy : NumpyArrays K)

theorem distanceSums_eq {width : ℕ} (vectors : List (Fin width → K)) :
    distanceSums numpy vectors = (List.range vectors.length).map fun i =>
      rowSum numpy vectors (256 * (i / 256)) ((vectors.drop (256 * (i / 256))).take 256) (i % 256) :=
  inBlocks_rows (by decide) _ _

variable (feature : Feature K) (label : feature.Index → ℤ)

/-- The sum of the distances from a record to the members of a cluster as `select_medoid` computes it. -/
def distanceSum (cluster : ℤ) (i : feature.Index) : K :=
  let members := memberIndices feature label cluster
  (distanceSums numpy (members.map feature.vectors)).getD (members.idxOf i) 0

variable {feature label}

/-- The local place that `select_medoid` gives is that of a member with the least sum. -/
theorem selectMedoid_spec {cluster : ℤ} (hne : memberIndices feature label cluster ≠ []) :
    ∃ place representative,
      selectMedoid numpy ((memberIndices feature label cluster).map feature.vectors) = .ok place ∧
      (memberIndices feature label cluster)[place]? = some representative ∧
      ∀ other ∈ memberIndices feature label cluster,
        distanceSum numpy feature label cluster representative ≤
          distanceSum numpy feature label cluster other := by
  have hnodup : (memberIndices feature label cluster).Nodup := (List.nodup_finRange _).filter _
  unfold distanceSum
  generalize memberIndices feature label cluster = members at hne hnodup ⊢
  have hlength : (distanceSums numpy (members.map feature.vectors)).length = members.length := by
    rw [distanceSums_eq, List.length_map, List.length_range, List.length_map]
  have hsums : distanceSums numpy (members.map feature.vectors) ≠ [] := by
    intro hnil
    rw [hnil] at hlength
    exact hne (List.length_eq_zero_iff.mp hlength.symm)
  have hlt := argmin_lt_length hsums 0
  rw [hlength] at hlt
  refine ⟨_, _, if_neg (mt List.map_eq_nil_iff.mp hne), List.getElem?_eq_getElem hlt, ?_⟩
  intro other hother
  have hplace : members.idxOf other < members.length := List.idxOf_lt_length_iff.mpr hother
  dsimp only
  rw [hnodup.idxOf_getElem]
  exact argmin_le 0 (hlength.symm ▸ hplace)

end Medoids

/-! ### Distances without rounding -/

section Exact

variable (numpy : NumpyArrays K) (root : K → K) (feature : Feature K) (label : feature.Index → ℤ)

/-- The Euclidean distance of two vectors, over a square root of any kind. -/
def distance {width : ℕ} (v w : Fin width → K) : K := root (dotProduct (v - w) (v - w))

/-- The sum of the distances from a record to the members of a cluster. -/
def totalDistance (cluster : ℤ) (i : feature.Index) : K :=
  ((memberIndices feature label cluster).map fun j =>
    distance root (feature.vectors i) (feature.vectors j)).sum

/-- How far the sum that is computed is from the sum of the distances. -/
def roundingError (cluster : ℤ) (i : feature.Index) : K :=
  |distanceSum numpy feature label cluster i - totalDistance root feature label cluster i|

/-- Arithmetic without rounding. -/
def exactArrays : NumpyArrays K where
  add x y := x + y
  sub x y := x - y
  mul x y := x * y
  sqrt := root
  sum := List.sum
  einsum vectors i := (vectors[i]?.map fun v => dotProduct v v).getD 0
  matmul rows vectors i j := (rows[i]?.bind fun v => vectors[j]?.map fun w => dotProduct v w).getD 0
  norm v := root (dotProduct v v)

section

variable [IsStrictOrderedRing K] {feature label}

/-- The expanded distance is the distance. -/
theorem expandedDistance_exact {width : ℕ} {vectors : List (Fin width → K)} {start : ℕ}
    {rows : List (Fin width → K)} {i j : ℕ} {v w : Fin width → K} (hrow : rows[i]? = some v)
    (hv : vectors[start + i]? = some v) (hw : vectors[j]? = some w) :
    expandedDistance (exactArrays root) vectors start rows i j = distance root v w := by
  have hexpand : dotProduct v v + dotProduct w w - 2 * dotProduct v w = dotProduct (v - w) (v - w) := by
    rw [sub_dotProduct, dotProduct_sub, dotProduct_sub, dotProduct_comm w v]
    ring
  have hnonneg : 0 ≤ dotProduct (v - w) (v - w) :=
    Finset.sum_nonneg fun i _ => mul_self_nonneg _
  simp only [expandedDistance, exactArrays, hrow, hv, hw, Option.map_some, Option.bind_some,
    Option.getD_some]
  rw [hexpand, max_eq_left hnonneg, distance]

/-- Without rounding the sums are those of the distances. -/
theorem distanceSum_exact {cluster : ℤ} {i : feature.Index} (hi : i ∈ memberIndices feature label cluster) :
    distanceSum (exactArrays root) feature label cluster i = totalDistance root feature label cluster i := by
  unfold distanceSum totalDistance
  generalize memberIndices feature label cluster = members at hi ⊢
  have hplace : members.idxOf i < members.length := List.idxOf_lt_length_iff.mpr hi
  generalize hp : members.idxOf i = place at hplace ⊢
  have hmember : (members.map feature.vectors)[place]? = some (feature.vectors i) := by
    rw [List.getElem?_map, List.getElem?_eq_getElem hplace, Option.map_some]
    subst hp
    rw [List.getElem_idxOf]
  have hstart : 256 * (place / 256) + place % 256 = place := Nat.div_add_mod place 256
  have hrow : (((members.map feature.vectors).drop (256 * (place / 256))).take 256)[place % 256]? =
      some (feature.vectors i) := by
    rw [List.getElem?_take_of_lt (Nat.mod_lt _ (by decide)), List.getElem?_drop, hstart, hmember]
  have hsum : rowSum (exactArrays root) (members.map feature.vectors) (256 * (place / 256))
      (((members.map feature.vectors).drop (256 * (place / 256))).take 256) (place % 256) =
        (members.map fun j => distance root (feature.vectors i) (feature.vectors j)).sum := by
    have hdistances : (List.range (members.map feature.vectors).length).map
        (expandedDistance (exactArrays root) (members.map feature.vectors) (256 * (place / 256))
          (((members.map feature.vectors).drop (256 * (place / 256))).take 256) (place % 256)) =
        members.map fun j => distance root (feature.vectors i) (feature.vectors j) := by
      apply List.ext_getElem
      · simp
      · intro j hj hj'
        rw [List.length_map] at hj'
        rw [List.getElem_map, List.getElem_range, List.getElem_map]
        exact expandedDistance_exact root hrow (by rw [hstart, hmember])
          (by rw [List.getElem?_map, List.getElem?_eq_getElem hj', Option.map_some])
    rw [rowSum, hdistances]
    rfl
  dsimp only
  rw [hp, distanceSums_eq, List.getD_eq_getElem?_getD, List.getElem?_map, List.getElem?_range (by simpa using hplace),
    Option.map_some, Option.getD_some, hsum]

theorem roundingError_exact {cluster : ℤ} {i : feature.Index}
    (hi : i ∈ memberIndices feature label cluster) :
    roundingError (exactArrays root) root feature label cluster i = 0 := by
  rw [roundingError, distanceSum_exact root hi, sub_self, abs_zero]

/-- A least sum is least among the sums of the distances as well, but for its error and the other's. -/
theorem totalDistance_le {cluster : ℤ} {i other : feature.Index}
    (hle : distanceSum numpy feature label cluster i ≤ distanceSum numpy feature label cluster other) :
    totalDistance root feature label cluster i ≤ totalDistance root feature label cluster other +
      (roundingError numpy root feature label cluster i + roundingError numpy root feature label cluster other) := by
  have hi := neg_abs_le
    (distanceSum numpy feature label cluster i - totalDistance root feature label cluster i)
  have hother := le_abs_self
    (distanceSum numpy feature label cluster other - totalDistance root feature label cluster other)
  unfold roundingError
  linarith

theorem totalDistance_le_of_exact {cluster : ℤ} {i other : feature.Index}
    (hi : i ∈ memberIndices feature label cluster) (hother : other ∈ memberIndices feature label cluster)
    (hle : distanceSum numpy feature label cluster i ≤ distanceSum numpy feature label cluster other)
    (hexact : numpy = exactArrays root) :
    totalDistance root feature label cluster i ≤ totalDistance root feature label cluster other := by
  subst hexact
  have herrors := totalDistance_le _ root hle
  rwa [roundingError_exact root hi, roundingError_exact root hother, add_zero, add_zero] at herrors

end

end Exact

/-! ### What the seeds are -/

section Partition

variable (numpy : NumpyArrays K) (root : K → K) (nfkc : String → String) (feature : Feature K)

/-- The places of a seed's examples, the nearest first. What is left out has a text that is there
already and nearer, or all the room was taken by nearer ones. -/
structure NearestExamples (representative : feature.Index) (members : List feature.Index)
    (maximum : ℤ) (chosen : List feature.Index) : Prop where
  others : ∀ i ∈ chosen, i ∈ members ∧ i ≠ representative
  distinct : ((representative :: chosen).map (promptText nfkc feature)).Nodup
  length_le : chosen.length ≤ maximum.toNat
  nearestFirst : chosen.Pairwise fun i j =>
    distanceFrom numpy feature representative i ≤ distanceFrom numpy feature representative j
  nearest : ∀ i ∈ members,
    promptText nfkc feature i = promptText nfkc feature representative ∨
      (∃ first ∈ chosen, promptText nfkc feature first = promptText nfkc feature i ∧
        distanceFrom numpy feature representative first ≤
          distanceFrom numpy feature representative i) ∨
      chosen.length = maximum.toNat ∧ ∀ first ∈ chosen,
        distanceFrom numpy feature representative first ≤ distanceFrom numpy feature representative i

variable (label : feature.Index → ℤ) (score : feature.Index → Option K)

/-- The seed of a cluster: all its records, and one of them with the least sum of distances as it is computed,
which is then the least but for rounding, and the least where nothing is rounded. -/
structure IsClusterSeed (maxClusterExamples cluster : ℤ) (seed : CandidateSeed K) : Prop where
  clusterLabel : seed.clusterLabel = some cluster
  isNoise : seed.isNoise = false
  members : seed.members = (memberIndices feature label cluster).map feature.record
  representative : ∃ i ∈ memberIndices feature label cluster,
    seed.representative = feature.record i ∧
      seed.outlierScore = some (finiteOutlierScore (score i)) ∧
      (∀ other ∈ memberIndices feature label cluster,
        distanceSum numpy feature label cluster i ≤ distanceSum numpy feature label cluster other ∧
        totalDistance root feature label cluster i ≤ totalDistance root feature label cluster other +
          (roundingError numpy root feature label cluster i +
            roundingError numpy root feature label cluster other) ∧
        (numpy = exactArrays root →
          totalDistance root feature label cluster i ≤ totalDistance root feature label cluster other)) ∧
      ∃ chosen, seed.clusterExamples = chosen.map (fun j => (feature.record j).redactedPrompt) ∧
        NearestExamples numpy nfkc feature i (memberIndices feature label cluster) maxClusterExamples
          chosen

/-- The order of noise: by falling score, then time, then trace. -/
def NoiseBefore (i j : feature.Index) : Prop :=
  finiteOutlierScore (score j) < finiteOutlierScore (score i) ∨
    finiteOutlierScore (score i) = finiteOutlierScore (score j) ∧
      ((feature.record i).createdAt < (feature.record j).createdAt ∨
        (feature.record i).createdAt = (feature.record j).createdAt ∧
          (feature.record i).traceId ≤ (feature.record j).traceId)

/-- The records with a label are parted by the labels, one seed for each, and the first outliers have
one each. -/
structure Partitions (maxNoise maxClusterExamples : ℤ) (seeds : List (CandidateSeed K)) : Prop where
  labels_nodup : (clusterLabels feature label).Nodup
  mem_labels : ∀ cluster, cluster ∈ clusterLabels feature label ↔ 0 ≤ cluster ∧ ∃ i, label i = cluster
  parted : ((clusterLabels feature label).flatMap (memberIndices feature label)).Perm
    ((List.finRange feature.records.length).filter fun i => 0 ≤ label i)
  seeds : ∃ (clusters : List (CandidateSeed K)) (order : List feature.Index),
    seeds = clusters ++ (order.take maxNoise.toNat).map (noiseSeed feature score) ∧
    List.Forall₂ (IsClusterSeed numpy root nfkc feature label score maxClusterExamples)
      (clusterLabels feature label) clusters ∧
    order.Perm ((List.finRange feature.records.length).filter fun i => label i = -1) ∧
    order.Pairwise (NoiseBefore feature score)

variable {numpy root nfkc feature label score}

omit [Field K] [LinearOrder K] in
theorem mem_memberIndices {cluster : ℤ} {i : feature.Index} :
    i ∈ memberIndices feature label cluster ↔ label i = cluster := by
  simp [memberIndices]

omit [Field K] [LinearOrder K] in
theorem mem_clusterLabels {cluster : ℤ} :
    cluster ∈ clusterLabels feature label ↔ 0 ≤ cluster ∧ ∃ i, label i = cluster := by
  simp [clusterLabels, and_comm]

omit [Field K] in
theorem nearestExamples_spec (representative : feature.Index) (members : List feature.Index)
    (maximum : ℤ) : ∃ chosen,
      nearestDistinctExamples numpy nfkc feature representative members maximum =
        chosen.map (fun j => (feature.record j).redactedPrompt) ∧
      NearestExamples numpy nfkc feature representative members maximum chosen := by
  have hkey {i j : feature.Index}
      (hle : exampleKey numpy feature representative i ≤ exampleKey numpy feature representative j) :
      distanceFrom numpy feature representative i ≤ distanceFrom numpy feature representative j := by
    obtain hlt | ⟨heq, -⟩ := Prod.Lex.toLex_le_toLex.mp hle
    · exact hlt.le
    · exact heq.le
  unfold nearestDistinctExamples
  by_cases hmaximum : maximum ≤ 0
  · rw [if_pos hmaximum]
    have hnone : maximum.toNat = 0 := Int.toNat_of_nonpos hmaximum
    exact ⟨[], rfl, {
      others := fun i hi => absurd hi List.not_mem_nil
      distinct := List.nodup_singleton _
      length_le := Nat.zero_le _
      nearestFirst := List.Pairwise.nil
      nearest := fun i _ => .inr (.inr ⟨hnone.symm, fun first hfirst => absurd hfirst List.not_mem_nil⟩) }⟩
  · rw [if_neg hmaximum]
    generalize hordered : sortedBy (exampleKey numpy feature representative)
      (members.filter (· ≠ representative)) = ordered
    have hsorted : ordered.Pairwise fun i j =>
        exampleKey numpy feature representative i ≤ exampleKey numpy feature representative j := by
      rw [← hordered]
      exact pairwise_sortedBy _ _
    have hmem {i : feature.Index} : i ∈ ordered ↔ i ∈ members ∧ i ≠ representative := by
      rw [← hordered, mem_sortedBy, List.mem_filter, decide_eq_true_iff]
    have hsub := firstDistinct_sublist (promptText nfkc feature) maximum.toNat
      [promptText nfkc feature representative] ordered
    refine ⟨_, rfl, {
      others := fun i hi => hmem.mp (hsub.subset hi)
      distinct := ?_
      length_le := length_firstDistinct_le _ _ _ _
      nearestFirst := (hsorted.sublist hsub).imp hkey
      nearest := ?_ }⟩
    · have hnodup := nodup_firstDistinct (promptText nfkc feature)
        (List.nodup_singleton (promptText nfkc feature representative)) maximum.toNat ordered
      rw [List.map_cons]
      exact (List.perm_append_singleton _ _).nodup_iff.mp hnodup
    · intro i hi
      by_cases hself : i = representative
      · exact .inl (congrArg _ hself)
      obtain hseen | ⟨first, hfirst, hsame, hle⟩ | ⟨hfull, hall⟩ :=
        firstDistinct_complete (promptText nfkc feature)
          (fun i => le_refl (exampleKey numpy feature representative i)) hsorted
          maximum.toNat (hmem.mpr ⟨hi, hself⟩)
      · exact .inl (List.mem_singleton.mp hseen)
      · exact .inr (.inl ⟨first, hfirst, hsame, hkey hle⟩)
      · exact .inr (.inr ⟨hfull, fun first hfirst => hkey (hall first hfirst)⟩)

variable [IsStrictOrderedRing K]

theorem noiseBefore_of_key {i j : feature.Index}
    (hle : noiseKey feature score i ≤ noiseKey feature score j) : NoiseBefore feature score i j := by
  obtain hlt | ⟨heq, hle⟩ := Prod.Lex.toLex_le_toLex.mp hle
  · exact .inl (neg_lt_neg_iff.mp hlt)
  · exact .inr ⟨neg_inj.mp heq, Prod.Lex.toLex_le_toLex.mp hle⟩

omit [IsStrictOrderedRing K] in
theorem clusterSeed_eq {cluster : ℤ} {place : ℕ} {representative : feature.Index}
    (hmedoid : selectMedoid numpy ((memberIndices feature label cluster).map feature.vectors) = .ok place)
    (hplace : (memberIndices feature label cluster)[place]? = some representative) (maxClusterExamples : ℤ) :
    clusterSeed numpy nfkc feature label score maxClusterExamples cluster = .ok
      { representative := feature.record representative
        members := (memberIndices feature label cluster).map feature.record
        clusterExamples := nearestDistinctExamples numpy nfkc feature representative
          (memberIndices feature label cluster) maxClusterExamples
        clusterLabel := some cluster
        isNoise := false
        outlierScore := some (finiteOutlierScore (score representative)) } := by
  unfold clusterSeed
  simp only [hmedoid, hplace, bind, Except.bind]
  rfl

theorem clusterSeed_spec {cluster : ℤ} (hcluster : ∃ i, label i = cluster) (maxClusterExamples : ℤ) :
    ∃ seed, clusterSeed numpy nfkc feature label score maxClusterExamples cluster = .ok seed ∧
      IsClusterSeed numpy root nfkc feature label score maxClusterExamples cluster seed := by
  obtain ⟨i, hi⟩ := hcluster
  have hne : memberIndices feature label cluster ≠ [] :=
    List.ne_nil_of_mem (mem_memberIndices.mpr hi)
  obtain ⟨place, representative, hmedoid, hplace, hleast⟩ := selectMedoid_spec numpy hne
  refine ⟨_, clusterSeed_eq hmedoid hplace maxClusterExamples, ?_⟩
  exact {
    clusterLabel := rfl
    isNoise := rfl
    members := rfl
    representative := ⟨representative, List.mem_of_getElem? hplace, rfl, rfl,
      fun other hother => ⟨hleast other hother, totalDistance_le numpy root (hleast other hother),
        totalDistance_le_of_exact numpy root (List.mem_of_getElem? hplace) hother (hleast other hother)⟩,
      nearestExamples_spec _ _ _⟩ }

omit [Field K] [LinearOrder K] [IsStrictOrderedRing K] in
theorem parted (feature : Feature K) (label : feature.Index → ℤ) :
    ((clusterLabels feature label).flatMap (memberIndices feature label)).Perm
      ((List.finRange feature.records.length).filter fun i => 0 ≤ label i) := by
  apply (List.perm_ext_iff_of_nodup ?_ ((List.nodup_finRange _).filter _)).mpr
  · intro i
    rw [List.mem_flatMap, List.mem_filter, decide_eq_true_iff]
    constructor
    · intro hcluster
      obtain ⟨cluster, hcluster, hi⟩ := hcluster
      rw [mem_memberIndices.mp hi]
      exact ⟨List.mem_finRange i, (mem_clusterLabels.mp hcluster).1⟩
    · intro hi
      exact ⟨label i, mem_clusterLabels.mpr ⟨hi.2, i, rfl⟩, mem_memberIndices.mpr rfl⟩
  · rw [List.nodup_flatMap]
    refine ⟨fun cluster _ => (List.nodup_finRange _).filter _, ?_⟩
    have hnodup : (clusterLabels feature label).Nodup := Finset.sort_nodup _ _
    refine hnodup.imp fun hne i hi hi' => hne ?_
    exact (mem_memberIndices.mp hi).symm.trans (mem_memberIndices.mp hi')

omit [IsStrictOrderedRing K] in
/-- Assignments as long as the records are a label and a score for each of them. -/
theorem buildCandidateSeeds_of_aligned {assignments : ClusterAssignments K} (label : feature.Index → ℤ)
    (score : feature.Index → Option K) (hlabels : assignments.labels = List.ofFn label)
    (hscores : assignments.outlierScores = List.ofFn score) {maxNoise maxClusterExamples : ℤ} :
    buildCandidateSeeds numpy nfkc feature assignments maxNoise maxClusterExamples = do
      let clusters ← (clusterLabels feature label).mapM
        (clusterSeed numpy nfkc feature label score maxClusterExamples)
      return clusters ++ noiseSeeds feature label score maxNoise := by
  obtain ⟨labels, scores⟩ := assignments
  dsimp only at hlabels hscores
  subst hlabels hscores
  rw [buildCandidateSeeds, dif_pos ⟨List.length_ofFn, List.length_ofFn⟩]
  simp only [List.get_ofFn, Fin.cast_cast, Fin.cast_eq_self]

/-- The seeds part the clustered records, and the first outliers have one each. -/
theorem buildCandidateSeeds_partitions (numpy : NumpyArrays K) (root : K → K) (nfkc : String → String)
    (feature : Feature K) (assignments : ClusterAssignments K) (maxNoise maxClusterExamples : ℤ) :
    Ensures
      (fun raised => raised = .valueError ∧
        ¬(assignments.labels.length = feature.records.length ∧
          assignments.outlierScores.length = feature.records.length))
      (fun seeds => ∃ label score, assignments.labels = List.ofFn label ∧
        assignments.outlierScores = List.ofFn score ∧
        Partitions numpy root nfkc feature label score maxNoise maxClusterExamples seeds)
      (buildCandidateSeeds numpy nfkc feature assignments maxNoise maxClusterExamples) := by
  unfold buildCandidateSeeds
  split
  · rename_i h
    generalize hlabel : (fun i : feature.Index => assignments.labels.get (i.cast h.1.symm)) = label
    generalize hscore : (fun i : feature.Index => assignments.outlierScores.get (i.cast h.2.symm)) = score
    have hlabels : assignments.labels = List.ofFn label := by
      rw [← hlabel]
      exact List.ext_getElem (by simp [h.1]) fun i _ _ => by simp
    have hscores : assignments.outlierScores = List.ofFn score := by
      rw [← hscore]
      exact List.ext_getElem (by simp [h.2]) fun i _ _ => by simp
    obtain ⟨clusters, hmapM, hspecs⟩ := exists_mapM_forall₂
      (f := clusterSeed numpy nfkc feature label score maxClusterExamples)
      fun cluster hcluster => clusterSeed_spec (mem_clusterLabels.mp hcluster).2 maxClusterExamples
    have hnoise : noiseSeeds feature label score maxNoise =
        ((sortedBy (noiseKey feature score) (memberIndices feature label (-1))).take
          maxNoise.toNat).map (noiseSeed feature score) := by
      unfold noiseSeeds
      split
      · rfl
      · rename_i hmax
        rw [Int.toNat_of_nonpos (not_lt.mp hmax)]
        rfl
    simp only [hmapM, bind, Except.bind, pure, Except.pure, ensures_ok]
    refine ⟨label, score, hlabels, hscores, {
      labels_nodup := Finset.sort_nodup _ _
      mem_labels := fun cluster => mem_clusterLabels
      parted := parted feature label
      seeds := ⟨clusters, sortedBy (noiseKey feature score) (memberIndices feature label (-1)),
        by rw [hnoise], hspecs, sortedBy_perm _ _,
        (pairwise_sortedBy _ _).imp fun hle => noiseBefore_of_key hle⟩ }⟩
  · rename_i h
    exact ⟨rfl, h⟩

end Partition

/-! ### Points on a line -/

section Rounded

open Binary64

def roundedRoot (x : ℚ) : ℚ := nearest (rootUnits x / 2 ^ 601)

def roundedSum : List ℚ → ℚ := List.foldl (fun total x => nearest (total + x)) 0

def roundedDot {width : ℕ} (v w : Fin width → ℚ) : ℚ :=
  roundedSum (List.ofFn fun column => nearest (v column * w column))

/-- Double precision, with every sum in order. -/
def binary64Arrays : NumpyArrays ℚ where
  add x y := nearest (x + y)
  sub x y := nearest (x - y)
  mul x y := nearest (x * y)
  sqrt := roundedRoot
  sum := roundedSum
  einsum vectors i := (vectors[i]?.map fun v => roundedDot v v).getD 0
  matmul rows vectors i j := (rows[i]?.bind fun v => vectors[j]?.map fun w => roundedDot v w).getD 0
  norm v := roundedRoot (roundedDot v v)

end Rounded

def lineRecord (traceId prompt : String) : InteractionRecord where
  traceId := traceId
  featureScope := "rag"
  redactedPrompt := prompt
  promptFingerprint := none
  arbitrationScores := []
  minArbitrationScore := some 2
  arbitrationStatus := none
  negativeFeedback := false
  createdAt := 0

/-- Two clusters of records on a line and two outliers. Two records of the first cluster ask the same. -/
def lineFeature : Feature ℚ where
  records := [lineRecord "a" "What is the total?", lineRecord "b" "What is the sum?",
    lineRecord "c" "What is  the sum?", lineRecord "d" "Who are you?", lineRecord "e" "Who is it?",
    lineRecord "f" "Hello.", lineRecord "g" "Goodbye."]
  width := 1
  vectors i _ := [0, 1, 2, 9, 10, 30, 40].get i

def lineAssignments : ClusterAssignments ℚ where
  labels := [0, 0, 0, 1, 1, -1, -1]
  outlierScores := [some 0, some 0, none, some 0, some 0, some (1 / 2), some 1]

theorem buildCandidateSeeds_partitions_line :
    ∃ seeds label score,
      buildCandidateSeeds binary64Arrays id lineFeature lineAssignments 1 2 = .ok seeds ∧
        Partitions binary64Arrays Rat.sqrt id lineFeature label score 1 2 seeds := by
  have hensures := buildCandidateSeeds_partitions binary64Arrays Rat.sqrt id lineFeature lineAssignments 1 2
  cases hbuild : buildCandidateSeeds binary64Arrays id lineFeature lineAssignments 1 2 with
  | error raised =>
      rw [hbuild] at hensures
      exact absurd ⟨rfl, rfl⟩ hensures.2
  | ok seeds =>
      rw [hbuild] at hensures
      obtain ⟨label, score, -, -, hpartitions⟩ := hensures
      exact ⟨seeds, label, score, rfl, hpartitions⟩

/-! ### Points that float64s do not tell apart -/

section Close

open Binary64

/-- What is far below the last place of one is lost next to it. -/
theorem nearest_one_add {x : ℚ} (hlow : 0 ≤ x) (hhigh : x ≤ 1 / 2 ^ 54) : nearest (1 + x) = 1 := by
  have hscaled : (1 + x) / 2 ^ (-52 : ℤ) = 2 ^ 52 + x * 2 ^ 52 := by
    rw [zpow_neg]
    field_simp
  have hquarter : x * 2 ^ 52 ≤ 1 / 4 := by
    norm_num at hhigh ⊢
    linarith
  have hunits : Rounding.halfEven ((2 : ℚ) ^ 52 + x * 2 ^ 52) = 2 ^ 52 := by
    have hpos : 0 ≤ x * 2 ^ 52 := mul_nonneg hlow (by positivity)
    apply Rounding.halfEven_eq <;> push_cast <;> linarith
  rw [nearest_eq (e := -52) (by norm_num) (by norm_num; linarith) (by norm_num at hhigh ⊢; linarith), hscaled,
    hunits]
  norm_num

/-- On the line through one along the second axis, and next to one. -/
structure NearOne (v : Fin 2 → ℚ) : Prop where
  first : v 0 = 1
  nonneg : 0 ≤ v 1
  small : v 1 ≤ 1 / 2 ^ 27

theorem roundedDot_of_nearOne {v w : Fin 2 → ℚ} (hv : NearOne v) (hw : NearOne w) : roundedDot v w = 1 := by
  have hone : nearest 1 = 1 := by simpa using nearest_one_add le_rfl (by positivity)
  have hsmall : v 1 * w 1 ≤ 1 / 2 ^ 54 :=
    calc
      v 1 * w 1 ≤ 1 / 2 ^ 27 * (1 / 2 ^ 27) := mul_le_mul hv.small hw.small hw.nonneg (by positivity)
      _ = 1 / 2 ^ 54 := by norm_num
  have hlast : nearest (1 / 2 ^ 54) = 1 / 2 ^ 54 :=
    nearest_of_representable ⟨1, -54, by norm_num, by norm_num, by norm_num, by norm_num⟩
  have hproduct := nearest_mono (mul_nonneg hv.nonneg hw.nonneg) hsmall
  rw [hlast] at hproduct
  simp only [roundedDot, roundedSum, List.ofFn_succ, List.ofFn_zero, List.foldl_cons, List.foldl_nil,
    Fin.succ_zero_eq_one, hv.first, hw.first, mul_one, zero_add, hone]
  exact nearest_one_add (nearest_nonneg (mul_nonneg hv.nonneg hw.nonneg)) hproduct

/-- Each distance is computed to be zero. -/
theorem distanceSums_of_nearOne {vectors : List (Fin 2 → ℚ)} (hvectors : ∀ v ∈ vectors, NearOne v) :
    distanceSums binary64Arrays vectors = List.replicate vectors.length 0 := by
  have hzero : nearest 0 = 0 := nearest_of_representable representable_zero
  have htwo : nearest 2 = 2 := by simpa using nearest_intCast (n := 2) (by norm_num)
  have hroot : roundedRoot 0 = 0 := by
    have hunits : rootUnits 0 = 0 := by simp [rootUnits]
    rw [roundedRoot, hunits, Nat.cast_zero, zero_div, hzero]
  have hnone (count : ℕ) : roundedSum (List.replicate count 0) = 0 := by
    induction count with
    | zero => rfl
    | succ count ih => rwa [roundedSum, List.replicate_succ, List.foldl_cons, add_zero, hzero]
  have hnear {i : ℕ} (hi : i < vectors.length) : NearOne vectors[i] := hvectors _ (List.getElem_mem hi)
  rw [distanceSums_eq, List.eq_replicate_iff]
  refine ⟨by simp, fun total htotal => ?_⟩
  obtain ⟨i, hi, rfl⟩ := List.mem_map.mp htotal
  rw [List.mem_range] at hi
  have hrow : ((vectors.drop (256 * (i / 256))).take 256)[i % 256]? = some vectors[i] := by
    rw [List.getElem?_take_of_lt (Nat.mod_lt _ (by decide)), List.getElem?_drop, Nat.div_add_mod,
      List.getElem?_eq_getElem hi]
  have hdistances : (List.range vectors.length).map
      (expandedDistance binary64Arrays vectors (256 * (i / 256))
        ((vectors.drop (256 * (i / 256))).take 256) (i % 256)) = List.replicate vectors.length 0 := by
    rw [List.eq_replicate_iff]
    refine ⟨by simp, fun distance hdistance => ?_⟩
    obtain ⟨j, hj, rfl⟩ := List.mem_map.mp hdistance
    rw [List.mem_range] at hj
    simp only [expandedDistance, binary64Arrays, hrow, Nat.div_add_mod, List.getElem?_eq_getElem hi,
      List.getElem?_eq_getElem hj, Option.map_some, Option.bind_some, Option.getD_some,
      roundedDot_of_nearOne (hnear hi) (hnear hi), roundedDot_of_nearOne (hnear hj) (hnear hj),
      roundedDot_of_nearOne (hnear hi) (hnear hj)]
    norm_num [htwo, hzero, hroot]
  rw [rowSum, hdistances]
  exact hnone _

/-- Three records on a line, of which the second is in the middle. -/
def closeFeature : Feature ℚ where
  records := [lineRecord "a" "What is the total?", lineRecord "b" "What is the sum?",
    lineRecord "c" "What is the amount?"]
  width := 2
  vectors i column := if column = 0 then 1 else i / 2 ^ 30

def closeAssignments : ClusterAssignments ℚ where
  labels := [0, 0, 0]
  outlierScores := [none, none, none]

theorem distance_closeFeature (i j : closeFeature.Index) :
    distance Rat.sqrt (closeFeature.vectors i) (closeFeature.vectors j) = |(i : ℚ) - j| / 2 ^ 30 := by
  have hsquare : dotProduct (closeFeature.vectors i - closeFeature.vectors j)
      (closeFeature.vectors i - closeFeature.vectors j) = ((i : ℚ) - j) / 2 ^ 30 * (((i : ℚ) - j) / 2 ^ 30) := by
    refine (Fin.sum_univ_two _).trans ?_
    show ((1 : ℚ) - 1) * (1 - 1) + (i / 2 ^ 30 - j / 2 ^ 30) * (i / 2 ^ 30 - j / 2 ^ 30) = _
    ring
  rw [distance, hsquare, Rat.sqrt_eq, abs_div, abs_of_pos (by positivity : (0 : ℚ) < 2 ^ 30)]

/-- The first record stands for the cluster although the second has the least sum of distances. -/
theorem not_least_of_close :
    ∃ seed, buildCandidateSeeds binary64Arrays id closeFeature closeAssignments 0 0 = .ok [seed] ∧
      seed.clusterLabel = some 0 ∧ seed.members = closeFeature.records ∧
      seed.representative = closeFeature.record ⟨0, by decide⟩ ∧
      totalDistance Rat.sqrt closeFeature (fun _ => 0) 0 ⟨1, by decide⟩ <
        totalDistance Rat.sqrt closeFeature (fun _ => 0) 0 ⟨0, by decide⟩ := by
  have hlabels : clusterLabels closeFeature (fun _ => 0) = [0] := by
    have himage : (Finset.univ.image fun _ : closeFeature.Index => (0 : ℤ)).filter (0 ≤ ·) = {0} := by decide
    rw [clusterLabels, himage, Finset.sort_singleton]
  have hmembers : memberIndices closeFeature (fun _ => 0) 0 =
      [⟨0, by decide⟩, ⟨1, by decide⟩, ⟨2, by decide⟩] := by decide
  have hnear (i : closeFeature.Index) : NearOne (closeFeature.vectors i) := by
    have hplace : (i : ℚ) ≤ 2 := by exact_mod_cast Nat.le_of_lt_succ i.2
    refine ⟨rfl, ?_, ?_⟩
    · exact div_nonneg (Nat.cast_nonneg _) (by positivity)
    · show (i : ℚ) / 2 ^ 30 ≤ _
      rw [div_le_div_iff₀ (by positivity) (by positivity)]
      linarith
  have hmedoid : selectMedoid binary64Arrays
      ((memberIndices closeFeature (fun _ => 0) 0).map closeFeature.vectors) = .ok 0 := by
    have hsums : distanceSums binary64Arrays ((memberIndices closeFeature (fun _ => 0) 0).map closeFeature.vectors) =
        List.replicate ((memberIndices closeFeature (fun _ => 0) 0).map closeFeature.vectors).length 0 :=
      distanceSums_of_nearOne fun v hv => by
        obtain ⟨i, -, rfl⟩ := List.mem_map.mp hv
        exact hnear i
    rw [selectMedoid, hsums, hmembers]
    rfl
  have hfirst : (memberIndices closeFeature (fun _ => 0) 0)[0]? = some ⟨0, by decide⟩ := by
    rw [hmembers]
    rfl
  obtain ⟨seed, hseed, hcluster, hrecords, hrepresentative⟩ :
      ∃ seed, clusterSeed binary64Arrays id closeFeature (fun _ => 0) (fun _ => none) 0 0 = .ok seed ∧
        seed.clusterLabel = some 0 ∧ seed.members = closeFeature.records ∧
        seed.representative = closeFeature.record ⟨0, by decide⟩ :=
    ⟨_, clusterSeed_eq hmedoid hfirst 0, rfl, by rw [hmembers]; rfl, rfl⟩
  refine ⟨seed, ?_, hcluster, hrecords, hrepresentative, ?_⟩
  · rw [buildCandidateSeeds_of_aligned (fun _ => 0) (fun _ => none) rfl rfl, hlabels]
    simp only [List.mapM_cons, List.mapM_nil, hseed]
    rfl
  · simp only [totalDistance, hmembers, List.map_cons, List.map_nil, List.sum_cons, List.sum_nil,
      distance_closeFeature]
    norm_num

end Close

end CoreMesh.LogMiner
