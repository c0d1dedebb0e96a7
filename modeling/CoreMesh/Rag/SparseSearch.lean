import CoreMesh.Lib.Ranking
import CoreMesh.Lib.StableSort
import CoreMesh.Rag.Retriever
import Mathlib.Algebra.Order.Field.Basic
import Mathlib.Analysis.SpecialFunctions.Log.Basic

/-!
# Sparse search

The hits of a query are the chunks of the corpus by their BM25 score, in exact arithmetic, and those with
the same score in the order of the corpus. A corpus that has grown call by call and one that has been
rebuilt from the dense store have the same chunks, in different orders.
-/

namespace CoreMesh.Rag

open OrderedDict (Distinct)

/-! ### Tokens -/

abbrev Token := List Char

def isWord (c : Char) : Bool := c.isAlphanum || c == '_'

def isSeparator (c : Char) : Bool := c == '.' || c == '-' || c == '/' || c == ':'

/-- The matches of `TOKEN_PATTERN`: words, and words that are joined by single separators. -/
def matchesFrom : Token → List Char → List Token
  | token, [] => if token = [] then [] else [token]
  | token, c :: rest =>
      if isWord c || (isSeparator c && token ≠ [] && rest.head?.any isWord) then
        matchesFrom (token ++ [c]) rest
      else (if token = [] then [] else [token]) ++ matchesFrom [] rest

def tokenize (text : String) : List Token :=
  (matchesFrom [] text.toList).flatMap fun found =>
    let token := found.map Char.toLower
    let parts := token.splitOnP isSeparator
    token :: if 1 < parts.length then parts.filter fun part => part ≠ [] && part ≠ token else []

/-! ### Scores -/

section Scores

variable {K : Type} [Field K] [LinearOrder K]

/-- `BM25Okapi`: the score of a document depends on the document, the query and the corpus, but not on the
order of the corpus. Of a corpus without any token no index can be made, and indexing fails. -/
structure Okapi (K : Type) where
  score : List (List Token) → List Token → List Token → K
  perm : ∀ corpus corpus' : List (List Token), corpus.Perm corpus' → score corpus = score corpus'

section Formulas

variable (log : K → K) (corpus : List (List Token))

def avgdl : K :=
  if corpus.length = 0 then 0 else ((corpus.map List.length).foldl (· + ·) 0 : Nat) / (corpus.length : Nat)

def documentFrequency (token : Token) : Nat := corpus.countP fun doc => doc.contains token

def idf (token : Token) : K :=
  let freq : K := documentFrequency corpus token
  if documentFrequency corpus token = 0 then 0
  else log (1 + (corpus.length - freq + 1 / 2) / (freq + 1 / 2))

/-- A score of `_SimpleBM25`, with `k1` one and a half and `b` three quarters. -/
def simpleScore (query doc : List Token) : K :=
  query.foldl (fun score token =>
    let frequency : K := doc.count token
    if doc.count token = 0 then score
    else
      let length : K := if avgdl (K := K) corpus = 0 then 1 else avgdl corpus
      let denominator := frequency + 3 / 2 * (1 - 3 / 4 + 3 / 4 * doc.length / length)
      score + idf log corpus token * frequency * (3 / 2 + 1) / denominator) 0

/-- The inverse document frequency before the negative ones are replaced. -/
def rawIdf (token : Token) : K :=
  let freq : K := documentFrequency corpus token
  log (corpus.length - freq + 1 / 2) - log (freq + 1 / 2)

def vocabulary : List Token := corpus.flatten.dedup

def averageIdf : K :=
  ((vocabulary corpus).map (rawIdf log corpus)).sum / ((vocabulary corpus).length : Nat)

/-- The inverse document frequency in the index, nothing for a token that no document has. -/
def okapiIdf (token : Token) : K :=
  if documentFrequency corpus token = 0 then 0
  else if rawIdf log corpus token < 0 then 1 / 4 * averageIdf log corpus
  else rawIdf log corpus token

/-- How much the frequency of a token in a document counts, with `k1` one and a half and `b` three
quarters. -/
def saturation (doc : List Token) (token : Token) : K :=
  let frequency : K := doc.count token
  frequency * (3 / 2 + 1) / (frequency + 3 / 2 * (1 - 3 / 4 + 3 / 4 * doc.length / avgdl corpus))

def okapiScore (query doc : List Token) : K :=
  (query.map fun token => okapiIdf log corpus token * saturation corpus doc token).sum

end Formulas

variable (okapi : Option (Okapi K)) (log : K → K)

/-- `get_scores` of the index that has been built: `BM25Okapi`, or the fallback where that is not
installed or there is no document. -/
def bm25Scores (corpus : List (List Token)) (query : List Token) : List K :=
  match okapi, corpus with
  | some okapi, _ :: _ => corpus.map (okapi.score corpus query)
  | _, _ => corpus.map (simpleScore log corpus query)

structure SearchHit (K : Type) where
  chunk : TextChunk
  score : K

/-- How many elements the slice up to a limit has. -/
def sliceLength (limit : Int) (length : Nat) : Nat := (if limit < 0 then length + limit else limit).toNat

/-- `BM25SparseIndex.search`. -/
def searchSparse (chunks : List TextChunk) (query : String) (limit : Int) : List (SearchHit K) :=
  if chunks.isEmpty then []
  else
    let corpus := chunks.map fun chunk => tokenize chunk.text
    let queryTokens := tokenize query
    let scores := bm25Scores okapi log corpus queryTokens
    let scores := if scores.any fun score => 0 < score then scores
      else corpus.map (simpleScore log corpus queryTokens)
    let ranked := scores.zipIdx.insertionSort fun a b => b.1 < a.1 ∨ (a.1 = b.1 ∧ a.2 ≤ b.2)
    ((ranked.take (sliceLength limit ranked.length)).filter fun item => 0 < item.1).filterMap
      fun item => chunks[item.2]?.map fun chunk => ⟨chunk, item.1⟩

/-! ### What a chunk scores -/

/-- The score of a document before the fallback is considered. -/
def primaryScore (corpus : List (List Token)) (query : List Token) : List Token → K :=
  match okapi, corpus with
  | some okapi, _ :: _ => okapi.score corpus query
  | _, _ => simpleScore log corpus query

/-- The score of a chunk among others. -/
def chunkScore (chunks : List TextChunk) (query : String) (chunk : TextChunk) : K :=
  let corpus := chunks.map fun chunk => tokenize chunk.text
  if corpus.any fun doc => 0 < primaryScore okapi log corpus (tokenize query) doc then
    primaryScore okapi log corpus (tokenize query) (tokenize chunk.text)
  else simpleScore log corpus (tokenize query) (tokenize chunk.text)

theorem bm25Scores_eq (corpus : List (List Token)) (query : List Token) :
    bm25Scores okapi log corpus query = corpus.map (primaryScore okapi log corpus query) := by
  cases okapi with
  | none => rfl
  | some okapi =>
      cases corpus with
      | nil => rfl
      | cons doc corpus => rfl

/-- The scores that the hits are chosen by. -/
theorem scores_eq (chunks : List TextChunk) (query : String) :
    (if (bm25Scores okapi log (chunks.map fun chunk => tokenize chunk.text) (tokenize query)).any
          fun score => 0 < score then
        bm25Scores okapi log (chunks.map fun chunk => tokenize chunk.text) (tokenize query)
      else (chunks.map fun chunk => tokenize chunk.text).map
        (simpleScore log (chunks.map fun chunk => tokenize chunk.text) (tokenize query))) =
      chunks.map (chunkScore okapi log chunks query) := by
  rw [bm25Scores_eq, List.any_map]
  by_cases hany : (chunks.map fun chunk => tokenize chunk.text).any ((fun score => decide (0 < score)) ∘
      primaryScore okapi log (chunks.map fun chunk => tokenize chunk.text) (tokenize query)) = true
  · rw [if_pos hany, List.map_map]
    exact List.map_congr_left fun chunk _ => (if_pos hany).symm
  · rw [if_neg hany, List.map_map]
    exact List.map_congr_left fun chunk _ => (if_neg hany).symm

/-- The hits of a query are the chunks that score, by their rank. -/
theorem searchSparse_eq (chunks : List TextChunk) (query : String) (limit : Int) :
    searchSparse okapi log chunks query limit =
      (((Ranking.rank (chunkScore okapi log chunks query) chunks).take
          (sliceLength limit chunks.length)).filter fun chunk =>
            0 < chunkScore okapi log chunks query chunk).map
        fun chunk => ⟨chunk, chunkScore okapi log chunks query chunk⟩ := by
  rw [searchSparse]
  by_cases hempty : chunks = []
  · subst hempty
    simp [Ranking.rank]
  · rw [if_neg (by simpa using hempty)]
    dsimp only
    rw [scores_eq]
    generalize chunkScore okapi log chunks query = score
    have hranked : ((chunks.map score).zipIdx.insertionSort fun a b =>
        b.1 < a.1 ∨ (a.1 = b.1 ∧ a.2 ≤ b.2)) =
          (chunks.zipIdx.insertionSort (Ranking.leads score)).map (Prod.map score id) := by
      rw [List.zipIdx_map]
      exact (List.map_insertionSort _ _ (Prod.map score id) chunks.zipIdx fun _ _ _ _ => Iff.rfl).symm
    have hplaces : ∀ item ∈ chunks.zipIdx.insertionSort (Ranking.leads score),
        chunks[item.2]? = some item.1 := fun item hitem =>
      List.mem_zipIdx_iff_getElem?.mp ((List.perm_insertionSort _ _).mem_iff.mp hitem)
    have hlength : (chunks.zipIdx.insertionSort (Ranking.leads score)).length = chunks.length := by
      rw [List.length_insertionSort, List.length_zipIdx]
    rw [hranked, List.length_map, hlength, Ranking.rank, ← List.map_take, ← List.map_take, List.filter_map,
      List.filter_map, List.filterMap_map, List.map_map, ← List.filterMap_eq_map]
    refine List.filterMap_congr fun item hitem => ?_
    have hmem := List.mem_of_mem_take (List.mem_filter.mp hitem).1
    simp [hplaces item hmem]

variable {log}

theorem documentFrequency_perm {corpus corpus' : List (List Token)} (hperm : corpus.Perm corpus')
    (token : Token) : documentFrequency corpus token = documentFrequency corpus' token :=
  hperm.countP_eq _

omit [LinearOrder K] in
theorem avgdl_perm {corpus corpus' : List (List Token)} (hperm : corpus.Perm corpus') :
    avgdl (K := K) corpus = avgdl corpus' := by
  have hlength : (corpus.map List.length).foldl (· + ·) 0 = (corpus'.map List.length).foldl (· + ·) 0 := by
    refine (hperm.map List.length).foldl_eq' (fun a _ b _ n => ?_) 0
    omega
  rw [avgdl, avgdl, hlength, hperm.length_eq]

theorem simpleScore_perm {corpus corpus' : List (List Token)} (hperm : corpus.Perm corpus') :
    simpleScore log corpus = simpleScore log corpus' := by
  have hidf : ∀ token, idf log corpus token = idf log corpus' token := by
    intro token
    rw [idf, idf, documentFrequency_perm hperm, hperm.length_eq]
  funext query doc
  rw [simpleScore, simpleScore]
  simp only [avgdl_perm hperm, hidf]

theorem chunkScore_perm {chunks chunks' : List TextChunk} (hperm : chunks.Perm chunks') (query : String) :
    chunkScore okapi log chunks query = chunkScore okapi log chunks' query := by
  have hcorpus := hperm.map fun chunk => tokenize chunk.text
  have hprimary : primaryScore okapi log (chunks.map fun chunk => tokenize chunk.text) =
      primaryScore okapi log (chunks'.map fun chunk => tokenize chunk.text) := by
    funext queryTokens
    cases okapi with
    | none => exact congrFun (simpleScore_perm hcorpus) queryTokens
    | some okapi =>
        cases chunks with
        | nil =>
            obtain rfl := hperm.symm.eq_nil
            rfl
        | cons chunk chunks =>
            cases chunks' with
            | nil => exact absurd hperm.eq_nil (List.cons_ne_nil _ _)
            | cons chunk' chunks' => exact congrFun (okapi.perm _ _ hcorpus) queryTokens
  funext chunk
  rw [chunkScore, chunkScore]
  simp only [hprimary, simpleScore_perm hcorpus, hcorpus.any_eq]

/-! ### Ties -/

/-- The chunks among the first that score come, by their identifiers, before those of the same score
behind them. -/
def TiesInOrder (score : TextChunk → K) (limit : Nat) (chunks : List TextChunk) : Prop :=
  ∀ front x back, chunks = front ++ x :: back → 0 < score x →
    chunks.countP (fun chunk => score x < score chunk) +
        front.countP (fun chunk => score chunk = score x) < limit →
      ∀ y ∈ back, score y = score x → x.chunkId < y.chunkId

/-- A corpus has the same hits as its chunks in the order of their identifiers exactly if the ties that
the hits leave undecided are in that order. -/
theorem searchSparse_eq_iff {chunks sorted : List TextChunk} (hperm : chunks.Perm sorted)
    (hsorted : sorted.Pairwise fun a b => a.chunkId < b.chunkId) (query : String) (limit : Int) :
    searchSparse okapi log chunks query limit = searchSparse okapi log sorted query limit ↔
      TiesInOrder (chunkScore okapi log chunks query) (sliceLength limit chunks.length) chunks := by
  have hnodup : sorted.Nodup := hsorted.imp fun hlt => by
    rintro rfl
    exact lt_irrefl _ hlt
  have hinj : Function.Injective fun chunk : TextChunk =>
      (⟨chunk, chunkScore okapi log chunks query chunk⟩ : SearchHit K) :=
    fun a b heq => congrArg SearchHit.chunk heq
  have hpositive : ∀ a b, chunkScore okapi log chunks query b ≤ chunkScore okapi log chunks query a →
      decide (0 < chunkScore okapi log chunks query b) = true →
        decide (0 < chunkScore okapi log chunks query a) = true := by
    intro a b hle hb
    exact decide_eq_true ((of_decide_eq_true hb).trans_le hle)
  rw [searchSparse_eq, searchSparse_eq, ← chunkScore_perm okapi hperm, ← hperm.length_eq,
    (List.map_injective_iff.mpr hinj).eq_iff,
    Ranking.take_rank_eq_iff hpositive hperm (hperm.nodup_iff.mpr hnodup)]
  have hplace : ∀ front x back, chunks = front ++ x :: back → ∀ y ∈ back,
      (List.Sublist [x, y] sorted ↔ x.chunkId < y.chunkId) := by
    intro front x back hchunks y hy
    have hpairs : ∀ {a b : TextChunk}, List.Sublist [a, b] sorted → a.chunkId < b.chunkId :=
      List.pairwise_iff_forall_sublist.mp hsorted
    have hin : ∀ chunk ∈ x :: back, chunk ∈ sorted := fun chunk hchunk =>
      hperm.mem_iff.mp (by rw [hchunks]; exact List.mem_append_right _ hchunk)
    have hne : x ≠ y := by
      rintro rfl
      have hchunksNodup := hperm.nodup_iff.mpr hnodup
      rw [hchunks] at hchunksNodup
      exact (List.nodup_cons.mp (List.nodup_append.mp hchunksNodup).2.1).1 hy
    refine ⟨fun hsub => hpairs hsub, fun hlt => ?_⟩
    have hboth := StableSort.pair_sublist (hin x List.mem_cons_self) (hin y (List.mem_cons_of_mem _ hy)) hne
    exact hboth.resolve_right fun hswap => lt_asymm hlt (hpairs hswap)
  rw [TiesInOrder]
  refine forall_congr' fun front => forall_congr' fun x => forall_congr' fun back =>
    forall_congr' fun hchunks => ?_
  rw [decide_eq_true_iff]
  refine forall_congr' fun _ => forall_congr' fun _ => forall_congr' fun y => forall_congr' fun hy => ?_
  rw [hplace front x back hchunks y hy]

/-- The corpus that a search finds after these indexing calls. -/
def liveCorpus {ids : Uuid5} (dense : DenseStore ids) (calls : List (List TextChunk)) : List TextChunk :=
  ((Retriever.start dense).indexAll calls).ensureSparseHydrated.sparse

/-- The corpus that a search finds if the process has been started again after them. -/
def restartedCorpus {ids : Uuid5} (dense : DenseStore ids) (calls : List (List TextChunk)) :
    List TextChunk :=
  (Retriever.start ((Retriever.start dense).indexAll calls).dense).ensureSparseHydrated.sparse

theorem perm_restartedCorpus {ids : Uuid5} (dense : DenseStore ids) (calls : List (List TextChunk)) :
    (liveCorpus dense calls).Perm (restartedCorpus dense calls) := by
  obtain ⟨-, hdistinct, hagrees⟩ :=
    ((Retriever.Synced.start dense).indexAll calls).ensureSparseHydrated
  have hrestarted : restartedCorpus dense calls =
      ((Retriever.start dense).indexAll calls).dense.loadChunks := rfl
  rw [hrestarted, liveCorpus, hdistinct.perm_iff (DenseStore.distinct_loadChunks _)]
  intro id
  rw [hagrees, DenseStore.get?_loadChunks]

variable (log)

/-- A search finds the same after a restart exactly if the ties that its hits leave undecided are in the
order of the identifiers. -/
theorem restart_iff {ids : Uuid5} (dense : DenseStore ids) (calls : List (List TextChunk))
    (query : String) (limit : Int) :
    searchSparse okapi log (liveCorpus dense calls) query limit =
        searchSparse okapi log (restartedCorpus dense calls) query limit ↔
      TiesInOrder (chunkScore okapi log (liveCorpus dense calls) query)
        (sliceLength limit (liveCorpus dense calls).length) (liveCorpus dense calls) :=
  searchSparse_eq_iff okapi (perm_restartedCorpus dense calls) (DenseStore.pairwise_loadChunks _) query limit

end Scores

/-! ### Two chunks with one text -/

/-- What `BM25Okapi` scores a document of one token in a corpus of two such documents. -/
noncomputable def onePage : Okapi ℝ where
  score := fun _ _ _ => -(Real.log 5 / 4)
  perm := fun _ _ _ => rfl

def invoice (chunkId : String) : TextChunk := ⟨chunkId, "invoice", "scan.pdf", []⟩

theorem chunkScore_invoice_pos (chunk : TextChunk) (htext : chunk.text = "invoice") :
    0 < chunkScore (some onePage) Real.log [invoice "b", invoice "a"] "invoice" chunk := by
  have htokens : tokenize "invoice" = ["invoice".toList] := by decide +kernel
  have hcorpus : [invoice "b", invoice "a"].map (fun chunk => tokenize chunk.text) =
      [["invoice".toList], ["invoice".toList]] := by
    simp [invoice, htokens]
  have hfive : 0 < Real.log 5 := Real.log_pos (by norm_num)
  have hnegative : ¬ [["invoice".toList], ["invoice".toList]].any (fun doc => 0 < primaryScore
      (some onePage) Real.log [["invoice".toList], ["invoice".toList]] ["invoice".toList] doc) = true := by
    have hscore : ¬ (0 : ℝ) < -(Real.log 5 / 4) := by linarith
    simp [primaryScore, onePage, hscore]
  have havgdl : avgdl (K := ℝ) [["invoice".toList], ["invoice".toList]] = 1 := by
    norm_num [avgdl]
  have hidf : idf Real.log [["invoice".toList], ["invoice".toList]] "invoice".toList = Real.log (6 / 5) := by
    norm_num [idf, documentFrequency]
  have hpositive : 0 < Real.log (6 / 5) := Real.log_pos (by norm_num)
  rw [chunkScore, hcorpus, htokens, if_neg hnegative, htext, htokens]
  simp only [simpleScore, List.foldl_cons, List.foldl_nil, havgdl, hidf]
  norm_num
  exact hpositive

/-- The chunk that was indexed first is the hit, and after a restart the one whose identifier is first. -/
theorem not_restart_of_tie :
    searchSparse (some onePage) Real.log
        (liveCorpus (DenseStore.empty nameIds) [[invoice "b"], [invoice "a"]]) "invoice" 1 ≠
      searchSparse (some onePage) Real.log
        (restartedCorpus (DenseStore.empty nameIds) [[invoice "b"], [invoice "a"]]) "invoice" 1 := by
  have hlive : liveCorpus (DenseStore.empty nameIds) [[invoice "b"], [invoice "a"]] =
      [invoice "b", invoice "a"] := rfl
  have hsorted := DenseStore.pairwise_loadChunks
    ((Retriever.start (DenseStore.empty nameIds)).indexAll [[invoice "b"], [invoice "a"]]).dense
  have hperm := perm_restartedCorpus (DenseStore.empty nameIds) [[invoice "b"], [invoice "a"]]
  rw [ne_eq, searchSparse_eq_iff (some onePage) hperm hsorted, hlive]
  intro hties
  have hpos := chunkScore_invoice_pos (invoice "b") rfl
  have hsame : chunkScore (some onePage) Real.log [invoice "b", invoice "a"] "invoice" (invoice "a") =
      chunkScore (some onePage) Real.log [invoice "b", invoice "a"] "invoice" (invoice "b") := rfl
  have hplace : [invoice "b", invoice "a"].countP (fun chunk =>
      chunkScore (some onePage) Real.log [invoice "b", invoice "a"] "invoice" (invoice "b") <
        chunkScore (some onePage) Real.log [invoice "b", invoice "a"] "invoice" chunk) = 0 := by
    simp [hsame]
  have horder := hties [] (invoice "b") [invoice "a"] rfl hpos (by rw [hplace]; decide) (invoice "a")
    (List.mem_singleton_self _) hsame
  exact absurd horder (by decide)

end CoreMesh.Rag
