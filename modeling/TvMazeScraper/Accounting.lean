import TvMazeScraper.ElasticTvMaze.LoadData

/-!
# What `ProcessBulk` does with every document

Each document is accepted or rejected, in whatever batch it stands.  The loop
sends one batch after the other, until a batch throws.

* `batches_partition`: the batches are windows of ten documents, and
  `ElementAt` finds a document by its position in its batch.
* `noReject_of_ok`: a loop that does not throw met no rejected item.
* `accounted_iff`: every document is accounted for exactly when none is
  rejected.
-/

namespace TvMazeScraper

open Batching

/-! ## The batches -/

/-- `batch.ElementAt(i)` for a position inside the batch. -/
theorem elementAt_of_lt {T : Type} {batch : List (Option T)} {i : Nat}
    {document : Option T} (hi : i < 10) (hget : batch[i]? = some document) :
    elementAt batch (.ofNat i) = .ok document := by
  have hint : (Int32.ofNat i).toInt = i := Int32.toInt_ofNat_of_lt (by omega)
  have hnot : ¬ Int32.ofNat i < 0 := by
    rw [Int32.lt_iff_toInt_lt, hint]
    show ¬ (i : Int) < 0
    omega
  unfold elementAt
  rw [if_neg hnot, hint, Int.toNat_natCast, hget]

/-- The batches of `n` documents: there are `⌈n / 10⌉` of them, none is
empty, every one but the last has ten documents, they join to the documents
in order, and `ElementAt(i)` of batch `b` is document `10 * b + i`. -/
theorem batches_partition {T : Type} (documents : List (Option T)) :
    (batchesOf 10 documents).length = (documents.length + 9) / 10 ∧
      (∀ batch ∈ batchesOf 10 documents, batch ≠ []) ∧
      (∀ b batch, (batchesOf 10 documents)[b]? = some batch →
        b + 1 < (batchesOf 10 documents).length → batch.length = 10) ∧
      (batchesOf 10 documents).flatten = documents ∧
      ∀ b batch, (batchesOf 10 documents)[b]? = some batch →
        ∀ i < batch.length, ∃ document,
          documents[10 * b + i]? = some document ∧
            elementAt batch (.ofNat i) = .ok document := by
  have h10 : 0 < 10 := by decide
  refine ⟨length_batchesOf h10 documents, ?_, ?_, flatten_batchesOf h10 _, ?_⟩
  · intro batch hbatch hnil
    obtain ⟨b, hb⟩ := List.mem_iff_getElem?.mp hbatch
    obtain ⟨hlt, hchunk⟩ := (getElem?_batchesOf h10).mp hb
    have hwindow := mul_lt_of_lt_chunkCount h10 hlt
    have hlength := length_chunk 10 b documents
    rw [← hchunk, hnil, List.length_nil] at hlength
    omega
  · intro b batch hbatch hnext
    exact length_of_not_last h10 hbatch hnext
  · intro b batch hbatch i hi
    obtain ⟨_, hchunk⟩ := (getElem?_batchesOf h10).mp hbatch
    have hi10 : i < 10 := by
      have hlength := length_chunk 10 b documents
      rw [← hchunk] at hlength
      omega
    have hget : batch[i]? = some batch[i] := List.getElem?_eq_getElem hi
    refine ⟨batch[i], ?_, elementAt_of_lt hi10 hget⟩
    rw [← getElem?_chunk hi10, ← hchunk]
    exact hget

/-! ## The fate of the documents -/

section Accounting

variable {T : Type} [Document T]

/-- The outcomes of the requests when Elasticsearch rejects these documents,
by their position in the whole list. -/
def itemOutcomes (rejects : Nat → Bool) (b : Nat) : BulkOutcome :=
  .processed fun i => rejects (10 * b + i)

/-- The documents that Elasticsearch rejects. -/
def rejectedOf (documents : List T) (rejects : Nat → Bool) : List T :=
  (documents.zipIdx.filter fun p => rejects p.2).map Prod.fst

/-- The row that is due to a rejected document: its id and its serialized
form. -/
def dueRow (json : JsonConvert) (document : T) : UnprocessedEpisodeDetails where
  Id := toString (Document.id document)
  RawData := Document.serialize json document

/-- An index and an empty `UnprocessedEpisodesDetails`, in a new scope, before
any request. -/
def BulkState.start (index : Index T) : BulkState T where
  index := index
  context := .newScope .empty
  requests := []

/-- `ProcessBulk<T>` accounts for every document: it does not throw, the
requests that it has sent carry each document once, and in the end the
accepted documents are in the index and the table has the rows that are due to
the rejected ones. -/
structure Accounted (json : JsonConvert) (config : ELKConfiguration)
    (documents : List T) (rejects : Nat → Bool) (index : Index T) : Prop where
  completes : (processBulk json config (documents.map some)
    (itemOutcomes rejects) (.start index)).2 = .ok ()
  offers : (processBulk json config (documents.map some)
    (itemOutcomes rejects) (.start index)).1.requests.flatten
      = documents.map some
  stored : ∀ i document, documents[i]? = some document → rejects i = false →
    (processBulk json config (documents.map some) (itemOutcomes rejects)
      (.start index)).1.index.get? (Document.id document) = some document
  recorded : (processBulk json config (documents.map some)
    (itemOutcomes rejects) (.start index)).1.context.table.rows.Perm
      ((rejectedOf documents rejects).map (dueRow json))

/-- A loop that does not throw met no rejected item. -/
theorem noReject_of_ok {json : JsonConvert} {config : ELKConfiguration}
    {rejects : Nat → Nat → Bool} {batches : List (List (Option T))} :
    ∀ {n : Nat} {s : BulkState T},
      (processBatches json config (fun b => .processed (rejects b)) n batches
        s).2 = .ok () →
      ∀ b batch, batches[b]? = some batch →
        ∀ i < batch.length, rejects (n + b) i = false := by
  induction batches with
  | nil => intro n s _ b batch hbatch; cases hbatch
  | cons first batches ih =>
    intro n s hok b batch hbatch i hi
    unfold processBatches at hok
    cases hfirst : processBatch json config first (.processed (rejects n))
        s with
    | mk s' result =>
      rw [hfirst] at hok
      cases result with
      | error e => cases hok
      | ok _ =>
        cases b with
        | zero =>
          obtain rfl : first = batch := Option.some.inj hbatch
          by_contra hreject
          rw [Nat.add_zero, Bool.not_eq_false] at hreject
          obtain ⟨e, he⟩ := processBatch_of_rejected json config hi hreject s
          rw [hfirst] at he
          cases he
        | succ b =>
          have hrest := ih hok b batch hbatch i hi
          rwa [show n + 1 + b = n + (b + 1) by omega] at hrest

/-- When no document is rejected, every request is accepted. -/
theorem acceptsDocuments_of_noReject {rejects : Nat → Bool} {count : Nat}
    (h : ∀ i < count, rejects i = false) :
    AcceptsDocuments (itemOutcomes rejects) count := by
  intro b hb
  refine ⟨_, rfl, fun i hi => h _ ?_⟩
  omega

/-- `ProcessBulk<T>` accounts for every document if and only if Elasticsearch
rejects none. -/
theorem accounted_iff (json : JsonConvert) (config : ELKConfiguration)
    {documents : List T} (hids : (documents.map Document.id).Nodup)
    (rejects : Nat → Bool) (index : Index T) :
    Accounted json config documents rejects index ↔
      ∀ i < documents.length, rejects i = false := by
  constructor
  · intro h i hi
    have hlength : i < (documents.map some).length := by
      rw [List.length_map]
      exact hi
    obtain ⟨batch, hbatch, hplace⟩ := exists_batch (n := 10) (by decide) hlength
    have hnot : rejects (10 * (0 + i / 10) + i % 10) = false :=
      noReject_of_ok h.completes (i / 10) batch hbatch (i % 10) hplace
    rwa [Nat.zero_add, Nat.div_add_mod] at hnot
  · intro h
    have haccepts : AcceptsDocuments (itemOutcomes rejects)
        (documents.map some).length := by
      rw [List.length_map]
      exact acceptsDocuments_of_noReject h
    have hresult := processBulk_of_accepted json config haccepts (.start index)
    have hnone : rejectedOf documents rejects = [] := by
      unfold rejectedOf
      rw [List.map_eq_nil_iff, List.filter_eq_nil_iff]
      intro p hp
      have hlt := List.snd_lt_of_mem_zipIdx hp
      rw [h p.2 (by omega)]
      decide
    constructor
    · rw [hresult]
    · rw [hresult]
      exact flatten_batchesOf (by decide) _
    · intro i document hget _
      rw [hresult]
      have hmem : document ∈ (documents.map some).filterMap id := by
        rw [List.filterMap_map]
        simpa using List.mem_of_getElem? hget
      refine KeyedStore.get?_putAll_of_consistent hmem ?_ index
      intro d hd hkey
      rw [List.filterMap_map] at hd hmem
      simp only [Function.id_comp, List.filterMap_some] at hd hmem
      exact List.inj_on_of_nodup_map hids hd hmem hkey
    · rw [hresult, hnone]
      exact .refl []

end Accounting

/-! ### Eleven persons -/

/-- The persons 0 to 10, who need two batches. -/
def elevenPersons : List Person :=
  (List.range 11).map fun i => { id := .ofNat i }

theorem accounted_iff_eleven :
    Accounted (.ofTable []) { index := "tv" } elevenPersons (fun _ => false)
      .empty :=
  (accounted_iff (.ofTable []) { index := "tv" } (by decide) _ .empty).mpr
    fun _ _ => rfl

/-- Person 0 is rejected.  The loop throws in the first batch, no request
carries person 10, and nobody is recorded. -/
theorem rejected_not_accounted :
    (processBulk (.ofTable []) { index := "tv" } (elevenPersons.map some)
        (itemOutcomes fun i => i == 0) (.start .empty)).2
        = .error .format ∧
      some { id := 10 } ∉ (processBulk (.ofTable []) { index := "tv" }
        (elevenPersons.map some) (itemOutcomes fun i => i == 0)
        (.start .empty)).1.requests.flatten ∧
      ¬ Accounted (.ofTable []) { index := "tv" } elevenPersons
        (fun i => i == 0) .empty := by
  have hthrows : (processBulk (.ofTable []) { index := "tv" }
      (elevenPersons.map some) (itemOutcomes fun i => i == 0)
      (.start .empty)).2 = .error .format := by rfl
  refine ⟨hthrows, ?_, fun h => ?_⟩
  · decide
  · have hcompletes := h.completes
    rw [hthrows] at hcompletes
    cases hcompletes

end TvMazeScraper
