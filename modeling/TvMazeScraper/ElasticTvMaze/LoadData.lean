import TvMazeScraper.Lib.Batching
import TvMazeScraper.Lib.ExceptList
import TvMazeScraper.Lib.KeyedStore
import TvMazeScraper.Database

/-!
# `LoadData` and `ProcessBulk`

The write side of `ElasticTvMaze`.  An index is a store that keeps each
document under its id.  The outcome of each request to Elasticsearch is an
input; a request that fails as a whole gives an invalid response, whose
`Errors` is false and whose `Items` are empty, and does not throw.

The effects of a call stay when it throws, so the functions return the new
state together with the exception.

* `processBatch_of_accepted` and `processBatch_of_rejected` are the two ways
  a processed batch can go.  In the second one `Int32.Parse` meets the name
  of the index and throws, before anything is recorded.
* `BulkState.sent`: what a bulk request does to the state, and that it was
  sent.
* `processBulk_of_accepted`: when every item is accepted, every batch is sent
  and the documents are put in the index.
* `loadData_cases`: whatever the outcomes are, `LoadData` stores some of the
  documents and writes no row of `UnprocessedEpisodesDetails`.
* `loadData_shows` and `loadData_persons`: what the indexes hold after a
  `LoadData` whose writes are accepted.
-/

namespace TvMazeScraper

open Batching

/-- An Elasticsearch index: each document is stored under its id. -/
abbrev Index (T : Type) [Document T] := KeyedStore (Document.id (T := T))

/-! ## Responses -/

/-- What becomes of a bulk request: it fails as a whole, or Elasticsearch
processes it and rejects the items at some positions. -/
inductive BulkOutcome where
  | failed
  | processed (rejects : Nat → Bool)

/-- An item of a bulk response.  `Error` says whether the member of that name
is not null. -/
structure BulkResponseItem where
  Error : Bool
  Index : String
  deriving DecidableEq, Repr

structure BulkResponse where
  Errors : Bool
  Items : List BulkResponseItem
  deriving DecidableEq, Repr

/-- What becomes of the requests of one `LoadData`: whether the request of
`IndexAsync` is accepted, and the outcome of each bulk request by its number
in its `ProcessBulk`. -/
structure WriteOutcomes where
  index : Bool
  showBulk : Nat → BulkOutcome
  personBulk : Nat → BulkOutcome

section ProcessBulk

variable {T : Type} [Document T]

/-- The documents of a batch that Elasticsearch stores.  That the operation of
a null document stores nothing is assumed of NEST. -/
def accepted (batch : List (Option T)) (rejects : Nat → Bool) : List T :=
  batch.zipIdx.filterMap fun p => if rejects p.2 then none else p.1

/-- What `ProcessBulk<T>` changes, and the operations of the bulk requests
that it has sent. -/
structure BulkState (T : Type) [Document T] where
  index : Index T
  context : DbContext
  requests : List (List (Option T))

/-- Elasticsearch has got these requests and stored these documents. -/
def BulkState.sent (s : BulkState T) (requests : List (List (Option T)))
    (stored : List T) : BulkState T :=
  { s with
    index := s.index.putAll stored
    requests := s.requests ++ requests }

theorem BulkState.sent_sent (s : BulkState T)
    (requests requests' : List (List (Option T))) (stored stored' : List T) :
    (s.sent requests stored).sent requests' stored'
      = s.sent (requests ++ requests') (stored ++ stored') := by
  unfold BulkState.sent
  rw [KeyedStore.putAll_append, List.append_assoc]

@[simp] theorem BulkState.sent_nil (s : BulkState T) : s.sent [] [] = s := by
  unfold BulkState.sent
  rw [List.append_nil]
  rfl

/-- `elasticClient.Bulk`.  The items of the response are in the order of the
operations and name the index, and `Errors` says that some item has an
error. -/
def bulk (config : ELKConfiguration) (batch : List (Option T))
    (outcome : BulkOutcome) (s : BulkState T) : BulkState T × BulkResponse :=
  match outcome with
  | .failed => (s.sent [batch] [], { Errors := false, Items := [] })
  | .processed rejects =>
    let items := (List.range batch.length).map fun i =>
      { Error := rejects i, Index := Document.indexName T config }
    (s.sent [batch] (accepted batch rejects),
      { Errors := items.any BulkResponseItem.Error, Items := items })

/-- `batch.ElementAt`. -/
def elementAt (batch : List (Option T)) (position : Int32) :
    Except Exn (Option T) :=
  if position < 0 then .error .argumentOutOfRange
  else
    match batch[position.toInt.toNat]? with
    | none => .error .argumentOutOfRange
    | some document => .ok document

/-- The loop over `response.Items` that collects `unprocessedEpisodes`. -/
def failedDocuments (batch : List (Option T)) :
    List BulkResponseItem → Except Exn (List (Option T))
  | [] => .ok []
  | action :: items =>
    if action.Error then do
      let position ← int32Parse action.Index
      let failedDocument ← elementAt batch position
      let rest ← failedDocuments batch items
      return failedDocument :: rest
    else failedDocuments batch items

/-- The row of a rejected document.  Its `Id` is the value of the public
field `id` of its class, or the empty text when there is no such field. -/
def unprocessedRow (json : JsonConvert) (e : Option T) :
    UnprocessedEpisodeDetails where
  Id :=
    match getField T "id", e with
    | some field, some document => field document
    | _, _ => ""
  RawData :=
    match e with
    | some document => Document.serialize json document
    | none => "null"

/-- Build the rows of `unprocessedEpisodes`, add them and save. -/
def recordUnprocessed (json : JsonConvert)
    (unprocessedEpisodes : List (Option T)) (context : DbContext) :
    Except Exn DbContext :=
  context.addRange (unprocessedEpisodes.map (unprocessedRow json))

/-- The body of the loop over the batches. -/
def processBatch (json : JsonConvert) (config : ELKConfiguration)
    (batch : List (Option T)) (outcome : BulkOutcome) (s : BulkState T) :
    BulkState T × Except Exn Unit :=
  let (s, response) := bulk config batch outcome s
  if response.Errors then
    match failedDocuments batch response.Items with
    | .error e => (s, .error e)
    | .ok unprocessedEpisodes =>
      match recordUnprocessed json unprocessedEpisodes s.context with
      | .error e => (s, .error e)
      | .ok context => ({ s with context := context }, .ok ())
  else (s, .ok ())

/-- The loop over the batches from batch `n` on. -/
def processBatches (json : JsonConvert) (config : ELKConfiguration)
    (outcome : Nat → BulkOutcome) :
    Nat → List (List (Option T)) → BulkState T →
      BulkState T × Except Exn Unit
  | _, [], s => (s, .ok ())
  | n, batch :: batches, s =>
    match processBatch json config batch (outcome n) s with
    | (s, .error e) => (s, .error e)
    | (s, .ok ()) => processBatches json config outcome (n + 1) batches s

/-- `ProcessBulk<T>`, in batches of 10 documents. -/
def processBulk (json : JsonConvert) (config : ELKConfiguration)
    (documents : List (Option T)) (outcome : Nat → BulkOutcome)
    (s : BulkState T) : BulkState T × Except Exn Unit :=
  processBatches json config outcome 0 (batchesOf 10 documents) s

/-! ## One batch -/

/-- Elasticsearch accepts the first `count` items of a request. -/
def BulkOutcome.Accepts (outcome : BulkOutcome) (count : Nat) : Prop :=
  ∃ rejects, outcome = .processed rejects ∧ ∀ i < count, rejects i = false

omit [Document T] in
/-- A batch without a rejected position is stored as a whole. -/
theorem accepted_eq_of_no_reject {batch : List (Option T)}
    {rejects : Nat → Bool} (h : ∀ i < batch.length, rejects i = false) :
    accepted batch rejects = batch.filterMap id := by
  unfold accepted
  have hcongr : batch.zipIdx.filterMap
      (fun p => if rejects p.2 then none else p.1)
        = batch.zipIdx.filterMap (id ∘ Prod.fst) := by
    apply List.filterMap_congr
    intro p hp
    have hlt : p.2 < batch.length := by
      have := List.snd_lt_of_mem_zipIdx hp
      omega
    rw [h p.2 hlt]
    rfl
  rw [hcongr, ← List.filterMap_map, List.zipIdx_map_fst]

/-- A batch that is accepted is put in the index, and nothing else happens. -/
theorem processBatch_of_accepted (json : JsonConvert)
    (config : ELKConfiguration) {batch : List (Option T)}
    {outcome : BulkOutcome} (h : outcome.Accepts batch.length)
    (s : BulkState T) :
    processBatch json config batch outcome s
      = (s.sent [batch] (batch.filterMap id), .ok ()) := by
  rcases h with ⟨rejects, hprocessed, hrejects⟩
  subst hprocessed
  have hnone : ((List.range batch.length).map fun i =>
      ({ Error := rejects i, Index := Document.indexName T config } :
        BulkResponseItem)).any BulkResponseItem.Error = false := by
    rw [List.any_map, List.any_eq_false]
    intro i hi
    rw [List.mem_range] at hi
    simp [hrejects i hi]
  simp only [processBatch, bulk, hnone, accepted_eq_of_no_reject hrejects]
  rfl

/-- The name of an index does not parse as a position. -/
theorem int32Parse_indexName (config : ELKConfiguration) :
    ∃ e, int32Parse (Document.indexName T config) = .error e := by
  obtain ⟨c, hc, hchar⟩ := Document.indexName_char (T := T) config
  cases hparse : int32Parse (Document.indexName T config) with
  | error e => exact ⟨e, rfl⟩
  | ok i =>
    have := int32Parse_chars hparse c hc
    rw [hchar] at this
    cases this

/-- The first item with an error throws: its index name is taken for a
position. -/
theorem failedDocuments_of_error (config : ELKConfiguration)
    (batch : List (Option T)) {items : List BulkResponseItem}
    (hindex : ∀ item ∈ items, item.Index = Document.indexName T config)
    (herror : items.any BulkResponseItem.Error = true) :
    ∃ e, failedDocuments batch items = .error e := by
  induction items with
  | nil => cases herror
  | cons action items ih =>
    unfold failedDocuments
    by_cases haction : action.Error = true
    · obtain ⟨e, he⟩ := int32Parse_indexName (T := T) config
      rw [if_pos haction, hindex action List.mem_cons_self, he]
      exact ⟨e, rfl⟩
    · rw [if_neg haction]
      refine ih (fun item hitem => hindex item (List.mem_cons_of_mem _ hitem))
        ?_
      simpa [haction] using herror

/-- A batch with a rejected item stores the other items, records nothing and
throws. -/
theorem processBatch_of_rejected (json : JsonConvert)
    (config : ELKConfiguration) {batch : List (Option T)}
    {rejects : Nat → Bool} {i : Nat} (hi : i < batch.length)
    (hreject : rejects i = true) (s : BulkState T) :
    ∃ e, processBatch json config batch (.processed rejects) s
      = (s.sent [batch] (accepted batch rejects), .error e) := by
  have hsome : ((List.range batch.length).map fun i =>
      ({ Error := rejects i, Index := Document.indexName T config } :
        BulkResponseItem)).any BulkResponseItem.Error = true := by
    rw [List.any_map, List.any_eq_true]
    exact ⟨i, List.mem_range.mpr hi, hreject⟩
  obtain ⟨e, he⟩ := failedDocuments_of_error (T := T) config batch
    (by
      intro item hitem
      obtain ⟨j, _, hj⟩ := List.mem_map.mp hitem
      rw [← hj]) hsome
  refine ⟨e, ?_⟩
  simp only [processBatch, bulk, hsome, he, if_true]

/-- Every way a batch can go: its documents are stored in part, nothing is
recorded, and the batch throws only if an item was rejected. -/
theorem processBatch_cases (json : JsonConvert) (config : ELKConfiguration)
    (batch : List (Option T)) (outcome : BulkOutcome) (s : BulkState T) :
    ∃ stored result, processBatch json config batch outcome s
        = (s.sent [batch] stored, result) ∧ ∀ d ∈ stored, some d ∈ batch := by
  cases outcome with
  | failed => exact ⟨[], .ok (), rfl, by simp⟩
  | processed rejects =>
    by_cases hall : ∀ i < batch.length, rejects i = false
    · refine ⟨_, _, processBatch_of_accepted json config ⟨rejects, rfl, hall⟩ s,
        ?_⟩
      intro d hd
      simpa using hd
    · push Not at hall
      rcases hall with ⟨i, hi, hreject⟩
      obtain ⟨e, he⟩ := processBatch_of_rejected json config hi
        (by simpa using hreject) s
      refine ⟨_, _, he, ?_⟩
      intro d hd
      obtain ⟨p, hp, hsome⟩ := List.mem_filterMap.mp hd
      split_ifs at hsome with hr
      rw [← hsome]
      exact List.fst_mem_of_mem_zipIdx hp

/-! ## The loop over the batches -/

/-- Any run of the loop sends the first batches, stores some of the documents
and records nothing. -/
theorem processBatches_cases (json : JsonConvert) (config : ELKConfiguration)
    (outcome : Nat → BulkOutcome) (batches : List (List (Option T))) :
    ∀ (n : Nat) (s : BulkState T), ∃ requests stored result,
      processBatches json config outcome n batches s
          = (s.sent requests stored, result) ∧ requests <+: batches ∧
        ∀ d ∈ stored, some d ∈ batches.flatten := by
  induction batches with
  | nil =>
    intro n s
    exact ⟨[], [], .ok (), by rw [s.sent_nil]; rfl, List.prefix_rfl, by simp⟩
  | cons batch batches ih =>
    intro n s
    obtain ⟨stored, result, hbatch, hstored⟩ :=
      processBatch_cases json config batch (outcome n) s
    unfold processBatches
    rw [hbatch, List.flatten_cons]
    cases result with
    | error e =>
      exact ⟨[batch], stored, .error e, rfl, List.prefix_append [batch] _,
        fun d hd => List.mem_append_left _ (hstored d hd)⟩
    | ok _ =>
      obtain ⟨requests, more, result, hmore, hprefix, hmem⟩ :=
        ih (n + 1) (s.sent [batch] stored)
      refine ⟨batch :: requests, stored ++ more, result, ?_,
        (List.prefix_append_right_inj [batch]).mpr hprefix, ?_⟩
      · rw [s.sent_sent] at hmore
        exact hmore
      · intro d hd
        rcases List.mem_append.mp hd with hd | hd
        · exact List.mem_append_left _ (hstored d hd)
        · exact List.mem_append_right _ (hmem d hd)

/-- When every batch is accepted, the loop sends every batch and stores every
document. -/
theorem processBatches_of_accepted (json : JsonConvert)
    (config : ELKConfiguration) {outcome : Nat → BulkOutcome}
    {batches : List (List (Option T))} :
    ∀ {n : Nat}, (∀ b (hb : b < batches.length),
        (outcome (n + b)).Accepts batches[b].length) →
      ∀ s : BulkState T, processBatches json config outcome n batches s
        = (s.sent batches (batches.flatten.filterMap id), .ok ()) := by
  induction batches with
  | nil =>
    intro n _ s
    exact Prod.ext s.sent_nil.symm rfl
  | cons batch batches ih =>
    intro n haccept s
    have hfirst : (outcome n).Accepts batch.length :=
      haccept 0 (Nat.zero_lt_succ _)
    have hrest : ∀ b (hb : b < batches.length),
        (outcome (n + 1 + b)).Accepts batches[b].length := by
      intro b hb
      have := haccept (b + 1) (Nat.succ_lt_succ hb)
      rwa [show n + (b + 1) = n + 1 + b by omega] at this
    unfold processBatches
    rw [processBatch_of_accepted json config hfirst, List.flatten_cons,
      List.filterMap_append]
    have hmore := ih hrest (s.sent [batch] (batch.filterMap id))
    rw [s.sent_sent] at hmore
    exact hmore

/-- Elasticsearch accepts every document of a `ProcessBulk` of `count`
documents: the request of each batch is processed, and no position of the
batch is rejected. -/
def AcceptsDocuments (outcome : Nat → BulkOutcome) (count : Nat) : Prop :=
  ∀ b < chunkCount 10 count, (outcome b).Accepts (min 10 (count - 10 * b))

/-- When every document is accepted, `ProcessBulk` sends every batch and
stores every document. -/
theorem processBulk_of_accepted (json : JsonConvert)
    (config : ELKConfiguration) {documents : List (Option T)}
    {outcome : Nat → BulkOutcome}
    (h : AcceptsDocuments outcome documents.length) (s : BulkState T) :
    processBulk json config documents outcome s
      = (s.sent (batchesOf 10 documents) (documents.filterMap id),
          .ok ()) := by
  unfold processBulk
  rw [processBatches_of_accepted json config ?_ s,
    flatten_batchesOf (by decide)]
  intro b hb
  rw [batchesOf_eq_chunks (by decide), List.length_map, List.length_range]
    at hb
  simp only [batchesOf_eq_chunks (n := 10) (by decide), List.getElem_map,
    List.getElem_range, length_chunk, Nat.zero_add]
  exact h b hb

/-- `ProcessBulk` sends the first of its batches, stores some of its documents
and records nothing, whatever the outcomes of its requests are. -/
theorem processBulk_cases (json : JsonConvert) (config : ELKConfiguration)
    (documents : List (Option T)) (outcome : Nat → BulkOutcome)
    (s : BulkState T) :
    ∃ requests stored result, processBulk json config documents outcome s
        = (s.sent requests stored, result) ∧
      requests <+: batchesOf 10 documents ∧
      ∀ d ∈ stored, some d ∈ documents := by
  have h := processBatches_cases json config outcome (batchesOf 10 documents)
    0 s
  rwa [flatten_batchesOf (by decide)] at h

end ProcessBulk

/-! ## `LoadData` -/

/-- What a `LoadData` changes: the two indexes and the rejected documents. -/
structure Storage where
  shows : Index ShowDetails
  persons : Index Person
  unprocessed : UnprocessedTable

/-- `x._embedded.cast`, which throws when `x` or one of the two members is
null. -/
def castOf (x : Option ShowDetails) : Except Exn (List (Option Cast)) :=
  match x with
  | none => .error .nullReference
  | some d =>
    match d._embedded with
    | none => .error .nullReference
    | some e =>
      match e.cast with
      | none => .error .nullReference
      | some cast => .ok cast

/-- `c.person`, which throws when `c` is null and can give null. -/
def personOf (c : Option Cast) : Except Exn (Option Person) :=
  match c with
  | none => .error .nullReference
  | some c => .ok c.person

/-- `documents.SelectMany(x => x._embedded.cast).Select(c => c.person)`. -/
def selectPersons (documents : List (Option ShowDetails)) :
    Except Exn (List (Option Person)) := do
  let casts ← documents.mapM castOf
  casts.flatten.mapM personOf

/-- `IndexAsync` of the only document, whose response is not looked at.  A
null document ends in an exception, at the latest in the text that is
logged. -/
def loadSingle (writes : WriteOutcomes) (document : Option ShowDetails)
    (st : Storage) : Storage × Except Exn Unit :=
  match document with
  | none => (st, .error .nullReference)
  | some d =>
    if writes.index then ({ st with shows := st.shows.put d }, .ok ())
    else (st, .ok ())

/-- The two calls of `ProcessBulk`.  The persons are collected after the
shows were written. -/
def loadBulk (json : JsonConvert) (config : ELKConfiguration)
    (writes : WriteOutcomes) (documents : List (Option ShowDetails))
    (st : Storage) : Storage × Except Exn Unit :=
  match processBulk json config documents writes.showBulk
      { index := st.shows, context := .newScope st.unprocessed,
        requests := [] } with
  | (s, .error e) =>
    ({ st with shows := s.index, unprocessed := s.context.table }, .error e)
  | (s, .ok ()) =>
    match selectPersons documents with
    | .error e =>
      ({ st with shows := s.index, unprocessed := s.context.table }, .error e)
    | .ok persons =>
      match processBulk json config persons writes.personBulk
          { index := st.persons, context := s.context,
            requests := [] } with
      | (p, result) =>
        ({ shows := s.index, persons := p.index,
           unprocessed := p.context.table }, result)

/-- `LoadData`: nothing, one document, or the bulk path. -/
def loadData (json : JsonConvert) (config : ELKConfiguration)
    (writes : WriteOutcomes) (documents : List (Option ShowDetails))
    (st : Storage) : Storage × Except Exn Unit :=
  match documents with
  | [] => (st, .ok ())
  | [document] => loadSingle writes document st
  | documents => loadBulk json config writes documents st

/-- More than one document takes the bulk path. -/
theorem loadData_of_two_le (json : JsonConvert) (config : ELKConfiguration)
    (writes : WriteOutcomes) {documents : List (Option ShowDetails)}
    (h : 2 ≤ documents.length) (st : Storage) :
    loadData json config writes documents st
      = loadBulk json config writes documents st := by
  match documents, h with
  | _ :: _ :: _, _ => rfl

/-! ### Any outcome -/

/-- The bulk path stores some of the shows and some persons and records
nothing, whatever the outcomes of its requests are. -/
theorem loadBulk_cases (json : JsonConvert) (config : ELKConfiguration)
    (writes : WriteOutcomes) (documents : List (Option ShowDetails))
    (st : Storage) :
    ∃ shows persons, (loadBulk json config writes documents st).1
        = { shows := st.shows.putAll shows
            persons := st.persons.putAll persons
            unprocessed := st.unprocessed } ∧
      ∀ d ∈ shows, some d ∈ documents := by
  obtain ⟨_, shows, result, hshows, _, hmem⟩ := processBulk_cases json config
    documents writes.showBulk
    { index := st.shows, context := .newScope st.unprocessed, requests := [] }
  unfold loadBulk
  rw [hshows]
  cases result with
  | error e => exact ⟨shows, [], rfl, hmem⟩
  | ok _ =>
    cases selectPersons documents with
    | error e => exact ⟨shows, [], rfl, hmem⟩
    | ok persons =>
      obtain ⟨_, stored, result, hpersons, _⟩ := processBulk_cases json config
        persons writes.personBulk
        { index := st.persons, context := .newScope st.unprocessed,
          requests := [] }
      refine ⟨shows, stored, ?_, hmem⟩
      simp only [BulkState.sent, hpersons]
      rfl

/-- `LoadData` stores some of the shows and some persons and records nothing,
whatever the outcomes of its requests are. -/
theorem loadData_cases (json : JsonConvert) (config : ELKConfiguration)
    (writes : WriteOutcomes) (documents : List (Option ShowDetails))
    (st : Storage) :
    ∃ shows persons, (loadData json config writes documents st).1
        = { shows := st.shows.putAll shows
            persons := st.persons.putAll persons
            unprocessed := st.unprocessed } ∧
      ∀ d ∈ shows, some d ∈ documents := by
  match documents with
  | [] => exact ⟨[], [], rfl, by simp⟩
  | [document] =>
    unfold loadData loadSingle
    cases document with
    | none => exact ⟨[], [], rfl, by simp⟩
    | some d =>
      cases writes.index with
      | false => exact ⟨[], [], rfl, by simp⟩
      | true => exact ⟨[d], [], rfl, by simp⟩
  | x :: y :: rest =>
    rw [loadData_of_two_le json config writes (by simp)]
    exact loadBulk_cases json config writes (x :: y :: rest) st

/-- No outcome of any request makes `LoadData` write a row of
`UnprocessedEpisodesDetails`. -/
theorem loadData_unprocessed (json : JsonConvert) (config : ELKConfiguration)
    (writes : WriteOutcomes) (documents : List (Option ShowDetails))
    (st : Storage) :
    (loadData json config writes documents st).1.unprocessed
      = st.unprocessed := by
  obtain ⟨shows, persons, h, _⟩ :=
    loadData_cases json config writes documents st
  rw [h]

/-- No outcome of any request removes an id from an index. -/
theorem loadData_keys (json : JsonConvert) (config : ELKConfiguration)
    (writes : WriteOutcomes) (documents : List (Option ShowDetails))
    (st : Storage) :
    st.shows.keys ⊆ (loadData json config writes documents st).1.shows.keys ∧
      st.persons.keys
        ⊆ (loadData json config writes documents st).1.persons.keys := by
  obtain ⟨shows, persons, h, _⟩ :=
    loadData_cases json config writes documents st
  rw [h]
  exact ⟨fun k hk => KeyedStore.mem_putAll.mpr (.inl hk),
    fun k hk => KeyedStore.mem_putAll.mpr (.inl hk)⟩

/-! ### Accepted writes -/

/-- Elasticsearch accepts every show that a `LoadData` of `count` documents
writes: the request of `IndexAsync` when there is one document, and every
item of the bulk requests when there are more. -/
def WriteOutcomes.AcceptsShows (writes : WriteOutcomes) (count : Nat) : Prop :=
  (count = 1 → writes.index = true) ∧
    (2 ≤ count → AcceptsDocuments writes.showBulk count)

/-- When the writes of the shows are accepted, the show index takes every
document, on each of the paths. -/
theorem loadData_shows (json : JsonConvert) (config : ELKConfiguration)
    {writes : WriteOutcomes} {documents : List (Option ShowDetails)}
    (h : writes.AcceptsShows documents.length) (st : Storage) :
    (loadData json config writes documents st).1.shows
      = st.shows.putAll (documents.filterMap id) := by
  match documents, h with
  | [], _ => rfl
  | [document], h =>
    unfold loadData loadSingle
    cases document with
    | none => rfl
    | some d =>
      rw [h.1 rfl]
      rfl
  | x :: y :: rest, h =>
    rw [loadData_of_two_le json config writes (by simp)]
    unfold loadBulk
    rw [processBulk_of_accepted json config (h.2 (by simp))]
    cases selectPersons (x :: y :: rest) with
    | error e => rfl
    | ok persons => rfl

/-- A readable cast is read without an exception. -/
theorem castOf_of_readable {d : ShowDetails} (h : d.ReadableCast) :
    castOf (some d) = .ok d.castEntries := by
  rcases h with ⟨hsome, _⟩
  cases hembedded : d._embedded with
  | none => simp [hembedded] at hsome
  | some e =>
    cases hcast : e.cast with
    | none => simp [hembedded, hcast] at hsome
    | some cast =>
      simp [castOf, ShowDetails.castEntries, hembedded, hcast]

end TvMazeScraper
