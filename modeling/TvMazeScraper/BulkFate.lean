import TvMazeScraper.ElasticTvMaze.LoadData

/-!
# The fate of every document

What `ProcessBulk` and `LoadData` do to each document, whatever becomes of
their requests.  The loop over the batches goes on after a request that failed
as a whole, and stops at the first batch with a rejected item, so what happens
to a document depends on the documents before it.

* `storedAt`: the document at a position is stored, when its item is accepted
  and no item of an earlier batch is rejected.
* `sentBatches`: the batches up to the first one with a rejected item.
* `processBulk_eq`: `ProcessBulk` sends exactly these batches, stores exactly
  these documents, and throws exactly when an item is rejected.
* `selectPersons_of_all_readable` and `all_readable_of_selectPersons`: the
  persons are read exactly when every cast can be read.
* `loadData_eq`: what `LoadData` stores in both indexes, and when it throws.
-/

namespace TvMazeScraper

open Batching

/-! ## Positions -/

/-- Elasticsearch rejects the item at a position of a request. -/
def BulkOutcome.rejectsItem (outcome : BulkOutcome) (i : Nat) : Bool :=
  match outcome with
  | .failed => false
  | .processed rejects => rejects i

/-- Elasticsearch accepts the item at a position of a request. -/
def BulkOutcome.acceptsItem (outcome : BulkOutcome) (i : Nat) : Bool :=
  match outcome with
  | .failed => false
  | .processed rejects => !rejects i

/-- The item of the document at position `p` is rejected, if it is sent. -/
def rejectedAt (outcome : Nat → BulkOutcome) (p : Nat) : Bool :=
  (outcome (p / 10)).rejectsItem (p % 10)

/-- The document at position `p` is stored. -/
def storedAt (outcome : Nat → BulkOutcome) (p : Nat) : Bool :=
  (outcome (p / 10)).acceptsItem (p % 10) &&
    (List.range (p / 10 * 10)).all fun q => !rejectedAt outcome q

/-- The item of some document is rejected. -/
def someRejected (outcome : Nat → BulkOutcome) (count : Nat) : Bool :=
  (List.range count).any (rejectedAt outcome)

/-- The requests behind the first one. -/
def later (outcome : Nat → BulkOutcome) (b : Nat) : BulkOutcome :=
  outcome (b + 1)

theorem rejectedAt_of_lt {outcome : Nat → BulkOutcome} {p : Nat}
    (h : p < 10) : rejectedAt outcome p = (outcome 0).rejectsItem p := by
  unfold rejectedAt
  rw [Nat.div_eq_of_lt h, Nat.mod_eq_of_lt h]

@[simp] theorem rejectedAt_later (outcome : Nat → BulkOutcome) (p : Nat) :
    rejectedAt (later outcome) p = rejectedAt outcome (10 + p) := by
  unfold rejectedAt later
  rw [Nat.add_div_left p (by omega), Nat.add_mod_left]

theorem storedAt_of_lt {outcome : Nat → BulkOutcome} {p : Nat}
    (h : p < 10) : storedAt outcome p = (outcome 0).acceptsItem p := by
  unfold storedAt
  rw [Nat.div_eq_of_lt h, Nat.mod_eq_of_lt h]
  simp

/-- The first ten items all decide about what is behind them. -/
theorem storedAt_add (outcome : Nat → BulkOutcome) (p : Nat) :
    storedAt outcome (10 + p)
      = (storedAt (later outcome) p && !someRejected outcome 10) := by
  have hrange : List.range ((10 + p) / 10 * 10)
      = List.range 10 ++ (List.range (p / 10 * 10)).map (10 + ·) := by
    rw [Nat.add_div_left p (by omega), Nat.succ_mul, Nat.add_comm,
      List.range_add]
  have hfirst : (List.range 10).all (fun q => !rejectedAt outcome q)
      = !someRejected outcome 10 := by
    rw [someRejected, List.not_any_eq_all_not]
  have hrest : ((List.range (p / 10 * 10)).map (10 + ·)).all
      (fun q => !rejectedAt outcome q)
      = (List.range (p / 10 * 10)).all
          fun q => !rejectedAt (later outcome) q := by
    simp [List.all_map, Function.comp_def]
  have haccept : (outcome ((10 + p) / 10)).acceptsItem ((10 + p) % 10)
      = (later outcome (p / 10)).acceptsItem (p % 10) := by
    rw [Nat.add_div_left p (by omega), Nat.add_mod_left]
    rfl
  unfold storedAt
  rw [hrange, List.all_append, hfirst, hrest, haccept]
  cases someRejected outcome 10 <;> simp

/-! ## `ProcessBulk` -/

section ProcessBulk

variable {T : Type} [Document T]

omit [Document T] in
/-- The documents that are stored, by their positions. -/
def storedDocuments (outcome : Nat → BulkOutcome)
    (documents : List (Option T)) : List T :=
  documents.zipIdx.filterMap fun d => if storedAt outcome d.2 then d.1 else none

omit [Document T] in
/-- The documents of one request that are stored. -/
def storedBatch (outcome : BulkOutcome) (batch : List (Option T)) : List T :=
  batch.zipIdx.filterMap fun d =>
    if outcome.acceptsItem d.2 then d.1 else none

omit [Document T] in
/-- The first request, and the rest if it has no rejected item. -/
theorem storedDocuments_split (outcome : Nat → BulkOutcome)
    (documents : List (Option T)) :
    storedDocuments outcome documents
      = storedBatch (outcome 0) (documents.take 10)
        ++ if someRejected outcome (min 10 documents.length) then []
          else storedDocuments (later outcome) (documents.drop 10) := by
  have hfirst : (documents.take 10).zipIdx.filterMap
      (fun d => if storedAt outcome d.2 then d.1 else none)
      = storedBatch (outcome 0) (documents.take 10) := by
    apply List.filterMap_congr
    intro d hd
    have hlt := List.snd_lt_of_mem_zipIdx hd
    rw [List.length_take] at hlt
    rw [storedAt_of_lt (by omega)]
  have hsplit : documents.zipIdx = (documents.take 10).zipIdx
      ++ (documents.drop 10).zipIdx (documents.take 10).length := by
    conv_lhs => rw [← List.take_append_drop 10 documents]
    rw [List.zipIdx_append, Nat.zero_add]
  unfold storedDocuments
  rw [hsplit, List.filterMap_append, hfirst]
  congr 1
  by_cases hlong : 10 ≤ documents.length
  · rw [List.length_take, Nat.min_eq_left hlong, List.zipIdx_eq_map_add,
      List.filterMap_map]
    cases hrejected : someRejected outcome 10 with
    | true => simp [storedAt_add, hrejected]
    | false => simp [storedAt_add, hrejected]
  · rw [List.drop_eq_nil_of_le (by omega)]
    simp

/-- One batch: what it stores, and when it throws. -/
theorem processBatch_eq (json : JsonConvert) (config : ELKConfiguration)
    (batch : List (Option T)) (outcome : BulkOutcome) (s : BulkState T) :
    ∃ result, processBatch json config batch outcome s
        = (s.sent [batch] (storedBatch outcome batch), result) ∧
      ((∃ e, result = .error e) ↔
        ∃ i < batch.length, outcome.rejectsItem i = true) := by
  cases outcome with
  | failed =>
    refine ⟨.ok (), ?_, by simp [BulkOutcome.rejectsItem]⟩
    have hnone : storedBatch .failed batch = [] := by
      simp [storedBatch, BulkOutcome.acceptsItem]
    rw [hnone]
    rfl
  | processed rejects =>
    have hstored : storedBatch (.processed rejects) batch
        = accepted batch rejects := by
      apply List.filterMap_congr
      intro d _
      cases hreject : rejects d.2 <;>
        simp [BulkOutcome.acceptsItem, hreject]
    by_cases hall : ∀ i < batch.length, rejects i = false
    · refine ⟨.ok (), ?_, ?_⟩
      · rw [processBatch_of_accepted json config ⟨rejects, rfl, hall⟩ s,
          hstored, accepted_eq_of_no_reject hall]
      · constructor
        · intro h
          rcases h with ⟨e, he⟩
          cases he
        · intro h
          rcases h with ⟨i, hi, hreject⟩
          have hfalse : rejects i = true := hreject
          rw [hall i hi] at hfalse
          cases hfalse
    · push Not at hall
      rcases hall with ⟨i, hi, hreject⟩
      replace hreject : rejects i = true := by simpa using hreject
      obtain ⟨e, he⟩ := processBatch_of_rejected json config hi hreject s
      refine ⟨.error e, ?_, ⟨fun _ => ⟨i, hi, hreject⟩, fun _ => ⟨e, rfl⟩⟩⟩
      rw [he, hstored]

/-- The requests of the rest are numbered on. -/
theorem processBatches_later (json : JsonConvert) (config : ELKConfiguration)
    (outcome : Nat → BulkOutcome) (batches : List (List (Option T))) :
    ∀ (n : Nat) (s : BulkState T),
      processBatches json config outcome (n + 1) batches s
        = processBatches json config (later outcome) n batches s := by
  induction batches with
  | nil =>
    intro n s
    rfl
  | cons batch batches ih =>
    intro n s
    unfold processBatches
    simp only [ih]
    rfl

theorem someRejected_split (outcome : Nat → BulkOutcome) (count : Nat) :
    someRejected outcome count
      = (someRejected outcome (min 10 count)
        || someRejected (later outcome) (count - 10)) := by
  by_cases hlong : 10 ≤ count
  · obtain ⟨rest, rfl⟩ := Nat.exists_eq_add_of_le hlong
    rw [Nat.min_eq_left hlong, Nat.add_sub_cancel_left]
    unfold someRejected
    rw [List.range_add, List.any_append, List.any_map]
    congr 2
    funext p
    rw [rejectedAt_later]
    rfl
  · rw [Nat.min_eq_right (by omega), Nat.sub_eq_zero_of_le (by omega)]
    simp [someRejected]

theorem someRejected_first {outcome : Nat → BulkOutcome} {count : Nat}
    (h : count ≤ 10) :
    someRejected outcome count = true ↔
      ∃ i < count, (outcome 0).rejectsItem i = true := by
  unfold someRejected
  rw [List.any_eq_true]
  constructor
  · intro hany
    rcases hany with ⟨i, hi, hreject⟩
    rw [List.mem_range] at hi
    exact ⟨i, hi, by rwa [rejectedAt_of_lt (by omega)] at hreject⟩
  · intro hany
    rcases hany with ⟨i, hi, hreject⟩
    exact ⟨i, List.mem_range.mpr hi, by rwa [rejectedAt_of_lt (by omega)]⟩

omit [Document T] in
/-- The batches that are sent: those with no rejected item in front of
them. -/
def sentBatches (outcome : Nat → BulkOutcome) (documents : List (Option T)) :
    List (List (Option T)) :=
  (batchesOf 10 documents).zipIdx.filterMap fun batch =>
    if someRejected outcome (10 * batch.2) then none else some batch.1

omit [Document T] in
/-- The first request, and the rest if it has no rejected item. -/
theorem sentBatches_split (outcome : Nat → BulkOutcome)
    {documents : List (Option T)} (h : documents ≠ []) :
    sentBatches outcome documents
      = documents.take 10 ::
        if someRejected outcome (min 10 documents.length) then []
        else sentBatches (later outcome) (documents.drop 10) := by
  have hnext : ∀ b, someRejected outcome (10 * (1 + b))
      = (someRejected outcome 10 || someRejected (later outcome) (10 * b)) := by
    intro b
    rw [someRejected_split, Nat.min_eq_left (by omega),
      show 10 * (1 + b) - 10 = 10 * b by omega]
  unfold sentBatches
  rw [batchesOf_of_ne_nil (by omega) h, List.zipIdx_cons, Nat.zero_add,
    List.zipIdx_eq_map_add]
  -- nothing is in front of the first batch
  show documents.take 10 :: List.filterMap _ (List.map _ _) = _
  rw [List.filterMap_map]
  congr 1
  by_cases hlong : 10 ≤ documents.length
  · rw [Nat.min_eq_left hlong]
    cases hrejected : someRejected outcome 10 with
    | true => simp [hnext, hrejected]
    | false => simp [hnext, hrejected]
  · have hnil : batchesOf 10 ([] : List (Option T)) = [] := rfl
    rw [List.drop_eq_nil_of_le (by omega), hnil]
    simp

omit [Document T] in
/-- A document that is stored is one of the documents. -/
theorem mem_of_mem_storedDocuments {outcome : Nat → BulkOutcome}
    {documents : List (Option T)} {d : T}
    (h : d ∈ storedDocuments outcome documents) : some d ∈ documents := by
  obtain ⟨p, hp, hsome⟩ := List.mem_filterMap.mp h
  split_ifs at hsome with hstored
  rw [← hsome]
  exact List.fst_mem_of_mem_zipIdx hp

/-- The loop over the batches of some documents.  The induction is on their
number. -/
theorem processBatches_eq (json : JsonConvert) (config : ELKConfiguration)
    (count : Nat) : ∀ (documents : List (Option T)), documents.length = count →
    ∀ (outcome : Nat → BulkOutcome) (s : BulkState T),
      ∃ result, processBatches json config outcome 0
          (batchesOf 10 documents) s
        = (s.sent (sentBatches outcome documents)
            (storedDocuments outcome documents), result) ∧
      ((∃ e, result = .error e) ↔ someRejected outcome count = true) := by
  induction count using Nat.strong_induction_on with
  | _ count ih =>
    intro documents hcount outcome s
    subst hcount
    by_cases hdocuments : documents = []
    · subst hdocuments
      exact ⟨.ok (), Prod.ext s.sent_nil.symm rfl, by simp [someRejected]⟩
    have hpos : 0 < documents.length := List.length_pos_iff.mpr hdocuments
    obtain ⟨first, hfirst, hthrows⟩ := processBatch_eq json config
      (documents.take 10) (outcome 0) s
    rw [List.length_take, ← someRejected_first (by omega)] at hthrows
    have hsplit := someRejected_split outcome documents.length
    rw [batchesOf_of_ne_nil (by omega) hdocuments, storedDocuments_split,
      sentBatches_split outcome hdocuments]
    unfold processBatches
    rw [hfirst]
    cases first with
    | error e =>
      have hrejected := hthrows.mp ⟨e, rfl⟩
      refine ⟨.error e, ?_, ?_⟩
      · simp [hrejected]
      · simp [hsplit, hrejected]
    | ok _ =>
      have hnot : someRejected outcome (min 10 documents.length) = false := by
        rw [Bool.eq_false_iff]
        intro hrejected
        obtain ⟨e, he⟩ := hthrows.mpr hrejected
        cases he
      obtain ⟨result, hrest, hiff⟩ := ih (documents.length - 10) (by omega)
        (documents.drop 10) List.length_drop (later outcome)
        (s.sent [documents.take 10]
          (storedBatch (outcome 0) (documents.take 10)))
      rw [s.sent_sent] at hrest
      refine ⟨result, ?_, ?_⟩
      · rw [hnot, if_neg (by simp), if_neg (by simp)]
        show processBatches json config outcome 1 _ _ = _
        rw [processBatches_later, hrest]
        rfl
      · rw [hiff, hsplit, hnot, Bool.false_or]

/-- `ProcessBulk` sends a batch when no item of an earlier one is rejected,
stores a document of it when its own item is accepted, records nothing, and
throws when an item is rejected. -/
theorem processBulk_eq (json : JsonConvert) (config : ELKConfiguration)
    (documents : List (Option T)) (outcome : Nat → BulkOutcome)
    (s : BulkState T) :
    ∃ result, processBulk json config documents outcome s
        = (s.sent (sentBatches outcome documents)
            (storedDocuments outcome documents), result) ∧
      ((∃ e, result = .error e) ↔
        someRejected outcome documents.length = true) :=
  processBatches_eq json config _ documents rfl outcome s

end ProcessBulk

/-! ## The persons of some documents -/

/-- A document whose cast can be read. -/
def readableCast (document : Option ShowDetails) : Bool :=
  document.any fun d => decide d.ReadableCast

/-- The entries of the cast of a document. -/
def entriesOf (document : Option ShowDetails) : List (Option Cast) :=
  document.elim [] ShowDetails.castEntries

/-- The persons of the casts of some documents. -/
def castPersonsOf (documents : List (Option ShowDetails)) :
    List (Option Person) :=
  (documents.flatMap entriesOf).map fun c => c.bind Cast.person

theorem readableCast_iff {document : Option ShowDetails} :
    readableCast document = true ↔ ∃ d, document = some d ∧ d.ReadableCast := by
  cases document with
  | none => simp [readableCast]
  | some d => simp [readableCast]

/-- The cast of a document is read without an exception when there is one. -/
theorem castOf_ok {document : Option ShowDetails}
    {cast : List (Option Cast)} (h : castOf document = .ok cast) :
    cast = entriesOf document ∧
      ∃ d, document = some d ∧ (d._embedded.bind Embedded.cast).isSome := by
  unfold castOf at h
  split at h
  · cases h
  · split at h
    · cases h
    · split at h
      · cases h
      · rename_i d _ e hembedded _ entries hcast
        cases h
        refine ⟨?_, d, rfl, ?_⟩
        · simp [entriesOf, ShowDetails.castEntries, hembedded, hcast]
        · simp [hembedded, hcast]

/-- The persons are read when every document has a readable cast. -/
theorem selectPersons_of_all_readable {documents : List (Option ShowDetails)}
    (h : documents.all readableCast = true) :
    selectPersons documents = .ok (castPersonsOf documents) := by
  rw [List.all_eq_true] at h
  have hcasts : documents.mapM castOf = .ok (documents.map entriesOf) := by
    apply ExceptList.mapM_ok
    intro document hdocument
    obtain ⟨d, rfl, hd⟩ := readableCast_iff.mp (h document hdocument)
    exact castOf_of_readable hd
  unfold selectPersons
  rw [hcasts]
  show (documents.flatMap entriesOf).mapM personOf = _
  apply ExceptList.mapM_ok
  intro c hc
  obtain ⟨document, hdocument, hmem⟩ := List.mem_flatMap.mp hc
  obtain ⟨d, rfl, hd⟩ := readableCast_iff.mp (h document hdocument)
  cases c with
  | none => exact absurd (hd.2 none hmem) (by simp)
  | some c => rfl

/-- The persons are read only when every document has a readable cast. -/
theorem all_readable_of_selectPersons {documents : List (Option ShowDetails)}
    {persons : List (Option Person)}
    (h : selectPersons documents = .ok persons) :
    documents.all readableCast = true := by
  obtain ⟨casts, hcasts, hpersons⟩ := ExceptList.bind_ok h
  have hentries : casts.map id = documents.map entriesOf :=
    ExceptList.map_of_mapM_ok (fun _ _ hcast => (castOf_ok hcast).1) hcasts
  rw [List.map_id] at hentries
  subst hentries
  rw [List.all_eq_true]
  intro document hdocument
  obtain ⟨cast, hcast⟩ := ExceptList.ok_of_mapM_ok hcasts hdocument
  obtain ⟨_, d, rfl, hsome⟩ := castOf_ok hcast
  refine readableCast_iff.mpr ⟨d, rfl, hsome, fun c hc => ?_⟩
  have hmem : c ∈ (documents.map entriesOf).flatten :=
    List.mem_flatten_of_mem (List.mem_map_of_mem hdocument) hc
  obtain ⟨person, hperson⟩ := ExceptList.ok_of_mapM_ok hpersons hmem
  cases c with
  | none => cases hperson
  | some c => rfl

/-! ## `LoadData` -/

/-- The shows that a `LoadData` stores. -/
def storedShows (writes : WriteOutcomes)
    (documents : List (Option ShowDetails)) : List ShowDetails :=
  match documents with
  | [document] => if writes.index then document.toList else []
  | documents => storedDocuments writes.showBulk documents

/-- The persons that a `LoadData` stores.  They come after the shows, so a
rejected show or a cast that can not be read is in their way. -/
def storedPersons (writes : WriteOutcomes)
    (documents : List (Option ShowDetails)) : List Person :=
  if documents.length ≤ 1
      ∨ someRejected writes.showBulk documents.length = true
      ∨ documents.all readableCast = false then []
  else storedDocuments writes.personBulk (castPersonsOf documents)

theorem mem_of_mem_storedShows {writes : WriteOutcomes}
    {documents : List (Option ShowDetails)} {d : ShowDetails}
    (h : d ∈ storedShows writes documents) : some d ∈ documents := by
  unfold storedShows at h
  split at h
  · split_ifs at h with hindex
    · simpa [eq_comm] using h
    · cases h
  · exact mem_of_mem_storedDocuments h

/-- A person that is stored is in the cast of one of the documents. -/
theorem mem_of_mem_storedPersons {writes : WriteOutcomes}
    {documents : List (Option ShowDetails)} {person : Person}
    (h : person ∈ storedPersons writes documents) :
    ∃ d, some d ∈ documents ∧ person ∈ d.castPersons := by
  unfold storedPersons at h
  split_ifs at h with hnone
  · cases h
  · obtain ⟨c, hc, hperson⟩ :=
      List.mem_map.mp (mem_of_mem_storedDocuments h)
    obtain ⟨document, hdocument, hentry⟩ := List.mem_flatMap.mp hc
    cases document with
    | none => cases hentry
    | some d =>
      exact ⟨d, hdocument, List.mem_filterMap.mpr ⟨c, hentry, hperson⟩⟩

/-- A `LoadData` throws. -/
def loadThrows (writes : WriteOutcomes)
    (documents : List (Option ShowDetails)) : Bool :=
  match documents with
  | [document] => document.isNone
  | documents =>
    someRejected writes.showBulk documents.length
      || !documents.all readableCast
      || someRejected writes.personBulk (castPersonsOf documents).length

/-- The bulk path, whatever becomes of its requests. -/
theorem loadBulk_eq (json : JsonConvert) (config : ELKConfiguration)
    (writes : WriteOutcomes) {documents : List (Option ShowDetails)}
    (h : 2 ≤ documents.length) (st : Storage) :
    ∃ result, loadBulk json config writes documents st
        = ({ shows := st.shows.putAll
                (storedDocuments writes.showBulk documents)
             persons := st.persons.putAll (storedPersons writes documents)
             unprocessed := st.unprocessed }, result) ∧
      ((∃ e, result = .error e) ↔
        (someRejected writes.showBulk documents.length
          || !documents.all readableCast
          || someRejected writes.personBulk
              (castPersonsOf documents).length) = true) := by
  obtain ⟨first, hfirst, hthrows⟩ := processBulk_eq json config documents
    writes.showBulk
    { index := st.shows, context := .newScope st.unprocessed, requests := [] }
  unfold loadBulk storedPersons
  rw [hfirst]
  cases first with
  | error e =>
    have hrejected := hthrows.mp ⟨e, rfl⟩
    refine ⟨.error e, ?_, by simp [hrejected]⟩
    rw [if_pos (.inr (.inl hrejected))]
    rfl
  | ok _ =>
    have hnot : someRejected writes.showBulk documents.length = false := by
      rw [Bool.eq_false_iff]
      intro hrejected
      obtain ⟨e, he⟩ := hthrows.mpr hrejected
      cases he
    cases hselect : selectPersons documents with
    | error e =>
      have hunreadable : documents.all readableCast = false := by
        rw [Bool.eq_false_iff]
        intro hall
        rw [selectPersons_of_all_readable hall] at hselect
        cases hselect
      refine ⟨.error e, ?_, by simp [hunreadable]⟩
      rw [if_pos (.inr (.inr hunreadable))]
      rfl
    | ok persons =>
      have hall := all_readable_of_selectPersons hselect
      rw [selectPersons_of_all_readable hall] at hselect
      cases hselect
      obtain ⟨result, hrest, hiff⟩ := processBulk_eq json config
        (castPersonsOf documents) writes.personBulk
        { index := st.persons, context := .newScope st.unprocessed,
          requests := [] }
      refine ⟨result, ?_, by rw [hiff, hnot, hall]; simp⟩
      rw [hnot, hall, if_neg (by simp; omega)]
      simp only [BulkState.sent, hrest]
      rfl

/-- What `LoadData` stores, and when it throws, whatever becomes of its
requests. -/
theorem loadData_eq (json : JsonConvert) (config : ELKConfiguration)
    (writes : WriteOutcomes) (documents : List (Option ShowDetails))
    (st : Storage) :
    ∃ result, loadData json config writes documents st
        = ({ shows := st.shows.putAll (storedShows writes documents)
             persons := st.persons.putAll (storedPersons writes documents)
             unprocessed := st.unprocessed }, result) ∧
      ((∃ e, result = .error e) ↔ loadThrows writes documents = true) := by
  match documents with
  | [] => exact ⟨.ok (), rfl, by simp [loadThrows, someRejected,
      castPersonsOf]⟩
  | [document] =>
    unfold loadData loadSingle storedShows loadThrows
    cases document with
    | none => exact ⟨.error .nullReference, by simp [storedPersons], by simp⟩
    | some d =>
      cases writes.index with
      | false => exact ⟨.ok (), by simp [storedPersons], by simp⟩
      | true =>
        refine ⟨.ok (), ?_, by simp⟩
        simp [storedPersons]
  | x :: y :: rest =>
    rw [loadData_of_two_le json config writes (by simp)]
    exact loadBulk_eq json config writes (by simp) st

end TvMazeScraper
