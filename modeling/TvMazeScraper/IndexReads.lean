import TvMazeScraper.Consumer

/-!
# Reading the ids of the show index

`FindMissingUrls` decides from the pages it reads which URLs are missing.
When every search is answered it decides exactly.  A search that fails gives
a response without documents, which the loop takes for the end of the index.

* `readIndex_ends`: the loop ends, whichever searches are answered.
* `findMissingUrls_exact`: with positive ids and answered searches the result
  is exact.
* `findMissingUrls_safe_iff` and `loadUrls_safe_iff`: when no URL of an
  indexed show is returned, or queued.
* `failedReads_safe_iff`: both together.
-/

namespace TvMazeScraper

/-! ## Answered searches -/

/-- The `while (true)` loop with a bound on the number of searches. -/
def readIndexWithin (searches : Nat) (reads : ReadOutcomes)
    (index : Index ShowDetails) : Option (List ShowDetails) :=
  (Paging.scrollWithin 10000 (fun n => reads.openPit && reads.search n)
    (sortedIds index) searches 0 0).map fun ids =>
      ids.map fun id => { id := id }

/-- One search more than there are positive ids is enough. -/
theorem readIndex_ends (reads : ReadOutcomes) (index : Index ShowDetails) :
    readIndexWithin (((sortedIds index).filter (0 < ·)).length + 1) reads index
      = some (readIndex reads index) := by
  unfold readIndexWithin
  rw [Paging.scrollWithin_eq (Nat.lt_succ_self _)]
  rfl

/-- Positive ids are the ids that the loop finds. -/
theorem readable_iff {index : Index ShowDetails}
    (hpositive : ∀ id ∈ index.keys, 0 < id) {id : Int32} :
    Readable index id ↔ id ∈ index.keys :=
  and_iff_left_of_imp (hpositive id)

/-- With positive ids and answered searches, the loop ends, it reads every
indexed document once, `ToDictionary` does not throw, and the result is the
URLs of exactly those pairs whose id is not indexed. -/
theorem findMissingUrls_exact {index : Index ShowDetails}
    (hpositive : ∀ id ∈ index.keys, 0 < id) {reads : ReadOutcomes}
    (hanswered : reads.Answered) (fetchedIds : List (Int32 × String)) :
    (∃ searches, readIndexWithin searches reads index
        = some (readIndex reads index)) ∧
      ((readIndex reads index).map ShowDetails.id).Nodup ∧
      (∀ id, id ∈ (readIndex reads index).map ShowDetails.id ↔
        id ∈ index.keys) ∧
      (∃ ids, toDictionary ((readIndex reads index).map ShowDetails.id)
        = .ok ids) ∧
      findMissingUrls reads index fetchedIds
        = .ok ((fetchedIds.filter fun p => p.1 ∉ index.keys).map
            Prod.snd) := by
  refine ⟨⟨_, readIndex_ends reads index⟩, readIndex_nodup reads index, ?_,
    ⟨_, toDictionary_readIndex reads index⟩, ?_⟩
  · intro id
    rw [readIndex_ids hanswered, mem_sortedIds_filter, readable_iff hpositive]
  · rw [findMissingUrls_answered hanswered]
    congr 2
    apply List.filter_congr
    intro p _
    exact decide_eq_decide.mpr (not_congr (readable_iff hpositive))

/-- The shows 7, 1 and 3 are indexed. -/
def threeIndexed : Index ShowDetails :=
  KeyedStore.empty.putAll [{ id := 7 }, { id := 1 }, { id := 3 }]

theorem mem_threeIndexed {id : Int32} :
    id ∈ threeIndexed.keys ↔ id = 7 ∨ id = 1 ∨ id = 3 := by
  have hempty : id ∉ (KeyedStore.empty : Index ShowDetails).keys := by
    simp [KeyedStore.mem_keys]
  unfold threeIndexed
  rw [KeyedStore.mem_putAll, or_iff_right hempty]
  show (∃ d ∈ [({ id := 7 } : ShowDetails), { id := 1 }, { id := 3 }],
    d.id = id) ↔ _
  simp [eq_comm]

/-- The shows 2 and 9 of four listed ones are missing. -/
theorem findMissingUrls_exact_four :
    (∃ searches, readIndexWithin searches answeredReads threeIndexed
        = some (readIndex answeredReads threeIndexed)) ∧
      (∀ id, id ∈ (readIndex answeredReads threeIndexed).map ShowDetails.id ↔
        id = 7 ∨ id = 1 ∨ id = 3) ∧
      findMissingUrls answeredReads threeIndexed
          [(9, showUrl "9"), (1, showUrl "1"), (2, showUrl "2"),
            (3, showUrl "3")]
        = .ok [showUrl "9", showUrl "2"] := by
  have hpositive : ∀ id ∈ threeIndexed.keys, 0 < id := by
    intro id hid
    rcases mem_threeIndexed.mp hid with rfl | rfl | rfl <;> decide
  obtain ⟨hends, _, hids, _, hmissing⟩ := findMissingUrls_exact hpositive
    answeredReads_answered [(9, showUrl "9"), (1, showUrl "1"),
      (2, showUrl "2"), (3, showUrl "3")]
  refine ⟨hends, fun id => (hids id).trans mem_threeIndexed, ?_⟩
  rw [hmissing]
  simp [mem_threeIndexed]

/-! ## Searches that fail -/

/-- The URL of a listed show that is in the index. -/
def UrlOfIndexed (index : Index ShowDetails)
    (fetchedIds : List (Int32 × String)) (url : String) : Prop :=
  ∃ p ∈ fetchedIds, p.2 = url ∧ p.1 ∈ index.keys

/-- `FindMissingUrls` signals a failure or returns no URL of an indexed
show. -/
def MissingSafe (reads : ReadOutcomes) (index : Index ShowDetails)
    (fetchedIds : List (Int32 × String)) : Prop :=
  (∃ e, findMissingUrls reads index fetchedIds = .error e) ∨
    ∃ urls, findMissingUrls reads index fetchedIds = .ok urls ∧
      ∀ url ∈ urls, ¬ UrlOfIndexed index fetchedIds url

/-- `LoadUrls` leaves the queue alone or adds no URL of an indexed show. -/
def LoadSafe (json : JsonConvert) (forceLoad : Bool) (listing : HttpOutcome)
    (reads : ReadOutcomes) (w : World) : Prop :=
  ∃ added, (loadUrls json forceLoad listing reads w).1.queue
      = w.queue.addRange added ∧
    ∀ urlsAll, getAllShowsUrl json listing = .ok urlsAll →
      ∀ url ∈ added, ¬ UrlOfIndexed w.storage.shows urlsAll url

/-- No URL of an indexed show is returned if and only if the loop reads the
ids of all listed shows with such a URL. -/
theorem findMissingUrls_safe_iff {reads : ReadOutcomes}
    {index : Index ShowDetails} {fetchedIds : List (Int32 × String)} :
    MissingSafe reads index fetchedIds ↔
      ∀ p ∈ fetchedIds, p.1 ∈ index.keys →
        ∀ q ∈ fetchedIds, q.2 = p.2 → Found reads index q.1 := by
  unfold MissingSafe
  rw [findMissingUrls_eq]
  constructor
  · intro h p hp hindexed q hq hurl
    rcases h with ⟨e, he⟩ | ⟨urls, hurls, hsafe⟩
    · cases he
    · cases hurls
      by_contra hfound
      refine hsafe q.2 ?_ ⟨p, hp, hurl.symm, hindexed⟩
      exact List.mem_map_of_mem (List.mem_filter.mpr ⟨hq, by simpa⟩)
  · intro h
    refine .inr ⟨_, rfl, ?_⟩
    intro url hurl hindexed
    obtain ⟨q, hq, rfl⟩ := List.mem_map.mp hurl
    rcases hindexed with ⟨p, hp, hpq, hkey⟩
    obtain ⟨hmem, hnot⟩ := List.mem_filter.mp hq
    exact of_decide_eq_true hnot (h p hp hkey q hmem hpq.symm)

/-- The listed URLs are pairwise distinct, so only the id of the show itself
has to be read. -/
theorem safe_of_listing {json : JsonConvert} {listing : HttpOutcome}
    {urlsAll : List (Int32 × String)}
    (hlisting : getAllShowsUrl json listing = .ok urlsAll)
    {reads : ReadOutcomes} {index : Index ShowDetails} :
    MissingSafe reads index urlsAll ↔
      ∀ p ∈ urlsAll, p.1 ∈ index.keys → Found reads index p.1 := by
  rw [findMissingUrls_safe_iff]
  constructor
  · intro h p hp hindexed
    exact h p hp hindexed p hp rfl
  · intro h p hp hindexed q hq hurl
    have hqp : q = p :=
      List.inj_on_of_nodup_map (getAllShowsUrl_nodup hlisting) hq hp hurl
    rw [hqp]
    exact h p hp hindexed

/-- A `LoadUrls` that does not return early queues what `FindMissingUrls`
returns. -/
theorem loadUrls_queue {json : JsonConvert} {forceLoad : Bool}
    {listing : HttpOutcome} {reads : ReadOutcomes} {w : World}
    {urlsAll : List (Int32 × String)} {urls : List String}
    (hlisting : getAllShowsUrl json listing = .ok urlsAll)
    (hurls : findMissingUrls reads w.storage.shows urlsAll = .ok urls) :
    (loadUrls json forceLoad listing reads w).1.queue
      = if stillProcessing forceLoad w.queue then w.queue
        else w.queue.addRange urls := by
  have hmissing : missingUrls json listing reads w.storage.shows
      = .ok urls := by
    unfold missingUrls
    rw [hlisting]
    exact hurls
  unfold loadUrls
  rw [hmissing]
  simp only
  split_ifs
  · rfl
  · rfl

theorem addRange_inj {q : ConsumerQueue} {urls urls' : List String}
    (h : q.addRange urls = q.addRange urls') : urls = urls' := by
  have hurls := congrArg ConsumerQueue.urls h
  rw [ConsumerQueue.addRange_urls, ConsumerQueue.addRange_urls] at hurls
  exact List.append_cancel_left hurls

/-- A `LoadUrls` without a listing leaves the queue alone. -/
theorem loadSafe_of_error {json : JsonConvert} {forceLoad : Bool}
    {listing : HttpOutcome} {reads : ReadOutcomes} {w : World} {e : Exn}
    (hlisting : getAllShowsUrl json listing = .error e) :
    LoadSafe json forceLoad listing reads w := by
  refine ⟨[], ?_, ?_⟩
  · have hmissing : missingUrls json listing reads w.storage.shows
        = .error e := by
      unfold missingUrls
      rw [hlisting]
      rfl
    unfold loadUrls
    rw [hmissing, ConsumerQueue.addRange_nil]
  · intro urlsAll hok
    rw [hlisting] at hok
    cases hok

/-- A `LoadUrls` with a listing is as safe as `FindMissingUrls`, unless it
returns early. -/
theorem loadSafe_of_listing {json : JsonConvert} {forceLoad : Bool}
    {listing : HttpOutcome} {reads : ReadOutcomes} {w : World}
    {urlsAll : List (Int32 × String)}
    (hlisting : getAllShowsUrl json listing = .ok urlsAll) :
    LoadSafe json forceLoad listing reads w ↔
      stillProcessing forceLoad w.queue = true ∨
        MissingSafe reads w.storage.shows urlsAll := by
  have hurls := findMissingUrls_eq reads w.storage.shows urlsAll
  have hqueue : (loadUrls json forceLoad listing reads w).1.queue = _ :=
    loadUrls_queue hlisting hurls
  by_cases hstill : stillProcessing forceLoad w.queue = true
  · refine iff_of_true ⟨[], ?_, ?_⟩ (.inl hstill)
    · rw [hqueue, if_pos hstill, ConsumerQueue.addRange_nil]
    · exact fun _ _ url hurl => absurd hurl List.not_mem_nil
  · rw [or_iff_right hstill]
    constructor
    · intro h
      rcases h with ⟨added, hadded, hsafe⟩
      rw [hqueue, if_neg hstill] at hadded
      refine .inr ⟨_, hurls, ?_⟩
      rw [addRange_inj hadded]
      exact hsafe urlsAll hlisting
    · intro h
      refine ⟨_, hqueue.trans (if_neg hstill), ?_⟩
      intro urlsAll' hok
      rw [hlisting] at hok
      cases hok
      rcases h with ⟨e, he⟩ | ⟨urls, hok, hsafe⟩
      · rw [hurls] at he
        cases he
      · rw [hurls] at hok
        cases hok
        exact hsafe

/-- No URL of an indexed show is queued if and only if `LoadUrls` returns
early or the loop reads the id of every listed show that is indexed. -/
theorem loadUrls_safe_iff {json : JsonConvert} {forceLoad : Bool}
    {listing : HttpOutcome} {reads : ReadOutcomes} {w : World} :
    LoadSafe json forceLoad listing reads w ↔
      ∀ urlsAll, getAllShowsUrl json listing = .ok urlsAll →
        stillProcessing forceLoad w.queue = true ∨
          ∀ p ∈ urlsAll, p.1 ∈ w.storage.shows.keys →
            Found reads w.storage.shows p.1 := by
  cases hlisting : getAllShowsUrl json listing with
  | error e =>
    refine iff_of_true (loadSafe_of_error hlisting) ?_
    intro urlsAll hok
    cases hok
  | ok urlsAll =>
    rw [loadSafe_of_listing hlisting, safe_of_listing hlisting]
    constructor
    · intro h urlsAll' hok
      cases hok
      exact h
    · intro h
      exact h urlsAll rfl

/-- A failing read is not taken for an empty index if and only if the loop
reads the ids that decide: those of all listed shows with the URL of an
indexed show and, in a `LoadUrls` that does not return early, those of all
listed shows that are indexed. -/
theorem failedReads_safe_iff (reads : ReadOutcomes)
    (index : Index ShowDetails) (fetchedIds : List (Int32 × String))
    (json : JsonConvert) (forceLoad : Bool) (listing : HttpOutcome)
    (w : World) :
    (MissingSafe reads index fetchedIds ↔
        ∀ p ∈ fetchedIds, p.1 ∈ index.keys →
          ∀ q ∈ fetchedIds, q.2 = p.2 → Found reads index q.1) ∧
      (LoadSafe json forceLoad listing reads w ↔
        ∀ urlsAll, getAllShowsUrl json listing = .ok urlsAll →
          stillProcessing forceLoad w.queue = true ∨
            ∀ p ∈ urlsAll, p.1 ∈ w.storage.shows.keys →
              Found reads w.storage.shows p.1) :=
  ⟨findMissingUrls_safe_iff, loadUrls_safe_iff⟩

/-! ### A point in time that is not opened -/

def closedReads : ReadOutcomes where
  openPit := false
  search _ := true

/-- The index of show 1. -/
def showOneIndex : Index ShowDetails := KeyedStore.empty.put { id := 1 }

theorem mem_showOneIndex {id : Int32} : id ∈ showOneIndex.keys ↔ id = 1 := by
  unfold showOneIndex KeyedStore.keys KeyedStore.put
  rw [Finmap.mem_keys, Finmap.mem_insert]
  exact or_iff_left (Finmap.notMem_empty)

/-- Show 1 is indexed and the queue is empty. -/
def oneShowWorld : World where
  queue := .empty
  storage := { Storage.empty with shows := showOneIndex }

theorem not_found_closed {index : Index ShowDetails} {id : Int32} :
    ¬ Found closedReads index id := by
  intro h
  exact absurd h.2.1 (by decide)

/-- The URL of show 1, which is indexed, is returned and queued. -/
theorem closedReads_not_safe :
    findMissingUrls closedReads showOneIndex [(1, showUrl "1")]
        = .ok [showUrl "1"] ∧
      (loadUrls oneListed false (.success "\x7b\"1\":1\x7d") closedReads
        oneShowWorld).1.queue.urls = [showUrl "1"] ∧
      ¬ MissingSafe closedReads showOneIndex [(1, showUrl "1")] ∧
      ¬ LoadSafe oneListed false (.success "\x7b\"1\":1\x7d") closedReads
        oneShowWorld := by
  have hurls : findMissingUrls closedReads showOneIndex [(1, showUrl "1")]
      = .ok [showUrl "1"] := by
    rw [findMissingUrls_eq]
    simp [not_found_closed]
  have hindexed : (1 : Int32) ∈ showOneIndex.keys := mem_showOneIndex.mpr rfl
  refine ⟨hurls, ?_, ?_, ?_⟩
  · have hqueue : (loadUrls oneListed false (.success "\x7b\"1\":1\x7d")
        closedReads oneShowWorld).1.queue = _ :=
      loadUrls_queue getAllShowsUrl_oneListed hurls
    rw [hqueue]
    rfl
  · intro h
    have hfound := findMissingUrls_safe_iff.mp h _ (List.mem_singleton_self _)
      hindexed _ (List.mem_singleton_self _) rfl
    exact not_found_closed hfound
  · intro h
    have hfound := loadUrls_safe_iff.mp h _ getAllShowsUrl_oneListed
    rcases hfound with hstill | hfound
    · exact absurd hstill (by decide)
    · exact not_found_closed
        (hfound _ (List.mem_singleton_self _) hindexed)

end TvMazeScraper
