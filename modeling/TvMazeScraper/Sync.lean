import TvMazeScraper.Drain

/-!
# The delta synchronisation

A listing of positive ids in decimal, an empty queue, and external calls that
all succeed.  `LoadUrls` queues the listed shows that are not indexed, the
cycles drain the queue, and the next `LoadUrls` finds nothing to do.

* `missingUrls_listed`: the missing URLs are those of the listed ids that are
  not indexed.
* `sync_keys`: the ids in the index when the queue is drained.
* `sync_fixpoint`: the three stages together.
-/

namespace TvMazeScraper

/-- TVMaze answers the listing with these ids, in decimal. -/
def Lists (json : JsonConvert) (listing : HttpOutcome) (ids : List Int32) :
    Prop :=
  ∃ body dict, listing = .success body ∧
    json.deserializeUpdates body = .ok (some dict) ∧
    dict.keys = ids.map toString

/-- The URL of the show with that id. -/
def urlOf (id : Int32) : String := showUrl (toString id)

section Sync

variable {json : JsonConvert} {config : ELKConfiguration}
  {listing : HttpOutcome} {ids : List Int32}

theorem Lists.getShowsId (h : Lists json listing ids) :
    getShowsId json listing = .ok (ids.map toString) := by
  rcases h with ⟨body, dict, rfl, hdict, hkeys⟩
  unfold TvMazeScraper.getShowsId
  simp only [hdict, hkeys]

/-- A listing has each id once. -/
theorem Lists.nodup (h : Lists json listing ids) : ids.Nodup := by
  rcases h with ⟨body, dict, rfl, hdict, hkeys⟩
  have hnodup := dict.nodup
  rw [hkeys] at hnodup
  exact hnodup.of_map

/-- Two positive ids have two URLs. -/
theorem urlOf_inj {i j : Int32} (hi : 0 < i) (hj : 0 < j)
    (h : urlOf i = urlOf j) : i = j := by
  have htext : toString i = toString j := showUrl_injective h
  have hparse := int32Parse_toString hi
  rw [htext, int32Parse_toString hj] at hparse
  exact (Except.ok.inj hparse).symm

/-- The listed ids that are not indexed. -/
def unindexed (ids : List Int32) (index : Index ShowDetails) : List Int32 :=
  ids.filter fun i => i ∉ index.keys

/-- `LoadUrls` finds the URLs of the listed ids that are not indexed. -/
theorem missingUrls_listed (hlists : Lists json listing ids)
    (hpos : ∀ i ∈ ids, 0 < i) {reads : ReadOutcomes} (hreads : reads.Answered)
    (index : Index ShowDetails) :
    missingUrls json listing reads index
      = .ok ((unindexed ids index).map urlOf) := by
  unfold missingUrls
  rw [getAllShowsUrl_of_positive hpos hlists.getShowsId]
  show findMissingUrls reads index _ = _
  rw [findMissingUrls_answered hreads, List.filter_map, List.map_map]
  have hfilter : ids.filter
      ((fun p : Int32 × String => decide ¬Readable index p.1) ∘
        fun i => (i, showUrl (toString i))) = unindexed ids index := by
    apply List.filter_congr
    intro i hi
    show decide (¬ Readable index i) = decide (i ∉ index.keys)
    refine decide_eq_decide.mpr (not_congr ?_)
    exact and_iff_left (hpos i hi)
  rw [hfilter]
  rfl

/-- `LoadUrls` on an empty queue queues the missing URLs, whether the load is
forced or not. -/
theorem loadUrls_of_empty {w : World} (hempty : w.queue.rows = [])
    {forceLoad : Bool} {reads : ReadOutcomes} {urls : List String}
    (hmissing : missingUrls json listing reads w.storage.shows = .ok urls) :
    loadUrls json forceLoad listing reads w
      = ({ w with queue := w.queue.addRange urls }, .ok ()) := by
  unfold loadUrls
  have hstill : stillProcessing forceLoad w.queue = false := by
    unfold stillProcessing
    rw [hempty]
    simp
  simp only [hmissing, hstill]
  rfl

section Drained

variable {resp : String → ShowDetails} {w w' w'' : World}
  {taken : List (List ConsumerQueueItem)}

/-- The ids in the index when the queued URLs of a listing are drained. -/
theorem sync_keys (hresp : ∀ i ∈ ids, (resp (urlOf i)).id = i)
    (hurls : w'.queue.urls = (unindexed ids w.storage.shows).map urlOf)
    (hshows : w'.storage.shows = w.storage.shows)
    (hrun : (draining json config resp).Run w' taken w'')
    (hempty : w''.queue.rows = []) :
    w''.storage.shows.keys = w.storage.shows.keys ∪ ids.toFinset := by
  have hof : ∀ u ∈ w'.queue.urls, ∃ i ∈ unindexed ids w.storage.shows,
      urlOf i = u := by
    intro u hu
    rw [hurls] at hu
    exact List.mem_map.mp hu
  have hlisted : ∀ i ∈ unindexed ids w.storage.shows, i ∈ ids :=
    fun i hi => List.mem_of_mem_filter hi
  have hinj : ∀ u ∈ w'.queue.urls, ∀ v ∈ w'.queue.urls,
      (resp u).id = (resp v).id → u = v := by
    intro u hu v hv hid
    obtain ⟨i, hi, rfl⟩ := hof u hu
    obtain ⟨j, hj, rfl⟩ := hof v hv
    rw [hresp i (hlisted i hi), hresp j (hlisted j hj)] at hid
    rw [hid]
  have hindex := overridden_of_drained hinj hrun hempty
  ext id
  rw [hindex.mem_keys, hshows, Finset.mem_union, List.mem_toFinset]
  apply or_congr_right'
  intro hnot
  constructor
  · intro h
    rcases h with ⟨u, hu, hid⟩
    obtain ⟨i, hi, rfl⟩ := hof u hu
    rw [hresp i (hlisted i hi)] at hid
    rw [← hid]
    exact hlisted i hi
  · intro hid
    refine ⟨urlOf id, ?_, hresp id hid⟩
    rw [hurls]
    apply List.mem_map_of_mem
    rw [unindexed, List.mem_filter, decide_eq_true_iff]
    exact ⟨hid, hnot⟩

/-- When every listed id is indexed, a `LoadUrls` on an empty queue changes
nothing. -/
theorem loadUrls_of_synced (hlists : Lists json listing ids)
    (hpos : ∀ i ∈ ids, 0 < i) (hempty : w.queue.rows = [])
    (hindexed : ∀ i ∈ ids, i ∈ w.storage.shows.keys) {forceLoad : Bool}
    {reads : ReadOutcomes} (hreads : reads.Answered) :
    loadUrls json forceLoad listing reads w = (w, .ok ()) := by
  have hnone : unindexed ids w.storage.shows = [] := by
    rw [unindexed, List.filter_eq_nil_iff]
    intro i hi
    simpa using hindexed i hi
  have hmissing := missingUrls_listed hlists hpos hreads w.storage.shows
  rw [hnone] at hmissing
  rw [loadUrls_of_empty hempty hmissing]
  show ({ w with queue := w.queue.addRange [] }, _) = _
  rw [ConsumerQueue.addRange_nil]

end Drained

/-- One `LoadUrls` on an empty queue queues each listed id that is not
indexed once and nothing else.  `⌈n / 20⌉` cycles later the queue is empty
and the indexed ids are the old ones and the listed ones, and then another
`LoadUrls` adds no row. -/
theorem sync_fixpoint (config : ELKConfiguration)
    (hlists : Lists json listing ids) (hpos : ∀ i ∈ ids, 0 < i)
    (resp : String → ShowDetails) (hresp : ∀ i ∈ ids, (resp (urlOf i)).id = i)
    (w : World) (hempty : w.queue.rows = []) (forceLoad : Bool)
    (reads : ReadOutcomes) (hreads : reads.Answered) :
    ∃ w', loadUrls json forceLoad listing reads w = (w', .ok ()) ∧
      w'.storage = w.storage ∧
      w'.queue.urls = (unindexed ids w.storage.shows).map urlOf ∧
      w'.queue.urls.Nodup ∧
      ∀ w'' taken, (draining json config resp).Run w' taken w'' →
        (w'.queue.rows.length + 19) / 20 ≤ taken.length →
        w''.queue.rows = [] ∧
          w''.storage.shows.keys = w.storage.shows.keys ∪ ids.toFinset ∧
          ∀ reads' : ReadOutcomes, reads'.Answered →
            loadUrls json false listing reads' w'' = (w'', .ok ()) := by
  have hmissing := missingUrls_listed hlists hpos hreads w.storage.shows
  have hurls : (w.queue.addRange
      ((unindexed ids w.storage.shows).map urlOf)).urls
        = (unindexed ids w.storage.shows).map urlOf := by
    rw [ConsumerQueue.addRange_urls, ConsumerQueue.urls, hempty]
    rfl
  refine ⟨_, loadUrls_of_empty hempty hmissing, rfl, hurls, ?_, ?_⟩
  · show (w.queue.addRange _).urls.Nodup
    rw [hurls]
    refine List.Nodup.map_on ?_ (hlists.nodup.filter _)
    intro i hi j hj he
    exact urlOf_inj (hpos i (List.mem_of_mem_filter hi))
      (hpos j (List.mem_of_mem_filter hj)) he
  · intro w'' taken hrun hcycles
    have hdrained : w''.queue.rows = [] := by
      rw [← List.length_eq_zero_iff, drain_length hrun]
      omega
    have hkeys := sync_keys hresp hurls rfl hrun hdrained
    refine ⟨hdrained, hkeys, fun reads' hreads' => ?_⟩
    refine loadUrls_of_synced hlists hpos hdrained ?_ hreads'
    intro i hi
    rw [hkeys, Finset.mem_union, List.mem_toFinset]
    exact .inr hi

end Sync

/-! ### A listing of two shows, one of them indexed -/

/-- Show 1 is indexed and the queue is empty. -/
def oneIndexed : World where
  queue := .empty
  storage := { Storage.empty with shows := KeyedStore.empty.put { id := 1 } }

/-- The shows 1 and 2 have bodies. -/
theorem twoListed_body (url : String) :
    ∃ body, twoListed.deserializeShowDetails body
      = .ok (some (twoShows url)) := by
  unfold twoShows
  by_cases hurl : url = showUrl "1"
  · rw [if_pos hurl]
    exact ⟨"\x7b\"id\":1\x7d", rfl⟩
  · rw [if_neg hurl]
    exact ⟨"\x7b\"id\":2\x7d", rfl⟩

/-- One cycle drains the queue, and then there is nothing to do. -/
theorem sync_fixpoint_two :
    ∃ w' taken w'', loadUrls twoListed false
          (.success "\x7b\"1\":1,\"2\":1\x7d") answeredReads oneIndexed
        = (w', .ok ()) ∧
      w'.queue.urls = [urlOf 2] ∧
      (draining twoListed { index := "tv" } twoShows).Run w' taken w'' ∧
      taken.length = 1 ∧ w''.queue.rows = [] ∧
      w''.storage.shows.keys = {1, 2} ∧
      loadUrls twoListed false (.success "\x7b\"1\":1,\"2\":1\x7d")
        answeredReads w'' = (w'', .ok ()) := by
  have hlists : Lists twoListed (.success "\x7b\"1\":1,\"2\":1\x7d")
      [1, 2] := ⟨_, _, rfl, rfl, by decide⟩
  have hpos : ∀ i ∈ ([1, 2] : List Int32), 0 < i := by
    rw [List.forall_mem_cons, List.forall_mem_singleton]
    decide
  have hresp : ∀ i ∈ ([1, 2] : List Int32),
      (twoShows (urlOf i)).id = i := by
    rw [List.forall_mem_cons, List.forall_mem_singleton]
    decide
  obtain ⟨w', hload, _, hurls, _, hrest⟩ := sync_fixpoint
    { index := "tv" } hlists hpos twoShows hresp oneIndexed rfl false
    answeredReads answeredReads_answered
  have hurl : w'.queue.urls = [urlOf 2] := hurls
  have hrows : w'.queue.rows.length = 1 := by
    have hlength := congrArg List.length hurl
    rwa [ConsumerQueue.urls, List.length_map] at hlength
  obtain ⟨taken, w'', hrun, hlength⟩ := exists_draining (w := w')
    { index := "tv" } (fun r _ => twoListed_body r.UrlToProcess) 1
  obtain ⟨hdrained, hkeys, hagain⟩ := hrest w'' taken hrun (by omega)
  exact ⟨w', taken, w'', hload, hurl, hrun, hlength, hdrained, hkeys,
    hagain answeredReads answeredReads_answered⟩

end TvMazeScraper
