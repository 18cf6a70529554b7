import TvMazeScraper.Retention
import TvMazeScraper.Sync

/-!
# The nightly load and the cycles

The recurring job calls `LoadUrls(false)` every night, and the background job
runs a cycle every 11 seconds.  Here the calls follow each other, and nobody
forces a load.  Then a load does nothing as long as a row is queued, and what
it queues is not indexed yet.

* `stored_of_cycle`: a cycle stores shows of rows that it removes.
* `Fresh`: every queued URL is that of a show that is not indexed, and none is
  queued twice.
* `indexed_forever`: a show that is indexed is never changed again.
* `standstill_of_run`: a row whose request always throws stays for ever,
  nothing new is queued, and when at most 20 rows are queued nothing changes
  any more.
-/

namespace TvMazeScraper

open Machine

/-- Loads that are not forced, and cycles, one after the other. -/
def nightly (json : JsonConvert) (config : ELKConfiguration)
    (admitsLoad : HttpOutcome → ReadOutcomes → Prop)
    (admits : ∀ w : World, CycleInput w.queue.rows → Prop) :
    Machine World PipelineCall where
  Step w call w' :=
    match call with
    | .loadUrls => ∃ listing reads, admitsLoad listing reads ∧
        w' = (loadUrls json false listing reads w).1
    | .processDataIncremental => ∃ applicationInfo input, admits w input ∧
        w' = processDataIncremental json config applicationInfo w input

section Nightly

variable {json : JsonConvert} {config : ELKConfiguration}

/-- What a cycle does, whatever the outcomes are: rows only leave, and the
shows that it stores are the bodies of rows that left. -/
theorem stored_of_cycle (json : JsonConvert) (config : ELKConfiguration)
    (w : World) (input : CycleInput w.queue.rows) :
    (consumeLogic json config w input).queue.rows.Sublist w.queue.rows ∧
      ∃ stored, (consumeLogic json config w input).storage.shows
          = w.storage.shows.putAll stored ∧
        ∀ d ∈ stored, ∃ r ∈ input.topTen.picked,
          r ∉ (consumeLogic json config w input).queue.rows ∧
          ∃ body, input.responses r = .success body ∧
            json.deserializeShowDetails body = .ok (some d) := by
  by_cases hfault : input.Faults json
  · rw [consumeLogic_of_fault json config hfault]
    exact ⟨.refl _, [], rfl, by simp⟩
  · rw [consumeLogic_of_no_fault json config hfault]
    refine ⟨List.filter_sublist, ?_⟩
    obtain ⟨shows, persons, hload, hmem⟩ := loadData_cases json config
      input.writes (input.fetched json).shows w.storage
    refine ⟨shows, by rw [hload], fun d hd => ?_⟩
    obtain ⟨r, hr, hadded⟩ := mem_shows.mp (hmem d hd)
    refine ⟨r, hr, fun hstays => ?_, success_of_addedDocument hadded⟩
    have hprocessed : r ∈ (input.fetched json).processedUrls :=
      mem_processedUrls.mpr ⟨hr, by rw [hadded]; rfl⟩
    exact ((ConsumerQueue.mem_without
      fun r hr => processedUrls_subset hr).mp hstays).2 hprocessed

/-- A load that is not forced does nothing when a row is queued. -/
theorem loadUrls_of_queued (listing : HttpOutcome) (reads : ReadOutcomes)
    {w : World} (h : w.queue.rows ≠ []) :
    (loadUrls json false listing reads w).1 = w := by
  have hstill : stillProcessing false w.queue = true := by
    have hpos := List.length_pos_iff.mpr h
    simp [stillProcessing, hpos]
  unfold loadUrls
  cases missingUrls json listing reads w.storage.shows with
  | error e => rfl
  | ok urls =>
    simp only [hstill]
    rfl

/-- A load whose listing fails queues nothing. -/
theorem loadUrls_of_failed {listing : HttpOutcome}
    (hfails : ∀ body, listing ≠ .success body) (forceLoad : Bool)
    (reads : ReadOutcomes) (w : World) :
    (loadUrls json forceLoad listing reads w).1 = w := by
  have hnone : ∀ urls, missingUrls json listing reads w.storage.shows
      = .ok urls → urls = [] := by
    intro urls h
    obtain ⟨urlsAll, hlisted, hmissing⟩ := ExceptList.bind_ok h
    obtain ⟨ids, hids, hurls, _⟩ := getAllShowsUrl_ok hlisted
    have hnil : ids = [] := by
      unfold getShowsId at hids
      cases listing with
      | success body => exact absurd rfl (hfails body)
      | timeout => cases hids
      | _ =>
        cases hids
        rfl
    have hsublist := findMissingUrls_sublist hmissing
    rw [hurls, hnil] at hsublist
    exact List.sublist_nil.mp hsublist
  unfold loadUrls
  cases hmissing : missingUrls json listing reads w.storage.shows with
  | error e => rfl
  | ok urls =>
    rw [hnone urls hmissing]
    by_cases hstill : stillProcessing forceLoad w.queue = true
    · simp only [hstill, if_true]
    · simp only [hstill]
      show ({ w with queue := w.queue.addRange [] } : World) = w
      rw [ConsumerQueue.addRange_nil]

/-! ## Indexed once and for all -/

/-- The body for the URL of a show is that of a show with its id. -/
def Honest (json : JsonConvert) (responses : Responses) : Prop :=
  ∀ r i, 0 < i → r.UrlToProcess = urlOf i → ∀ body d,
    responses r = .success body →
      json.deserializeShowDetails body = .ok (some d) → d.id = i

/-- The listing has positive ids in decimal, or it fails, and every search is
answered. -/
def PositiveListing (json : JsonConvert) (listing : HttpOutcome)
    (reads : ReadOutcomes) : Prop :=
  reads.Answered ∧
    ((∃ ids, Lists json listing ids ∧ ∀ i ∈ ids, 0 < i) ∨
      ∀ body, listing ≠ .success body)

/-- Every queued URL is that of a show that is not indexed, and no URL is
queued twice. -/
structure Fresh (w : World) : Prop where
  unindexed : ∀ u ∈ w.queue.urls, ∃ i, 0 < i ∧ i ∉ w.storage.shows.keys ∧
    u = urlOf i
  nodup : w.queue.urls.Nodup

namespace Fresh

variable {w : World}

/-- A row that left has another URL than a row that stays. -/
theorem url_ne (h : Fresh w) {r r' : ConsumerQueueItem}
    (hr : r ∈ w.queue.rows) (hr' : r' ∈ w.queue.rows) (hne : r ≠ r') :
    r.UrlToProcess ≠ r'.UrlToProcess := by
  intro he
  exact hne (List.inj_on_of_nodup_map h.nodup hr hr' he)

/-- The listed ids that are not indexed are queued when nothing is. -/
theorem load {listing : HttpOutcome} {reads : ReadOutcomes} (h : Fresh w)
    (hadmits : PositiveListing json listing reads) :
    Fresh (loadUrls json false listing reads w).1 := by
  by_cases hempty : w.queue.rows = []
  · rcases hadmits with ⟨hreads, ⟨ids, hlists, hpos⟩ | hfails⟩
    · have hmissing := missingUrls_listed hlists hpos hreads w.storage.shows
      rw [loadUrls_of_empty hempty hmissing]
      have hurls : (w.queue.addRange
          ((TvMazeScraper.unindexed ids w.storage.shows).map urlOf)).urls
            = (TvMazeScraper.unindexed ids w.storage.shows).map urlOf := by
        rw [ConsumerQueue.addRange_urls, ConsumerQueue.urls, hempty]
        rfl
      constructor
      · intro u hu
        replace hu : u ∈ (w.queue.addRange _).urls := hu
        rw [hurls] at hu
        obtain ⟨i, hi, rfl⟩ := List.mem_map.mp hu
        obtain ⟨hlisted, hnot⟩ := List.mem_filter.mp hi
        exact ⟨i, hpos i hlisted, of_decide_eq_true hnot, rfl⟩
      · show (w.queue.addRange _).urls.Nodup
        rw [hurls]
        refine List.Nodup.map_on ?_ (hlists.nodup.filter _)
        intro i hi j hj he
        exact urlOf_inj (hpos i (List.mem_of_mem_filter hi))
          (hpos j (List.mem_of_mem_filter hj)) he
    · rw [loadUrls_of_failed hfails]
      exact h
  · rw [loadUrls_of_queued listing reads hempty]
    exact h

/-- The shows that an honest cycle stores were not indexed, and their URLs are
gone. -/
theorem cycle (h : Fresh w) {input : CycleInput w.queue.rows}
    (hhonest : Honest json input.responses) (config : ELKConfiguration) :
    Fresh (consumeLogic json config w input) ∧
      ∀ k ∈ w.storage.shows.keys,
        (consumeLogic json config w input).storage.shows.get? k
          = w.storage.shows.get? k := by
  obtain ⟨hsublist, stored, hshows, hstored⟩ :=
    stored_of_cycle json config w input
  have hids : ∀ d ∈ stored, ∃ r ∈ w.queue.rows, 0 < d.id ∧
      d.id ∉ w.storage.shows.keys ∧ r.UrlToProcess = urlOf d.id ∧
      r ∉ (consumeLogic json config w input).queue.rows := by
    intro d hd
    obtain ⟨r, hpicked, hgone, body, hresponse, hbody⟩ := hstored d hd
    have hr := input.topTen.mem_of_mem_picked hpicked
    obtain ⟨i, hpos, hnot, hurl⟩ :=
      h.unindexed _ (List.mem_map_of_mem hr)
    have hid := hhonest r i hpos hurl body d hresponse hbody
    subst hid
    exact ⟨r, hr, hpos, hnot, hurl, hgone⟩
  refine ⟨⟨fun u hu => ?_, ?_⟩, fun k hk => ?_⟩
  · obtain ⟨r, hr, rfl⟩ := List.mem_map.mp hu
    have hold := hsublist.subset hr
    obtain ⟨i, hpos, hnot, hurl⟩ :=
      h.unindexed _ (List.mem_map_of_mem hold)
    refine ⟨i, hpos, ?_, hurl⟩
    rw [hshows, KeyedStore.mem_putAll, not_or]
    refine ⟨hnot, fun hnew => ?_⟩
    rcases hnew with ⟨d, hd, hid⟩
    obtain ⟨r', hr', _, _, hurl', hgone⟩ := hids d hd
    replace hid : d.id = i := hid
    -- two rows with one URL are one row, and it can not stay and leave
    refine h.url_ne hold hr' (fun he => hgone (he ▸ hr)) ?_
    rw [hurl, hurl', hid]
  · exact (hsublist.map _).nodup h.nodup
  · rw [hshows]
    apply KeyedStore.get?_putAll_of_not_mem
    intro d hd hid
    obtain ⟨_, _, _, hnot, _⟩ := hids d hd
    replace hid : d.id = k := hid
    rw [hid] at hnot
    exact hnot hk

end Fresh

/-- When the loads list positive ids and are answered and the bodies are
honest, a show that is indexed stays as it is: no run overwrites it, and
none refreshes it. -/
theorem indexed_forever {w w' : World} {calls : List PipelineCall}
    (hfresh : Fresh w)
    (hrun : (nightly json config (PositiveListing json)
      fun _ input => Honest json input.responses).Run w calls w')
    {k : Int32} {d : ShowDetails} (hd : w.storage.shows.get? k = some d) :
    Fresh w' ∧ w'.storage.shows.get? k = some d := by
  apply hrun.invariant (P := fun w =>
    Fresh w ∧ w.storage.shows.get? k = some d) ?_ ⟨hfresh, hd⟩
  intro w call w' hw hstep
  rcases hw with ⟨hfresh, hd⟩
  cases call with
  | loadUrls =>
    rcases hstep with ⟨listing, reads, hadmits, rfl⟩
    refine ⟨hfresh.load hadmits, ?_⟩
    obtain ⟨urls, hload⟩ := loadUrls_cases json false listing reads w
    rw [hload]
    exact hd
  | processDataIncremental =>
    rcases hstep with ⟨applicationInfo, input, hhonest, rfl⟩
    unfold processDataIncremental
    split_ifs with htest
    · exact ⟨hfresh, hd⟩
    · obtain ⟨hnext, hkept⟩ := hfresh.cycle hhonest config
      refine ⟨hnext, ?_⟩
      rw [hkept k (KeyedStore.mem_keys.mpr ⟨d, hd⟩)]
      exact hd

/-! ## A row whose request always throws -/

/-- The request for a row throws whenever a cycle takes it. -/
def Throws (json : JsonConvert) (r : ConsumerQueueItem) (w : World)
    (input : CycleInput w.queue.rows) : Prop :=
  r ∈ input.topTen.picked → ∃ e, fetchTask json input.responses r = .error e

/-- A row that a faulty cycle took stays. -/
theorem mem_of_throws {w : World} {input : CycleInput w.queue.rows}
    {r : ConsumerQueueItem} (hr : r ∈ w.queue.rows)
    (hthrows : Throws json r w input) :
    r ∈ (consumeLogic json config w input).queue.rows := by
  by_cases hpicked : r ∈ input.topTen.picked
  · obtain ⟨e, he⟩ := hthrows hpicked
    rw [consumeLogic_of_fault json config ⟨r, hpicked, e, he⟩]
    exact hr
  · by_cases hfault : input.Faults json
    · rw [consumeLogic_of_fault json config hfault]
      exact hr
    · rw [consumeLogic_of_no_fault json config hfault]
      refine (ConsumerQueue.mem_without
        fun r hr => processedUrls_subset hr).mpr ⟨hr, fun hprocessed => ?_⟩
      exact hpicked (mem_processedUrls.mp hprocessed).1

/-- A cycle takes all of at most 20 rows. -/
theorem mem_picked_of_le {rows : List ConsumerQueueItem}
    (topTen : Take 20 rows) (hle : rows.length ≤ 20)
    {r : ConsumerQueueItem} (hr : r ∈ rows) : r ∈ topTen.picked := by
  have hlength : rows.length ≤ topTen.picked.length := by
    rw [topTen.length_eq]
    omega
  exact (topTen.subperm.perm_of_length_le hlength).mem_iff.mpr hr

/-- A row whose request throws in every cycle stays for ever, no load queues
anything any more, and when at most 20 rows are queued the world stays as it
is. -/
theorem standstill_of_run {w w' : World} {calls : List PipelineCall}
    {r : ConsumerQueueItem} (hr : r ∈ w.queue.rows)
    (hrun : (nightly json config (fun _ _ => True) (Throws json r)).Run w
      calls w') :
    r ∈ w'.queue.rows ∧ w'.queue.rows.Sublist w.queue.rows ∧
      (w.queue.rows.length ≤ 20 → w' = w) := by
  apply hrun.invariant (P := fun w' => r ∈ w'.queue.rows ∧
    w'.queue.rows.Sublist w.queue.rows ∧
    (w.queue.rows.length ≤ 20 → w' = w)) ?_ ⟨hr, .refl _, fun _ => rfl⟩
  intro u call u' hu hstep
  rcases hu with ⟨hmem, hsublist, hsame⟩
  cases call with
  | loadUrls =>
    rcases hstep with ⟨listing, reads, _, rfl⟩
    rw [loadUrls_of_queued listing reads (List.ne_nil_of_mem hmem)]
    exact ⟨hmem, hsublist, hsame⟩
  | processDataIncremental =>
    rcases hstep with ⟨applicationInfo, input, hthrows, rfl⟩
    unfold processDataIncremental
    split_ifs with htest
    · exact ⟨hmem, hsublist, hsame⟩
    · refine ⟨mem_of_throws hmem hthrows,
        (stored_of_cycle json config u input).1.trans hsublist, fun hle => ?_⟩
      have hpicked : r ∈ input.topTen.picked := by
        refine mem_picked_of_le input.topTen ?_ hmem
        rw [hsame hle]
        exact hle
      obtain ⟨e, he⟩ := hthrows hpicked
      rw [consumeLogic_of_fault json config ⟨r, hpicked, e, he⟩]
      exact hsame hle

end Nightly

/-! ### A load and a cycle -/

/-- Show 2 is indexed and nothing is queued. -/
def showTwo : World where
  queue := .empty
  storage := { Storage.empty with shows := KeyedStore.empty.put { id := 2 } }

/-- The answer for the URL of show 1, and an error for every other row. -/
def onlyShowOne (r : ConsumerQueueItem) : HttpOutcome :=
  if r.UrlToProcess = showUrl "1" then .success "\x7b\"id\":1\x7d"
  else .errorStatus

theorem onlyShowOne_honest : Honest oneListed onlyShowOne := by
  intro r i hpos hurl body d hresponse hbody
  unfold onlyShowOne at hresponse
  split_ifs at hresponse with hone
  cases hresponse
  have hdocument : oneListed.deserializeShowDetails "\x7b\"id\":1\x7d"
      = .ok (some { id := 1 }) := rfl
  rw [hdocument] at hbody
  cases hbody
  have hsame : urlOf 1 = urlOf i := by
    rw [← hurl, hone]
    rfl
  exact urlOf_inj (by decide) hpos hsame

theorem oneListed_lists :
    PositiveListing oneListed (.success "\x7b\"1\":1\x7d") answeredReads := by
  refine ⟨answeredReads_answered, .inl ⟨[1], ⟨_, _, rfl, rfl, rfl⟩, ?_⟩⟩
  rw [List.forall_mem_singleton]
  decide

/-- The load queues show 1, the cycle indexes it, and show 2 stays. -/
theorem indexed_forever_showTwo :
    ∃ w', (nightly oneListed { index := "tv" } (PositiveListing oneListed)
        fun _ input => Honest oneListed input.responses).Run showTwo
        [.loadUrls, .processDataIncremental] w' ∧
      w'.storage.shows.get? 2 = some { id := 2 } := by
  have hfresh : Fresh showTwo := ⟨nofun, List.nodup_nil⟩
  have hrun : (nightly oneListed { index := "tv" } (PositiveListing oneListed)
      fun _ input => Honest oneListed input.responses).Run showTwo
      [.loadUrls, .processDataIncremental] _ :=
    .cons ⟨_, _, oneListed_lists, rfl⟩ <|
      .single ⟨none, .first _ onlyShowOne .accepting, onlyShowOne_honest, rfl⟩
  exact ⟨_, hrun, (indexed_forever hfresh hrun
    (KeyedStore.get?_put_self _ _)).2⟩

/-- The request for the only row times out. -/
theorem standstill_of_run_timeout :
    ∃ w', (nightly twoBodies { index := "tv" } (fun _ _ => True)
        (Throws twoBodies { Id := 0, UrlToProcess := showUrl "1" })).Run
        oneQueued [.loadUrls, .processDataIncremental] w' ∧ w' = oneQueued := by
  have hrun : (nightly twoBodies { index := "tv" } (fun _ _ => True)
      (Throws twoBodies { Id := 0, UrlToProcess := showUrl "1" })).Run
      oneQueued [.loadUrls, .processDataIncremental] _ :=
    .cons ⟨.timeout, answeredReads, trivial, rfl⟩ <|
      .single ⟨none, .first _ (fun _ => .timeout) .accepting,
        fun _ => ⟨_, rfl⟩, rfl⟩
  exact ⟨_, hrun, (standstill_of_run List.mem_cons_self hrun).2.2
    (by decide)⟩

end TvMazeScraper
