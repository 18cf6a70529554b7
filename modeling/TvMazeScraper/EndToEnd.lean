import TvMazeScraper.Pages
import TvMazeScraper.Sync

/-!
# From the listing to the pages

The whole way of a show: TVMaze lists it, `LoadUrls` queues its URL, a cycle
fetches and indexes it, and the endpoint serves it.  As in
`TvMazeScraper.Sync`, the external calls succeed.

* `index_of_sync`: the index when the queue is drained.
* `Publishes`: what the pages have to be.
* `published_of_sync`: the pages of the endpoint after the cycles.
-/

namespace TvMazeScraper

open Batching

/-- The pages have the shows of `index` and the new ones, each once and with
its cast sorted, and nothing else. -/
structure Publishes (index : Index ShowDetails) (new : List ShowDetails)
    (pages : List (List ShowDetails)) : Prop where
  once : (pages.flatten.map ShowDetails.id).Nodup
  fetched : ∀ d ∈ new, ∃ s ∈ pages.flatten, CastSorted d s
  kept : ∀ id d, index.get? id = some d → ∃ s ∈ pages.flatten, CastSorted d s
  only : ∀ s ∈ pages.flatten, ∃ d, CastSorted d s ∧
    (d ∈ new ∨ index.get? d.id = some d)

/-- The pages of a servable index that is small enough. -/
theorem flatten_allPages {index : Index ShowDetails} (ranking : Ranking index)
    {q : Option String} (hq : isNullOrEmpty q = true)
    (hcard : index.keys.card ≤ 10000) (hservable : AllServable index) :
    ∃ pages, allPages ranking q = .ok pages ∧
      pages.flatten = (ranking.found q).map ShowDetails.served := by
  refine ⟨_, allPages_of_le hq hcard hservable, ?_⟩
  rw [← List.map_flatten, flatten_batchesOf (by omega)]

section EndToEnd

variable {json : JsonConvert} {listing : HttpOutcome} {ids : List Int32}
  {resp : String → ShowDetails} {w : World}

/-- The shows of the listed ids that are not indexed. -/
def newShows (resp : String → ShowDetails) (ids : List Int32)
    (index : Index ShowDetails) : List ShowDetails :=
  (unindexed ids index).map fun i => resp (urlOf i)

/-- The index when the cycles behind a load have drained the queue: a new show
stands under its id, and every other id has what it had. -/
theorem index_of_sync (config : ELKConfiguration)
    (hlists : Lists json listing ids)
    (hpos : ∀ i ∈ ids, 0 < i) (hresp : ∀ i ∈ ids, (resp (urlOf i)).id = i)
    (hempty : w.queue.rows = []) {reads : ReadOutcomes}
    (hreads : reads.Answered) (forceLoad : Bool) :
    ∃ w', loadUrls json forceLoad listing reads w = (w', .ok ()) ∧
      w'.queue.rows.length = (unindexed ids w.storage.shows).length ∧
      ∀ w'' taken, (draining json config resp).Run w' taken w'' →
        (w'.queue.rows.length + 19) / 20 ≤ taken.length →
        w''.storage.shows.keys = w.storage.shows.keys ∪ ids.toFinset ∧
        (∀ d ∈ newShows resp ids w.storage.shows,
          w''.storage.shows.get? d.id = some d) ∧
        ∀ id, (∀ d ∈ newShows resp ids w.storage.shows, d.id ≠ id) →
          w''.storage.shows.get? id = w.storage.shows.get? id := by
  have hmissing := missingUrls_listed hlists hpos hreads w.storage.shows
  have hurls : (w.queue.addRange
      ((unindexed ids w.storage.shows).map urlOf)).urls
        = (unindexed ids w.storage.shows).map urlOf := by
    rw [ConsumerQueue.addRange_urls, ConsumerQueue.urls, hempty]
    rfl
  refine ⟨_, loadUrls_of_empty hempty hmissing, ?_, ?_⟩
  · have hlength := congrArg List.length hurls
    rwa [ConsumerQueue.urls, List.length_map, List.length_map] at hlength
  · intro w'' taken hrun hcycles
    have hdrained : w''.queue.rows = [] := by
      rw [← List.length_eq_zero_iff, drain_length hrun]
      omega
    have hinj : ∀ u ∈ (unindexed ids w.storage.shows).map urlOf,
        ∀ v ∈ (unindexed ids w.storage.shows).map urlOf,
          (resp u).id = (resp v).id → u = v := by
      intro u hu v hv hid
      obtain ⟨i, hi, rfl⟩ := List.mem_map.mp hu
      obtain ⟨j, hj, rfl⟩ := List.mem_map.mp hv
      rw [hresp i (List.mem_of_mem_filter hi),
        hresp j (List.mem_of_mem_filter hj)] at hid
      rw [hid]
    have hindex := overridden_of_drained
      (fun u hu v hv => hinj u (hurls ▸ hu) v (hurls ▸ hv)) hrun hdrained
    have hkeys := sync_keys hresp hurls rfl hrun hdrained
    refine ⟨hkeys, ?_, ?_⟩
    · intro d hd
      obtain ⟨i, hi, rfl⟩ := List.mem_map.mp hd
      refine hindex.stored (urlOf i) ?_
      show urlOf i ∈ (w.queue.addRange _).urls
      rw [hurls]
      exact List.mem_map_of_mem hi
    · intro id hid
      refine hindex.untouched id fun u hu => ?_
      replace hu : u ∈ (w.queue.addRange _).urls := hu
      rw [hurls] at hu
      obtain ⟨i, hi, rfl⟩ := List.mem_map.mp hu
      exact hid _ (List.mem_map_of_mem hi)

/-- A load on an empty queue, and enough cycles behind it.  Then the pages of
the endpoint have the shows that were indexed and the listed ones, each once
and with its cast sorted, and nothing else. -/
theorem published_of_sync (config : ELKConfiguration)
    (hlists : Lists json listing ids)
    (hpos : ∀ i ∈ ids, 0 < i) (hresp : ∀ i ∈ ids, (resp (urlOf i)).id = i)
    (hservable : ∀ i ∈ ids, (resp (urlOf i)).Servable)
    (hindexed : AllServable w.storage.shows)
    (hcard : (w.storage.shows.keys ∪ ids.toFinset).card ≤ 10000)
    (hempty : w.queue.rows = []) {reads : ReadOutcomes}
    (hreads : reads.Answered) (forceLoad : Bool) :
    ∃ w', loadUrls json forceLoad listing reads w = (w', .ok ()) ∧
      w'.queue.rows.length = (unindexed ids w.storage.shows).length ∧
      ∀ w'' taken, (draining json config resp).Run w' taken w'' →
        (w'.queue.rows.length + 19) / 20 ≤ taken.length →
        ∀ (ranking : Ranking w''.storage.shows) (q : Option String),
          isNullOrEmpty q = true →
          ∃ pages, allPages ranking q = .ok pages ∧
            Publishes w.storage.shows (newShows resp ids w.storage.shows)
              pages := by
  obtain ⟨w', hload, hlength, hsync⟩ := index_of_sync config hlists hpos
    hresp hempty hreads forceLoad
  refine ⟨w', hload, hlength, fun w'' taken hrun hcycles ranking q hq => ?_⟩
  obtain ⟨hkeys, hnew, hold⟩ := hsync w'' taken hrun hcycles
  -- an id holds its new show, or what it had before
  have hfrom : ∀ id d, w''.storage.shows.get? id = some d →
      d ∈ newShows resp ids w.storage.shows ∨
        w.storage.shows.get? id = some d := by
    intro id d hd
    by_cases hid : ∃ e ∈ newShows resp ids w.storage.shows, e.id = id
    · rcases hid with ⟨e, he, rfl⟩
      rw [hnew e he] at hd
      exact .inl (Option.some.inj hd ▸ he)
    · right
      rwa [hold id fun e he heq => hid ⟨e, he, heq⟩] at hd
  have hall : AllServable w''.storage.shows := by
    intro id d hd
    rcases hfrom id d hd with hd | hd
    · obtain ⟨i, hi, rfl⟩ := List.mem_map.mp hd
      exact hservable i (List.mem_of_mem_filter hi)
    · exact hindexed id d hd
  obtain ⟨pages, hpages, hflatten⟩ :=
    flatten_allPages ranking hq (by rwa [hkeys]) hall
  have hfound : ∀ id d, w''.storage.shows.get? id = some d →
      ∃ s ∈ pages.flatten, CastSorted d s := by
    intro id d hd
    refine ⟨d.served, ?_, castSorted_served (hall id d hd)⟩
    rw [hflatten, found_of_empty ranking hq]
    exact List.mem_map_of_mem (ranking.complete id d hd)
  refine ⟨pages, hpages, ?_, ?_, ?_, ?_⟩
  · rw [hflatten, List.map_map]
    exact ranking.nodup _
  · exact fun d hd => hfound d.id d (hnew d hd)
  · intro id d hd
    refine hfound id d ?_
    rw [hold id]
    · exact hd
    · intro e he heq
      obtain ⟨i, hi, rfl⟩ := List.mem_map.mp he
      obtain ⟨hlisted, hnot⟩ := List.mem_filter.mp hi
      rw [hresp i hlisted] at heq
      subst heq
      exact of_decide_eq_true hnot (KeyedStore.mem_keys.mpr ⟨d, hd⟩)
  · intro s hs
    rw [hflatten] at hs
    obtain ⟨d, hd, rfl⟩ := List.mem_map.mp hs
    have hget := ranking.stored _ d hd
    exact ⟨d, castSorted_served (hall d.id d hget), hfrom d.id d hget⟩

end EndToEnd

/-! ### One indexed show and one new one -/

/-- The shows 1 and 2, each with a cast. -/
def twoWithCast (url : String) : ShowDetails :=
  if url = urlOf 1 then showWithCast 1 else showWithCast 2

/-- A converter that knows their bodies and the listing of both. -/
def castListed : JsonConvert :=
  { castBodies with deserializeUpdates := twoListed.deserializeUpdates }

theorem castListed_body (url : String) :
    ∃ body, castListed.deserializeShowDetails body
      = .ok (some (twoWithCast url)) := by
  unfold twoWithCast
  by_cases hurl : url = urlOf 1
  · rw [if_pos hurl]
    exact ⟨castBody "1", rfl⟩
  · rw [if_neg hurl]
    exact ⟨castBody "2", rfl⟩

/-- Show 1 is indexed and nothing is queued. -/
def castIndexed : World where
  queue := .empty
  storage :=
    { Storage.empty with shows := KeyedStore.empty.putAll [showWithCast 1] }

/-- One cycle brings show 2 to the pages. -/
theorem published_of_sync_two :
    ∃ w' taken w'', loadUrls castListed false
          (.success "\x7b\"1\":1,\"2\":1\x7d") answeredReads castIndexed
        = (w', .ok ()) ∧
      (draining castListed { index := "tv" } twoWithCast).Run w' taken w'' ∧
      taken.length = 1 ∧
      ∃ (ranking : Ranking w''.storage.shows) (pages : _),
        allPages ranking none = .ok pages ∧
          Publishes castIndexed.storage.shows [showWithCast 2] pages := by
  have hlists : Lists castListed (.success "\x7b\"1\":1,\"2\":1\x7d")
      [1, 2] := ⟨_, _, rfl, rfl, by decide⟩
  have hpos : ∀ i ∈ ([1, 2] : List Int32), 0 < i := by
    rw [List.forall_mem_cons, List.forall_mem_singleton]
    decide
  have hresp : ∀ i ∈ ([1, 2] : List Int32),
      (twoWithCast (urlOf i)).id = i := by
    rw [List.forall_mem_cons, List.forall_mem_singleton]
    decide
  have hservable : ∀ i ∈ ([1, 2] : List Int32),
      (twoWithCast (urlOf i)).Servable := by
    rw [List.forall_mem_cons, List.forall_mem_singleton]
    decide
  have hindexed : AllServable castIndexed.storage.shows := by
    refine allServable_putAll fun d hd => ?_
    rw [List.mem_singleton.mp hd]
    decide
  have hcard : (castIndexed.storage.shows.keys
      ∪ [1, 2].toFinset).card ≤ 10000 := by decide
  obtain ⟨w', hload, hlength, hpages⟩ := published_of_sync { index := "tv" }
    hlists hpos hresp hservable hindexed hcard rfl answeredReads_answered false
  have hone : w'.queue.rows.length = 1 := hlength
  obtain ⟨taken, w'', hrun, hcycle⟩ := exists_draining (w := w')
    { index := "tv" } (fun r _ => castListed_body r.UrlToProcess) 1
  obtain ⟨ranking⟩ := exists_ranking w''.storage.shows
  exact ⟨w', taken, w'', hload, hrun, hcycle, ranking,
    hpages w'' taken hrun (by omega) ranking none rfl⟩

end TvMazeScraper
