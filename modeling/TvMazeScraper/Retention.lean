import TvMazeScraper.Cycles

/-!
# What becomes of a queued URL

A `History` is a world together with what happened on the way to it: the URLs
that were ever queued, and the documents that were handed to `LoadData`, each
with the URL it was fetched for.  A show is lost when its URL is no longer
queued and no document that was fetched for it is indexed or recorded.

`ConsumeLogic` saves the removal of the rows before it loads the documents,
so a document that does not reach the index has nothing to come back from, and
neither has one that another document of the same id replaces.

* `stored_of_handed`: a URL whose document is indexed keeps one in the index,
  when no document of another URL replaces it.
* `retained_of_cycle`: a cycle that fails before the removal, or whose
  documents all reach the index and replace none of another URL, loses no
  show.
* `noShowLost_of_run`: neither does a run of such cycles and any loads.
* `show_lost`: the smallest run that loses one.
-/

namespace TvMazeScraper

open Machine

/-- The calls that the pipeline is made of. -/
inductive PipelineCall where
  | loadUrls
  | processDataIncremental
  deriving DecidableEq, Repr

/-- A world and what happened on the way to it. -/
structure History where
  world : World
  queued : List String
  handed : List (String × ShowDetails)

/-- The documents that a cycle hands to `LoadData`, each with the URL that it
was fetched for.  A null document is not a document of a show. -/
def handedOver (json : JsonConvert) {rows : List ConsumerQueueItem}
    (input : CycleInput rows) : List (String × ShowDetails) :=
  match whenAll json input.responses input.completion with
  | .error _ => []
  | .ok fetched =>
    fetched.processedUrls.filterMap fun r =>
      match addedDocument json input.responses r with
      | some (some d) => some (r.UrlToProcess, d)
      | _ => none

/-- The history before the first call. -/
def History.start (w : World) : History where
  world := w
  queued := w.queue.urls
  handed := []

/-- The history after a `LoadUrls`. -/
def History.loadUrls (json : JsonConvert) (forceLoad : Bool)
    (listing : HttpOutcome) (reads : ReadOutcomes) (h : History) : History :=
  let world := (TvMazeScraper.loadUrls json forceLoad listing reads h.world).1
  { world := world
    queued := h.queued ++ world.queue.urls
    handed := h.handed }

/-- The history after a `ProcessDataIncremental`. -/
def History.process (json : JsonConvert) (config : ELKConfiguration)
    (applicationInfo : Option ApplicationInfo) (h : History)
    (input : CycleInput h.world.queue.rows) : History where
  world := processDataIncremental json config applicationInfo h.world input
  queued := h.queued
  handed := h.handed ++
    if comingFromTest applicationInfo then [] else handedOver json input

/-- `LoadUrls` and `ProcessDataIncremental`, one after the other, with any
outcome of every external call that `admits` allows. -/
def pipeline (json : JsonConvert) (config : ELKConfiguration)
    (admits : ∀ h : History, CycleInput h.world.queue.rows → Prop) :
    Machine History PipelineCall where
  Step h call h' :=
    match call with
    | .loadUrls => ∃ forceLoad listing reads,
        h' = h.loadUrls json forceLoad listing reads
    | .processDataIncremental => ∃ applicationInfo input,
        admits h input ∧ h' = h.process json config applicationInfo input

/-- The URL is queued, or a document that was fetched for it is indexed or
recorded. -/
def Retained (json : JsonConvert) (h : History) (u : String) : Prop :=
  u ∈ h.world.queue.urls ∨ ∃ d, (u, d) ∈ h.handed ∧
    (h.world.storage.shows.get? d.id = some d ∨
      ∃ row ∈ h.world.storage.unprocessed.rows,
        row.RawData = json.serializeShowDetails d)

/-- No show is lost: every URL that was ever queued is retained. -/
def NoShowLost (json : JsonConvert) (h : History) : Prop :=
  ∀ u ∈ h.queued, Retained json h u

/-- No document of `new` has the id of another document that was fetched for
another URL. -/
def Apart (handed new : List (String × ShowDetails)) : Prop :=
  ∀ p ∈ handed ++ new, ∀ q ∈ new, p.2.id = q.2.id → p.1 = q.1 ∨ p.2 = q.2

instance (handed new : List (String × ShowDetails)) :
    Decidable (Apart handed new) :=
  inferInstanceAs (Decidable (∀ p ∈ _, ∀ q ∈ _, _ → _))

/-- The cycle fails before it removes a row, or each body of a removed row is
a show, Elasticsearch accepts all of these shows, and none of them replaces
the show of another URL. -/
def CycleInput.Safe (json : JsonConvert)
    (handed : List (String × ShowDetails)) {rows : List ConsumerQueueItem}
    (input : CycleInput rows) : Prop :=
  input.Faults json ∨
    (∀ r ∈ input.topTen.picked,
        addedDocument json input.responses r ≠ some none) ∧
      input.writes.AcceptsShows (input.fetched json).shows.length ∧
      Apart handed (handedOver json input)

section Retention

variable {json : JsonConvert} {config : ELKConfiguration}

/-- The documents that are handed over are those of the rows that the cycle
took. -/
theorem mem_handedOver {w : World} {input : CycleInput w.queue.rows}
    (hfault : ¬ input.Faults json) {u : String} {d : ShowDetails} :
    (u, d) ∈ handedOver json input ↔ ∃ r ∈ input.topTen.picked,
      r.UrlToProcess = u ∧
        addedDocument json input.responses r = some (some d) := by
  unfold handedOver
  rw [whenAll_of_no_fault input.completion hfault]
  show (u, d) ∈ List.filterMap _ (fetchedOf json input.responses
    input.completion).processedUrls ↔ _
  rw [List.mem_filterMap]
  constructor
  · intro h
    rcases h with ⟨r, hr, hadded⟩
    refine ⟨r, (mem_processedUrls.mp hr).1, ?_⟩
    cases hdocument : addedDocument json input.responses r with
    | none => simp [hdocument] at hadded
    | some document =>
      cases document with
      | none => simp [hdocument] at hadded
      | some e =>
        simp only [hdocument, Option.some.injEq, Prod.mk.injEq] at hadded
        exact ⟨hadded.1, by rw [hadded.2]⟩
  · intro h
    rcases h with ⟨r, hr, rfl, hadded⟩
    refine ⟨r, mem_processedUrls.mpr ⟨hr, ?_⟩, by rw [hadded]⟩
    rw [hadded]
    rfl

/-- The index after a cycle whose shows are accepted. -/
theorem shows_of_accepts (config : ELKConfiguration) {w : World}
    {input : CycleInput w.queue.rows} (hfault : ¬ input.Faults json)
    (haccepts : input.writes.AcceptsShows (input.fetched json).shows.length) :
    ∃ stored, (consumeLogic json config w input).storage.shows
        = w.storage.shows.putAll stored ∧
      ∀ d, d ∈ stored ↔ ∃ u, (u, d) ∈ handedOver json input := by
  rw [consumeLogic_of_no_fault json config hfault]
  refine ⟨_, loadData_shows json config haccepts w.storage, fun d => ?_⟩
  rw [List.mem_filterMap]
  constructor
  · intro hd
    rcases hd with ⟨document, hdocument, rfl⟩
    obtain ⟨r, hr, hadded⟩ := mem_shows.mp hdocument
    exact ⟨_, (mem_handedOver hfault).mpr ⟨r, hr, rfl, hadded⟩⟩
  · intro hd
    rcases hd with ⟨u, hu⟩
    obtain ⟨r, hr, _, hadded⟩ := (mem_handedOver hfault).mp hu
    exact ⟨some d, mem_shows.mpr ⟨r, hr, hadded⟩, rfl⟩

/-- A URL with a document that is handed over now, or that is indexed, has one
in the index after documents that are apart. -/
theorem stored_of_handed {index : Index ShowDetails}
    {handed new : List (String × ShowDetails)} {stored : List ShowDetails}
    (hapart : Apart handed new)
    (hstored : ∀ d, d ∈ stored ↔ ∃ u, (u, d) ∈ new) {u : String}
    {d : ShowDetails} (hd : (u, d) ∈ handed ++ new)
    (hnow : (u, d) ∈ new ∨ index.get? d.id = some d) :
    ∃ e, (u, e) ∈ handed ++ new ∧
      (index.putAll stored).get? e.id = some e := by
  by_cases hsame : ∃ e ∈ stored, e.id = d.id
  · -- the last document with that id is the one that stays
    obtain ⟨e, he, hget⟩ := KeyedStore.exists_get?_putAll hsame index
    have hid : e.id = d.id := KeyedStore.key_of_get? hget
    obtain ⟨v, hv⟩ := (hstored e).mp he
    rcases hapart (u, d) hd (v, e) hv hid.symm with hurl | hdocument
    · refine ⟨e, List.mem_append_right _ ?_, by rw [hid]; exact hget⟩
      have hurl : u = v := hurl
      rw [hurl]
      exact hv
    · have hdocument : d = e := hdocument
      exact ⟨d, hd, by rw [hget, hdocument]⟩
  · rcases hnow with hnew | hold
    · exact absurd ⟨d, (hstored d).mpr ⟨u, hnew⟩, rfl⟩ hsame
    · refine ⟨d, hd, ?_⟩
      rw [KeyedStore.get?_putAll_of_not_mem]
      · exact hold
      · exact fun e he hid => hsame ⟨e, he, hid⟩

/-- The row of a URL that leaves the queue has its document handed over. -/
theorem handed_of_removed {w : World} {input : CycleInput w.queue.rows}
    (hfault : ¬ input.Faults json)
    (hnotNull : ∀ r ∈ input.topTen.picked,
      addedDocument json input.responses r ≠ some none)
    {r : ConsumerQueueItem} (hr : r ∈ w.queue.rows)
    (hgone : r ∉ (consumeLogic json config w input).queue.rows) :
    ∃ d, (r.UrlToProcess, d) ∈ handedOver json input := by
  rw [consumeLogic_of_no_fault json config hfault] at hgone
  have hprocessed : r ∈ (input.fetched json).processedUrls := by
    by_contra hnot
    exact hgone ((ConsumerQueue.mem_without
      fun r hr => processedUrls_subset hr).mpr ⟨hr, hnot⟩)
  obtain ⟨hpicked, hsome⟩ := mem_processedUrls.mp hprocessed
  obtain ⟨document, hadded⟩ := Option.isSome_iff_exists.mp hsome
  cases document with
  | none => exact absurd hadded (hnotNull r hpicked)
  | some d => exact ⟨d, (mem_handedOver hfault).mpr ⟨r, hpicked, rfl, hadded⟩⟩

/-- A cycle that fails before the removal changes nothing. -/
theorem retained_of_fault {h : History} {input : CycleInput h.world.queue.rows}
    (hfault : input.Faults json) {u : String} (hu : Retained json h u) :
    Retained json
      { world := consumeLogic json config h.world input
        queued := h.queued
        handed := h.handed ++ handedOver json input } u := by
  rw [consumeLogic_of_fault json config hfault]
  rcases hu with hqueued | ⟨d, hd, hstored⟩
  · exact .inl hqueued
  · exact .inr ⟨d, List.mem_append_left _ hd, hstored⟩

/-- A safe cycle loses no show. -/
theorem retained_of_cycle {h : History}
    {input : CycleInput h.world.queue.rows} (hsafe : input.Safe json h.handed)
    (applicationInfo : Option ApplicationInfo) {u : String}
    (hu : Retained json h u) :
    Retained json (h.process json config applicationInfo input) u := by
  unfold History.process processDataIncremental
  by_cases htest : comingFromTest applicationInfo = true
  · simp only [htest, if_true, List.append_nil]
    exact hu
  simp only [htest]
  rcases hsafe with hfault | ⟨hnotNull, haccepts, hapart⟩
  · exact retained_of_fault hfault hu
  by_cases hfault : input.Faults json
  · exact retained_of_fault hfault hu
  obtain ⟨stored, hshows, hstored⟩ := shows_of_accepts config hfault haccepts
  have hindexed : ∀ d, (u, d) ∈ h.handed ++ handedOver json input →
      (u, d) ∈ handedOver json input ∨
        h.world.storage.shows.get? d.id = some d →
      ∃ e, (u, e) ∈ h.handed ++ handedOver json input ∧
        (consumeLogic json config h.world input).storage.shows.get? e.id
          = some e := by
    intro d hd hnow
    rw [hshows]
    exact stored_of_handed hapart hstored hd hnow
  rcases hu with hqueued | ⟨d, hd, hold | ⟨row, hrow, hraw⟩⟩
  · obtain ⟨r, hr, rfl⟩ := List.mem_map.mp hqueued
    by_cases hgone : r ∈ (consumeLogic json config h.world input).queue.rows
    · exact .inl (List.mem_map_of_mem hgone)
    · obtain ⟨d, hd⟩ := handed_of_removed hfault hnotNull hr hgone
      obtain ⟨e, he, hget⟩ := hindexed d (List.mem_append_right _ hd) (.inl hd)
      exact .inr ⟨e, he, .inl hget⟩
  · obtain ⟨e, he, hget⟩ := hindexed d (List.mem_append_left _ hd) (.inr hold)
    exact .inr ⟨e, he, .inl hget⟩
  · refine .inr ⟨d, List.mem_append_left _ hd, .inr ⟨row, ?_, hraw⟩⟩
    show row ∈ (consumeLogic json config h.world input).storage.unprocessed.rows
    rw [consumeLogic_unprocessed]
    exact hrow

/-- A load loses no show. -/
theorem noShowLost_of_load {h : History} (hh : NoShowLost json h)
    (forceLoad : Bool) (listing : HttpOutcome) (reads : ReadOutcomes) :
    NoShowLost json (h.loadUrls json forceLoad listing reads) := by
  obtain ⟨urls, hload⟩ := loadUrls_cases json forceLoad listing reads h.world
  unfold History.loadUrls
  rw [hload]
  intro u hu
  rcases List.mem_append.mp hu with hold | hnew
  · rcases hh u hold with hqueued | hstored
    · refine .inl ?_
      show u ∈ (h.world.queue.addRange urls).urls
      rw [ConsumerQueue.addRange_urls]
      exact List.mem_append_left _ hqueued
    · exact .inr hstored
  · exact .inl hnew

/-- No run of loads and safe cycles loses a show. -/
theorem noShowLost_of_run {w : World} {h : History}
    {calls : List PipelineCall}
    (hrun : (pipeline json config fun h input =>
      input.Safe json h.handed).Run (.start w) calls h) :
    NoShowLost json h := by
  refine hrun.invariant ?_ fun u hu => .inl hu
  intro h call h' hh hstep
  cases call with
  | loadUrls =>
    rcases hstep with ⟨forceLoad, listing, reads, rfl⟩
    exact noShowLost_of_load hh forceLoad listing reads
  | processDataIncremental =>
    rcases hstep with ⟨applicationInfo, input, hsafe, rfl⟩
    exact fun u hu => retained_of_cycle hsafe applicationInfo (hh u hu)

end Retention

/-! ### Two URLs and one -/

/-- The URLs of two shows are queued. -/
def twoWaiting : World := .queued [showUrl "1", showUrl "2"]

/-- Both shows are fetched and accepted. -/
def acceptedCycle : CycleInput twoWaiting.queue.rows :=
  .first _ twoResponses .accepting

/-- Both shows are indexed. -/
theorem noShowLost_of_run_two :
    NoShowLost twoBodies
      ((History.start twoWaiting).process twoBodies { index := "tv" } none
        acceptedCycle) := by
  have hsafe : acceptedCycle.Safe twoBodies (History.start twoWaiting).handed :=
    .inr ⟨by decide, WriteOutcomes.accepting_shows _, by decide⟩
  have hrun : (pipeline twoBodies { index := "tv" } fun h input =>
      input.Safe twoBodies h.handed).Run (.start twoWaiting)
      [.processDataIncremental]
      ((History.start twoWaiting).process twoBodies { index := "tv" } none
        acceptedCycle) :=
    .single ⟨none, acceptedCycle, hsafe, rfl⟩
  exact noShowLost_of_run hrun

/-- One URL is queued. -/
def oneQueued : World := .queued [showUrl "1"]

/-- The only URL is fetched, and the request of `IndexAsync` fails. -/
def rejectedCycle : CycleInput oneQueued.queue.rows :=
  .first _ twoResponses { WriteOutcomes.accepting with index := false }

/-- The row is gone, and the show is neither indexed nor recorded. -/
theorem show_lost :
    (pipeline twoBodies { index := "tv" } fun _ _ => True).Run
        (.start oneQueued) [.processDataIncremental]
        ((History.start oneQueued).process twoBodies { index := "tv" } none
          rejectedCycle) ∧
      ¬ NoShowLost twoBodies
        ((History.start oneQueued).process twoBodies { index := "tv" } none
          rejectedCycle) := by
  refine ⟨.single ⟨none, rejectedCycle, trivial, rfl⟩, fun h => ?_⟩
  rcases h (showUrl "1") (by decide) with hqueued | ⟨d, _, hget | hrow⟩
  · revert hqueued
    decide
  · rw [show (((History.start oneQueued).process twoBodies { index := "tv" }
      none rejectedCycle).world.storage.shows) = .empty from rfl,
      KeyedStore.get?_empty] at hget
    cases hget
  · rcases hrow with ⟨row, hrow, _⟩
    cases hrow

/-- Bodies without an id, which deserialize to shows with the id 0. -/
def idlessBodies : JsonConvert :=
  .ofTable [("\x7b\"name\":\"a\"\x7d", { name := some "a" }),
    ("\x7b\"name\":\"b\"\x7d", { name := some "b" })]

def idlessResponses (r : ConsumerQueueItem) : HttpOutcome :=
  if r.UrlToProcess = showUrl "1" then .success "\x7b\"name\":\"a\"\x7d"
  else .success "\x7b\"name\":\"b\"\x7d"

def idlessCycle : CycleInput twoWaiting.queue.rows :=
  .first _ idlessResponses .accepting

/-- Every write is accepted, but the second document replaces the first. -/
theorem show_replaced :
    idlessCycle.writes.AcceptsShows (idlessCycle.fetched idlessBodies
        ).shows.length ∧
      ¬ Retained idlessBodies
        ((History.start twoWaiting).process idlessBodies { index := "tv" }
          none idlessCycle) (showUrl "1") := by
  refine ⟨WriteOutcomes.accepting_shows _, fun h => ?_⟩
  rcases h with hqueued | ⟨d, hd, hget | ⟨row, hrow, _⟩⟩
  · revert hqueued
    decide
  · have hfirst : ∀ p ∈ ((History.start twoWaiting).process idlessBodies
        { index := "tv" } none idlessCycle).handed,
        p.1 = showUrl "1" → p.2 = { name := some "a" } := by decide
    obtain rfl : d = { name := some "a" } := hfirst _ hd rfl
    revert hget
    decide
  · cases hrow

end TvMazeScraper
