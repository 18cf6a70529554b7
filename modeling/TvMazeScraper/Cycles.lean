import TvMazeScraper.Lib.Machine
import TvMazeScraper.Consumer

/-!
# Cycles that do not overlap

`consuming` runs `ConsumeLogic` again and again.  A condition on the inputs of
each cycle says which runs are considered.

In a settled cycle the fate of a row depends only on its URL, and the writes
of the shows are accepted.  What settled cycles do is a relation between the
first and the last world, `Ingested`: rows only leave, rows with a failing URL
stay, and the index takes the shows of the rows that left.

* `CycleInput.Settled.rows_iff` and `CycleInput.Settled.stored` say what one
  settled cycle does to the queue and to the index.
* `ingested_of_run` says it of every run of settled cycles.
-/

namespace TvMazeScraper

open Machine

/-- Cycles one after the other.  The event of a step is the list of the rows
that the cycle took. -/
def consuming (json : JsonConvert) (config : ELKConfiguration)
    (admits : ∀ w : World, CycleInput w.queue.rows → Prop) :
    Machine World (List ConsumerQueueItem) where
  Step w taken w' := ∃ input : CycleInput w.queue.rows, admits w input ∧
    taken = input.topTen.picked ∧ w' = consumeLogic json config w input

/-! ## Settled cycles -/

/-- The requests for these rows go as `fetch` says: the body is that of the
show of the URL, or the answer is an error status or 422. -/
def Follows (json : JsonConvert) (fetch : String → Option ShowDetails)
    (responses : Responses) (rows : List ConsumerQueueItem) : Prop :=
  ∀ r ∈ rows,
    match fetch r.UrlToProcess with
    | some d => ∃ body, responses r = .success body ∧
        json.deserializeShowDetails body = .ok (some d)
    | none => responses r = .errorStatus ∨ responses r = .unprocessableEntity

/-- A cycle whose requests go as `fetch` says and whose shows are accepted. -/
structure CycleInput.Settled (json : JsonConvert)
    (fetch : String → Option ShowDetails) {rows : List ConsumerQueueItem}
    (input : CycleInput rows) : Prop where
  follows : Follows json fetch input.responses input.topTen.picked
  accepts : input.writes.AcceptsShows (input.fetched json).shows.length

section Follows

variable {json : JsonConvert} {fetch : String → Option ShowDetails}
  {responses : Responses} {rows : List ConsumerQueueItem}

/-- The task of a row adds the show of its URL, if the URL has one. -/
theorem fetchTask_of_follows (h : Follows json fetch responses rows)
    {r : ConsumerQueueItem} (hr : r ∈ rows) :
    fetchTask json responses r
      = .ok ((fetch r.UrlToProcess).map some) := by
  have hrow := h r hr
  unfold fetchTask doUrl
  cases hfetch : fetch r.UrlToProcess with
  | some d =>
    rw [hfetch] at hrow
    rcases hrow with ⟨body, hresponse, hbody⟩
    rw [hresponse]
    simp only [hbody]
    rfl
  | none =>
    rw [hfetch] at hrow
    rcases hrow with hresponse | hresponse
    · rw [hresponse]
      rfl
    · rw [hresponse]
      rfl

theorem addedDocument_of_follows (h : Follows json fetch responses rows)
    {r : ConsumerQueueItem} (hr : r ∈ rows) :
    addedDocument json responses r = (fetch r.UrlToProcess).map some := by
  unfold addedDocument
  rw [fetchTask_of_follows h hr]

/-- No task throws. -/
theorem not_faults_of_follows (h : Follows json fetch responses rows) :
    ¬ Faults json responses rows := by
  intro hfault
  rcases hfault with ⟨r, hr, e, he⟩
  rw [fetchTask_of_follows h hr] at he
  cases he

end Follows

namespace CycleInput.Settled

variable {json : JsonConvert} {config : ELKConfiguration}
  {fetch : String → Option ShowDetails} {w : World}
  {input : CycleInput w.queue.rows}

/-- The processed rows of a settled cycle are those with a show. -/
theorem mem_processedUrls (h : input.Settled json fetch)
    {r : ConsumerQueueItem} :
    r ∈ (input.fetched json).processedUrls ↔
      r ∈ input.topTen.picked ∧ (fetch r.UrlToProcess).isSome := by
  show r ∈ (fetchedOf json input.responses input.completion).processedUrls ↔ _
  rw [TvMazeScraper.mem_processedUrls]
  apply and_congr_right
  intro hr
  rw [addedDocument_of_follows h.follows hr, Option.isSome_map]

/-- The rows that a settled cycle leaves in the queue. -/
theorem rows_iff (h : input.Settled json fetch) {r : ConsumerQueueItem} :
    r ∈ (consumeLogic json config w input).queue.rows ↔ r ∈ w.queue.rows ∧
      (r ∈ input.topTen.picked → fetch r.UrlToProcess = none) := by
  rw [consumeLogic_of_no_fault json config (not_faults_of_follows h.follows)]
  show r ∈ (w.queue.without (input.fetched json).processedUrls).rows ↔ _
  rw [ConsumerQueue.mem_without (fun r hr => processedUrls_subset hr),
    h.mem_processedUrls, not_and]
  simp

/-- A settled cycle removes rows and adds none. -/
theorem rows_sublist (config : ELKConfiguration)
    (h : input.Settled json fetch) :
    (consumeLogic json config w input).queue.rows.Sublist w.queue.rows := by
  rw [consumeLogic_of_no_fault json config (not_faults_of_follows h.follows)]
  exact List.filter_sublist

/-- A settled cycle puts the shows of the rows that it took. -/
theorem stored (config : ELKConfiguration) (h : input.Settled json fetch) :
    ∃ stored, (consumeLogic json config w input).storage.shows
        = w.storage.shows.putAll stored ∧
      ∀ d, d ∈ stored ↔
        ∃ r ∈ input.topTen.picked, fetch r.UrlToProcess = some d := by
  rw [consumeLogic_of_no_fault json config (not_faults_of_follows h.follows)]
  refine ⟨_, loadData_shows json config h.accepts w.storage, ?_⟩
  intro d
  have hshows : ∀ r ∈ input.topTen.picked,
      addedDocument json input.responses r = some (some d) ↔
        fetch r.UrlToProcess = some d := by
    intro r hr
    rw [addedDocument_of_follows h.follows hr]
    simp
  rw [List.mem_filterMap]
  constructor
  · intro hd
    rcases hd with ⟨document, hdocument, rfl⟩
    obtain ⟨r, hr, hadded⟩ := mem_shows.mp hdocument
    exact ⟨r, hr, (hshows r hr).mp hadded⟩
  · intro hd
    rcases hd with ⟨r, hr, hfetch⟩
    exact ⟨some d, mem_shows.mpr ⟨r, hr, (hshows r hr).mpr hfetch⟩, rfl⟩

end CycleInput.Settled

/-! ## Runs of settled cycles -/

/-- What settled cycles do between two worlds. -/
structure Ingested (fetch : String → Option ShowDetails) (w w' : World) :
    Prop where
  sublist : w'.queue.rows.Sublist w.queue.rows
  failing : ∀ r ∈ w.queue.rows, fetch r.UrlToProcess = none →
    r ∈ w'.queue.rows
  stored : ∃ stored, w'.storage.shows = w.storage.shows.putAll stored ∧
    ∀ d, d ∈ stored ↔ ∃ r ∈ w.queue.rows, r ∉ w'.queue.rows ∧
      fetch r.UrlToProcess = some d

namespace Ingested

variable {fetch : String → Option ShowDetails} {w w' w'' : World}

theorem refl (fetch : String → Option ShowDetails) (w : World) :
    Ingested fetch w w where
  sublist := .refl _
  failing := fun _ hr _ => hr
  stored := by
    refine ⟨[], rfl, fun d => ?_⟩
    constructor
    · intro hd
      cases hd
    · intro hd
      rcases hd with ⟨r, hr, hnot, _⟩
      exact absurd hr hnot

theorem trans (h : Ingested fetch w w') (h' : Ingested fetch w' w'') :
    Ingested fetch w w'' where
  sublist := h'.sublist.trans h.sublist
  failing := fun r hr hfetch =>
    h'.failing r (h.failing r hr hfetch) hfetch
  stored := by
    rcases h.stored with ⟨first, hfirst, hmem⟩
    rcases h'.stored with ⟨second, hsecond, hmem'⟩
    refine ⟨first ++ second, ?_, fun d => ?_⟩
    · rw [hsecond, hfirst, KeyedStore.putAll_append]
    · rw [List.mem_append, hmem, hmem']
      constructor
      · intro hd
        rcases hd with ⟨r, hr, hnot, hfetch⟩ | ⟨r, hr, hnot, hfetch⟩
        · exact ⟨r, hr, fun hin => hnot (h'.sublist.subset hin), hfetch⟩
        · exact ⟨r, h.sublist.subset hr, hnot, hfetch⟩
      · intro hd
        rcases hd with ⟨r, hr, hnot, hfetch⟩
        -- a row that is gone at the end left in the first or in the second
        -- part of the run
        by_cases hmiddle : r ∈ w'.queue.rows
        · exact .inr ⟨r, hmiddle, hnot, hfetch⟩
        · exact .inl ⟨r, hr, hmiddle, hfetch⟩

/-- When no row with a show is left, the index takes exactly the shows of the
URLs that were queued. -/
theorem stored_of_drained (h : Ingested fetch w w')
    (hdrained : ∀ r ∈ w'.queue.rows, fetch r.UrlToProcess = none) :
    ∃ stored, w'.storage.shows = w.storage.shows.putAll stored ∧
      ∀ d, d ∈ stored ↔ ∃ u ∈ w.queue.urls, fetch u = some d := by
  rcases h.stored with ⟨stored, hstored, hmem⟩
  refine ⟨stored, hstored, fun d => ?_⟩
  rw [hmem]
  constructor
  · intro hd
    rcases hd with ⟨r, hr, _, hfetch⟩
    exact ⟨_, List.mem_map_of_mem hr, hfetch⟩
  · intro hd
    rcases hd with ⟨u, hu, hfetch⟩
    obtain ⟨r, hr, rfl⟩ := List.mem_map.mp hu
    refine ⟨r, hr, fun hin => ?_, hfetch⟩
    rw [hdrained r hin] at hfetch
    cases hfetch

end Ingested

/-- One settled cycle. -/
theorem ingested_of_cycle {json : JsonConvert} (config : ELKConfiguration)
    {fetch : String → Option ShowDetails} {w : World}
    {input : CycleInput w.queue.rows} (h : input.Settled json fetch) :
    Ingested fetch w (consumeLogic json config w input) where
  sublist := h.rows_sublist config
  failing := fun r hr hfetch => h.rows_iff.mpr ⟨hr, fun _ => hfetch⟩
  stored := by
    obtain ⟨stored, hstored, hmem⟩ := h.stored config
    refine ⟨stored, hstored, fun d => ?_⟩
    rw [hmem]
    constructor
    · intro hd
      rcases hd with ⟨r, hr, hfetch⟩
      refine ⟨r, input.topTen.mem_of_mem_picked hr, fun hin => ?_, hfetch⟩
      rw [(h.rows_iff.mp hin).2 hr] at hfetch
      cases hfetch
    · intro hd
      rcases hd with ⟨r, hr, hnot, hfetch⟩
      refine ⟨r, ?_, hfetch⟩
      by_contra hpicked
      exact hnot (h.rows_iff.mpr ⟨hr, fun hin => absurd hin hpicked⟩)

/-- A run of settled cycles. -/
theorem ingested_of_run {json : JsonConvert} {config : ELKConfiguration}
    {fetch : String → Option ShowDetails}
    {admits : ∀ w : World, CycleInput w.queue.rows → Prop}
    (hadmits : ∀ w input, admits w input → input.Settled json fetch)
    {w w' : World} {taken : List (List ConsumerQueueItem)}
    (h : (consuming json config admits).Run w taken w') :
    Ingested fetch w w' := by
  apply h.relates (Ingested.refl fetch) (fun _ _ _ => Ingested.trans)
  intro w taken w' hstep
  rcases hstep with ⟨input, hinput, _, rfl⟩
  exact ingested_of_cycle config (hadmits w input hinput)

/-! ## A concrete fetch -/

theorem twoResponses_follow (rows : List ConsumerQueueItem) :
    Follows twoBodies (fun url => some (twoShows url)) twoResponses rows := by
  intro r _
  show ∃ body, twoResponses r = .success body ∧
    twoBodies.deserializeShowDetails body = .ok (some (twoShows _))
  unfold twoResponses twoShows
  by_cases hurl : r.UrlToProcess = showUrl "1"
  · rw [if_pos hurl, if_pos hurl]
    exact ⟨_, rfl, rfl⟩
  · rw [if_neg hurl, if_neg hurl]
    exact ⟨_, rfl, rfl⟩

end TvMazeScraper
