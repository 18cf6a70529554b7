import TvMazeScraper.CastIndex
import TvMazeScraper.ElasticTvMaze.Search

/-!
# Serving what the cycles stored

Both paths of `LoadData` store a show whatever its nested members are, and
`Search` reads them without a check.  So one stored show without a cast makes
every page with it fail.

* `allServable_of_cycle`: a cycle keeps every indexed show servable when the
  shows that it fetches are.
* `search_of_run`: after a run of such cycles every page is served.
* `stored_not_served`: one show without `_embedded`.
-/

namespace TvMazeScraper

open Machine

/-- Every show of an index can be served. -/
def AllServable (index : Index ShowDetails) : Prop :=
  ∀ id d, index.get? id = some d → d.Servable

/-- Elasticsearch returns the stored documents unchanged. -/
def AnswersFrom (index : Index ShowDetails)
    (searchAsync : SearchRequest → SearchResponse) : Prop :=
  ∀ request, ∀ hit ∈ (searchAsync request).Hits,
    index.get? hit.Source.id = some hit.Source

/-- Nothing that `Search` reads is null in the shows that a cycle fetches. -/
def CycleInput.FetchesServable (json : JsonConvert)
    {rows : List ConsumerQueueItem} (input : CycleInput rows) : Prop :=
  ∀ d, some d ∈ input.documents json → d.Servable

/-- Cycles in which a task throws or the fetched shows can be served. -/
def servableFetching (json : JsonConvert) (config : ELKConfiguration) :
    Machine World (List ConsumerQueueItem) :=
  consuming json config fun _ input =>
    input.Faults json ∨ input.FetchesServable json

section Serving

variable {json : JsonConvert} {config : ELKConfiguration} {w w' : World}

theorem allServable_empty : AllServable .empty := by
  intro id d hd
  rw [KeyedStore.get?_empty] at hd
  cases hd

/-- A cycle keeps every indexed show servable when the shows that it fetches
are, whatever becomes of its writes. -/
theorem allServable_of_cycle {input : CycleInput w.queue.rows}
    (hservable : AllServable w.storage.shows)
    (hfetched : input.Faults json ∨ input.FetchesServable json) :
    AllServable (consumeLogic json config w input).storage.shows := by
  by_cases hfault : input.Faults json
  · rw [consumeLogic_of_fault json config hfault]
    exact hservable
  · rw [consumeLogic_of_no_fault json config hfault]
    obtain ⟨stored, persons, hload, hmem⟩ := loadData_cases json config
      input.writes (input.fetched json).shows w.storage
    intro id d hd
    rw [hload] at hd
    rcases KeyedStore.mem_or_of_get?_putAll hd with hnew | hold
    · refine hfetched.resolve_left hfault d ?_
      exact (shows_perm_documents json input).mem_iff.mp (hmem d hnew)
    · exact hservable id d hold

theorem allServable_of_run {taken : List (List ConsumerQueueItem)}
    (hstart : AllServable w.storage.shows)
    (hrun : (servableFetching json config).Run w taken w') :
    AllServable w'.storage.shows := by
  apply hrun.invariant (P := fun w => AllServable w.storage.shows)
  · intro w taken w' hservable hstep
    rcases hstep with ⟨input, hfetched, _, rfl⟩
    exact allServable_of_cycle hservable hfetched
  · exact hstart

/-- After every run of cycles that fetch servable shows, every page of stored
shows is served, with every hit once. -/
theorem search_of_run {taken : List (List ConsumerQueueItem)}
    (hstart : AllServable w.storage.shows)
    (hrun : (servableFetching json config).Run w taken w')
    {searchAsync : SearchRequest → SearchResponse}
    (hanswers : AnswersFrom w'.storage.shows searchAsync)
    (query : Option String) (fuzziness pageNumber pageSize : Int32) :
    search searchAsync query fuzziness pageNumber pageSize
      = .ok ((searchAsync (searchRequest query fuzziness pageNumber
          pageSize)).Hits.map fun hit => hit.Source.served) := by
  apply search_of_servable
  intro hit hhit
  exact allServable_of_run hstart hrun _ _ (hanswers _ hit hhit)

end Serving

/-! ### One stored show -/

/-- Elasticsearch has this one show. -/
def answering (d : ShowDetails) (_ : SearchRequest) : SearchResponse where
  Hits := [{ Source := d }]

theorem answering_from {index : Index ShowDetails} {d : ShowDetails}
    (h : index.get? d.id = some d) : AnswersFrom index (answering d) := by
  intro request hit hhit
  rw [List.mem_singleton.mp hhit]
  exact h

theorem search_of_run_cast :
    search (answering (showWithCast 1)) none 2 1 10
      = .ok [(showWithCast 1).served] := by
  have hfetched : oneCastCycle.FetchesServable castBodies := by
    have hdocuments : oneCastCycle.documents castBodies
        = [some (showWithCast 1)] := by decide
    intro d hd
    rw [hdocuments, List.mem_singleton] at hd
    rw [Option.some.inj hd]
    decide
  have hrun : (servableFetching castBodies { index := "tv" }).Run oneCast
      [oneCastCycle.topTen.picked] (consumeLogic castBodies
        { index := "tv" } oneCast oneCastCycle) :=
    .single ⟨oneCastCycle, .inr hfetched, rfl, rfl⟩
  exact search_of_run allServable_empty hrun (answering_from (by rfl)) none 2
    1 10

/-- A cycle that fetches the body of show 1, which has no `_embedded`. -/
def bareCycle : CycleInput oneCast.queue.rows :=
  .first _ twoResponses .accepting

/-- The show is stored, and the page with it is not served. -/
theorem stored_not_served :
    twoBodies.deserializeShowDetails "\x7b\"id\":1\x7d"
        = .ok (some { id := 1 }) ∧
      bareCycle.writes.AcceptsAll ∧ oneCast.storage.shows = .empty ∧
      AnswersFrom (consumeLogic twoBodies { index := "tv" } oneCast
        bareCycle).storage.shows (answering { id := 1 }) ∧
      search (answering { id := 1 }) none 2 1 10 = .error .nullReference :=
  ⟨rfl, WriteOutcomes.accepting_all, rfl, answering_from (by rfl), rfl⟩

end TvMazeScraper
