import TvMazeScraper.Consumer

/-!
# The outcomes of the fetches of a cycle

A fetch ends in a document, in nothing, or in an exception that escapes from
`Do`: the `TaskCanceledException` of a timeout, or the exception of a body
that does not deserialize.  `Task.WhenAll` surfaces such an exception before
the rows of the other fetches are removed.

* `passedToLoadData`: what a cycle passes to `LoadData`.
* `consumeLogicOn_storage`: a cycle changes the storage by these calls only,
  whatever the storage is.
* `unspoilt_of_no_escape`: without such an exception, each row has its own
  fate.
* `unspoilt_iff`: with one, every document of the cycle is lost.
-/

namespace TvMazeScraper

/-- The document of a response with a body that deserializes. -/
def bodyDocument (json : JsonConvert) :
    HttpOutcome → Option (Option ShowDetails)
  | .success body =>
    match json.deserializeShowDetails body with
    | .ok document => some document
    | .error _ => none
  | _ => none

/-- The exception of a response escapes from `Do`. -/
def Escapes (json : JsonConvert) : HttpOutcome → Prop
  | .success body => ∃ e, json.deserializeShowDetails body = .error e
  | .timeout => True
  | _ => False

/-- The documents that a cycle passes to each call of `LoadData`: what a
storage has noted that keeps them all. -/
def passedToLoadData (json : JsonConvert) (w : World)
    (input : CycleInput w.queue.rows) : List (List (Option ShowDetails)) :=
  (consumeLogicOn json (fun documents calls => calls ++ [documents]) input
    []).2

/-- One bad fetch does not spoil the cycle: exactly the rows whose body
deserialized leave the queue, exactly their documents are passed to
`LoadData`, and the storage is what these calls make of it. -/
structure Unspoilt (json : JsonConvert) (config : ELKConfiguration)
    (w : World) (input : CycleInput w.queue.rows) : Prop where
  queue : ∀ r, r ∈ (consumeLogic json config w input).queue.rows ↔
    r ∈ w.queue.rows ∧ ¬ (r ∈ input.topTen.picked ∧
      (bodyDocument json (input.responses r)).isSome)
  passes : (passedToLoadData json w input).flatten.Perm
    (input.topTen.picked.filterMap fun r =>
      bodyDocument json (input.responses r))
  storage : (consumeLogic json config w input).storage
    = (passedToLoadData json w input).foldl (fun storage documents =>
        (loadData json config input.writes documents storage).1) w.storage

section FetchOutcomes

variable {json : JsonConvert} {config : ELKConfiguration}

/-- The task of a row adds the document of its response. -/
theorem addedDocument_eq (json : JsonConvert) (responses : Responses)
    (r : ConsumerQueueItem) :
    addedDocument json responses r = bodyDocument json (responses r) := by
  unfold addedDocument fetchTask doUrl bodyDocument
  cases responses r with
  | success body =>
    cases hbody : json.deserializeShowDetails body with
    | error e => simp only [hbody]
    | ok document => simp only [hbody]
  | _ => rfl

/-- The task of a row throws when the exception of its response escapes. -/
theorem exists_error_iff {responses : Responses} {r : ConsumerQueueItem} :
    (∃ e, fetchTask json responses r = .error e) ↔
      Escapes json (responses r) := by
  unfold fetchTask doUrl Escapes
  cases responses r with
  | success body =>
    cases hbody : json.deserializeShowDetails body with
    | error e => simp [hbody]
    | ok document => simp [hbody]
  | _ => simp

theorem faults_iff {w : World} {input : CycleInput w.queue.rows} :
    input.Faults json ↔
      ∃ r ∈ input.topTen.picked, Escapes json (input.responses r) := by
  unfold CycleInput.Faults Faults
  exact exists_congr fun r => and_congr_right fun _ => exists_error_iff

/-- Whatever the storage is, its last state is what the calls of `LoadData`
make of the first one. -/
theorem consumeLogicOn_storage {σ : Type} (json : JsonConvert)
    (loadData : List (Option ShowDetails) → σ → σ) {w : World}
    (input : CycleInput w.queue.rows) (storage : σ) :
    (consumeLogicOn json loadData input storage).2
      = (passedToLoadData json w input).foldl (fun storage documents =>
          loadData documents storage) storage := by
  unfold passedToLoadData consumeLogicOn
  cases whenAll json input.responses input.completion with
  | error e => rfl
  | ok fetched =>
    cases hremove : w.queue.removeRange fetched.processedUrls with
    | error e => simp only [hremove]; rfl
    | ok queue => simp only [hremove]; rfl

/-- A cycle stores what it passes to `LoadData`. -/
theorem consumeLogic_storage (json : JsonConvert) (config : ELKConfiguration)
    (w : World) (input : CycleInput w.queue.rows) :
    (consumeLogic json config w input).storage
      = (passedToLoadData json w input).foldl (fun storage documents =>
          (loadData json config input.writes documents storage).1)
          w.storage :=
  consumeLogicOn_storage json (fun documents storage =>
    (loadData json config input.writes documents storage).1) input w.storage

/-- What a cycle in which no task throws passes to `LoadData`. -/
theorem passedToLoadData_of_no_fault {w : World}
    {input : CycleInput w.queue.rows} (h : ¬ input.Faults json) :
    passedToLoadData json w input = [(input.fetched json).shows] := by
  have hremove : w.queue.removeRange (fetchedOf json input.responses
      input.completion).processedUrls = .ok (w.queue.without _) :=
    ConsumerQueue.removeRange_of_subset fun r hr => processedUrls_subset hr
  unfold passedToLoadData consumeLogicOn
  simp only [whenAll_of_no_fault input.completion h, hremove]
  rfl

theorem passedToLoadData_of_fault {w : World} {input : CycleInput w.queue.rows}
    (h : input.Faults json) : passedToLoadData json w input = [] := by
  obtain ⟨e, he⟩ := whenAll_of_fault input.completion h
  unfold passedToLoadData consumeLogicOn
  rw [he]

/-- Without an exception that escapes, each row has its own fate. -/
theorem unspoilt_of_no_escape {w : World} {input : CycleInput w.queue.rows}
    (h : ¬ input.Faults json) : Unspoilt json config w input := by
  refine ⟨?_, ?_, consumeLogic_storage json config w input⟩
  · intro r
    rw [consumeLogic_of_no_fault json config h]
    show r ∈ (w.queue.without (input.fetched json).processedUrls).rows ↔ _
    rw [ConsumerQueue.mem_without fun r hr => processedUrls_subset hr]
    show r ∈ w.queue.rows ∧
      r ∉ (fetchedOf json input.responses input.completion).processedUrls ↔ _
    rw [mem_processedUrls, addedDocument_eq]
  · rw [passedToLoadData_of_no_fault h, List.flatten_singleton]
    have hperm := input.completion.showOrder_perm.filterMap
      (addedDocument json input.responses)
    simp only [addedDocument_eq] at hperm
    show (input.completion.showOrder.filterMap
      (addedDocument json input.responses)).Perm _
    simp only [addedDocument_eq]
    exact hperm

/-- A bad fetch does not spoil the cycle if and only if no exception of a
taken row escapes, or there is nothing to spoil. -/
theorem unspoilt_iff (json : JsonConvert) (config : ELKConfiguration)
    (w : World) (input : CycleInput w.queue.rows) :
    Unspoilt json config w input ↔
      (∀ r ∈ input.topTen.picked, ¬ Escapes json (input.responses r)) ∨
        ∀ r ∈ input.topTen.picked,
          bodyDocument json (input.responses r) = none := by
  by_cases hfault : input.Faults json
  · have hescape := faults_iff.mp hfault
    constructor
    · intro h
      refine .inr fun r hr => ?_
      by_contra hsome
      have hrow : r ∈ w.queue.rows := input.topTen.mem_of_mem_picked hr
      have hstays := (h.queue r).mp (by
        rw [consumeLogic_of_fault json config hfault]
        exact hrow)
      exact hstays.2 ⟨hr, Option.isSome_iff_ne_none.mpr hsome⟩
    · intro h
      rcases h with hnone | hnothing
      · obtain ⟨r, hr, he⟩ := hescape
        exact absurd he (hnone r hr)
      · refine ⟨?_, ?_, consumeLogic_storage json config w input⟩
        · intro r
          rw [consumeLogic_of_fault json config hfault]
          refine (and_iff_left ?_).symm
          intro hr
          rw [hnothing r hr.1] at hr
          exact absurd hr.2 (by decide)
        · rw [passedToLoadData_of_fault hfault,
            List.filterMap_eq_nil_iff.mpr hnothing]
          exact .nil
  · refine iff_of_true (unspoilt_of_no_escape hfault) (.inl ?_)
    intro r hr he
    exact hfault (faults_iff.mpr ⟨r, hr, he⟩)

end FetchOutcomes

/-! ### A timeout beside a show -/

/-- The URLs of the shows 1 and 2. -/
def bothQueued : World := .queued [showUrl "1", showUrl "2"]

/-- The request for show 1 times out. -/
def timeoutResponses (r : ConsumerQueueItem) : HttpOutcome :=
  if r.UrlToProcess = showUrl "1" then .timeout
  else .success "\x7b\"id\":2\x7d"

def timeoutCycle : CycleInput bothQueued.queue.rows :=
  .first _ timeoutResponses .accepting

/-- Show 2 was fetched, but its row stays and its document is not loaded. -/
theorem timeout_spoils :
    { Id := 1, UrlToProcess := showUrl "2" } ∈
        (consumeLogic twoBodies { index := "tv" } bothQueued
          timeoutCycle).queue.rows ∧
      passedToLoadData twoBodies bothQueued timeoutCycle = [] ∧
      ¬ Unspoilt twoBodies { index := "tv" } bothQueued timeoutCycle := by
  have hstays : { Id := 1, UrlToProcess := showUrl "2" } ∈
      (consumeLogic twoBodies { index := "tv" } bothQueued
        timeoutCycle).queue.rows := by decide
  refine ⟨hstays, rfl, fun h => ?_⟩
  have hleaves := ((h.queue _).mp hstays).2
  revert hleaves
  decide

end TvMazeScraper
