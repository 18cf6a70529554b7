import TvMazeScraper.ElasticTvMaze.FindMissingUrls

/-!
# The consumer

`LoadUrls` and `ConsumeLogic` as the service runs them when nothing else
moves.  The steps they are made of are functions of their own, because
`TvMazeScraper.Interleaving` runs the same steps in any order.

What a cycle does not decide is its input: the rows that `Take(20)` returns,
the order in which the parallel tasks get to their two `List.Add` calls, the
response to each request, and the outcomes of the writes.

* `whenAll_of_no_fault` and `whenAll_of_fault`: a task that throws stops the
  cycle before anything is saved, and otherwise the processed rows and the
  documents are those of the rows whose body was deserialized.
* `consumeLogic_of_fault` and `consumeLogic_of_no_fault`: the two ways a
  cycle can go.
* `consumeLogic_keys` and `consumeLogic_unprocessed`: no cycle removes an id
  from an index, and none writes a row of `UnprocessedEpisodesDetails`.
-/

namespace TvMazeScraper

/-- The database and the indexes. -/
structure World where
  queue : ConsumerQueue
  storage : Storage

/-! ## `LoadUrls` -/

/-- The test of `LoadUrls` that makes it return early. -/
def stillProcessing (forceLoad : Bool) (queue : ConsumerQueue) : Bool :=
  forceLoad == false && decide (0 < queue.rows.length)

/-- `urlsMissing`: the URLs of the listing that `FindMissingUrls` keeps. -/
def missingUrls (json : JsonConvert) (listing : HttpOutcome)
    (reads : ReadOutcomes) (index : Index ShowDetails) :
    Except Exn (List String) := do
  let urlsAll ← getAllShowsUrl json listing
  findMissingUrls reads index urlsAll

/-- `LoadUrls`.  The exceptions of its calls escape. -/
def loadUrls (json : JsonConvert) (forceLoad : Bool) (listing : HttpOutcome)
    (reads : ReadOutcomes) (w : World) : World × Except Exn Unit :=
  match missingUrls json listing reads w.storage.shows with
  | .error e => (w, .error e)
  | .ok urlsMissing =>
    if stillProcessing forceLoad w.queue then (w, .ok ())
    else ({ w with queue := w.queue.addRange urlsMissing }, .ok ())

/-- `LoadUrls` leaves the indexes and the rejected documents alone, and it
only adds to the queue. -/
theorem loadUrls_cases (json : JsonConvert) (forceLoad : Bool)
    (listing : HttpOutcome) (reads : ReadOutcomes) (w : World) :
    ∃ urls, (loadUrls json forceLoad listing reads w).1
      = { w with queue := w.queue.addRange urls } := by
  have hnothing : w = { w with queue := w.queue.addRange [] } := by
    rw [ConsumerQueue.addRange_nil]
  unfold loadUrls
  cases missingUrls json listing reads w.storage.shows with
  | error e => exact ⟨[], hnothing⟩
  | ok urlsMissing =>
    by_cases hstill : stillProcessing forceLoad w.queue = true
    · simp only [hstill, if_true]
      exact ⟨[], hnothing⟩
    · simp only [hstill]
      exact ⟨urlsMissing, rfl⟩

/-! ## The requests of a cycle -/

/-- `Do`.  The result of `onDone`, nothing after a 422 or after the callback
`onError` (which only logs), or the exception that escapes: that of `onDone`,
or the `TaskCanceledException` of a timeout. -/
def doUrl {β : Type} (response : HttpOutcome) (onDone : String → Except Exn β) :
    Except Exn (Option β) :=
  match response with
  | .success body =>
    match onDone body with
    | .error e => .error e
    | .ok result => .ok (some result)
  | .unprocessableEntity => .ok none
  | .errorStatus => .ok none
  | .connectionFailure => .ok none
  | .timeout => .error .taskCanceled

/-- The response to the request for each row. -/
abbrev Responses := ConsumerQueueItem → HttpOutcome

/-- The task of a row: the document that it adds to `shows`, which is null
when the body deserializes to null, or nothing, or an exception. -/
def fetchTask (json : JsonConvert) (responses : Responses)
    (doer : ConsumerQueueItem) : Except Exn (Option (Option ShowDetails)) :=
  doUrl (responses doer) json.deserializeShowDetails

/-- The document that the task of a row adds, if it adds one. -/
def addedDocument (json : JsonConvert) (responses : Responses)
    (doer : ConsumerQueueItem) : Option (Option ShowDetails) :=
  match fetchTask json responses doer with
  | .ok added => added
  | .error _ => none

/-- The document that a task adds is that of the body that it got. -/
theorem success_of_addedDocument {json : JsonConvert}
    {responses : Responses} {doer : ConsumerQueueItem}
    {document : Option ShowDetails}
    (h : addedDocument json responses doer = some document) :
    ∃ body, responses doer = .success body ∧
      json.deserializeShowDetails body = .ok document := by
  unfold addedDocument fetchTask doUrl at h
  cases hresponse : responses doer with
  | success body =>
    rw [hresponse] at h
    refine ⟨body, rfl, ?_⟩
    cases hbody : json.deserializeShowDetails body with
    | error e => simp [hbody] at h
    | ok result =>
      simp only [hbody] at h
      cases h
      rfl
  | _ => simp [hresponse] at h

/-- The orders in which the tasks of a cycle add to `processedUrls` and to
`shows`.  The two calls of one task are not one step, so the lists can come
in different orders.  A single `List.Add` is taken to be one step, although
nothing locks the lists: no item is lost when two tasks add at once. -/
structure Completion (topTen : List ConsumerQueueItem) where
  urlOrder : List ConsumerQueueItem
  showOrder : List ConsumerQueueItem
  urlOrder_perm : urlOrder.Perm topTen
  showOrder_perm : showOrder.Perm topTen

/-- The tasks finish in the order of the rows. -/
def Completion.inOrder (topTen : List ConsumerQueueItem) :
    Completion topTen where
  urlOrder := topTen
  showOrder := topTen
  urlOrder_perm := .refl topTen
  showOrder_perm := .refl topTen

/-- What the tasks have filled when all of them ended. -/
structure Fetched where
  processedUrls : List ConsumerQueueItem
  shows : List (Option ShowDetails)

/-- The two lists after the tasks of a cycle. -/
def fetchedOf (json : JsonConvert) (responses : Responses)
    {topTen : List ConsumerQueueItem} (completion : Completion topTen) :
    Fetched where
  processedUrls := completion.urlOrder.filter fun doer =>
    (addedDocument json responses doer).isSome
  shows := completion.showOrder.filterMap (addedDocument json responses)

/-- The task of some row throws. -/
def Faults (json : JsonConvert) (responses : Responses)
    (topTen : List ConsumerQueueItem) : Prop :=
  ∃ doer ∈ topTen, ∃ e, fetchTask json responses doer = .error e

/-- The exception of a task. -/
def taskException (json : JsonConvert) (responses : Responses)
    (doer : ConsumerQueueItem) : Option Exn :=
  match fetchTask json responses doer with
  | .error e => some e
  | .ok _ => none

/-- What `await Task.WhenAll(...)` throws when the tasks that threw did so with
these, in the order of the tasks: the exception of a faulted task, or else the
cancellation of a canceled one. -/
def surfacing (exceptions : List Exn) : Option Exn :=
  (exceptions.find? (· ≠ .taskCanceled)).or exceptions.head?

/-- `await Task.WhenAll(...)`: every task runs to its end before anything is
thrown. -/
def whenAll (json : JsonConvert) (responses : Responses)
    {topTen : List ConsumerQueueItem} (completion : Completion topTen) :
    Except Exn Fetched :=
  match surfacing (topTen.filterMap (taskException json responses)) with
  | some e => .error e
  | none => .ok (fetchedOf json responses completion)

theorem taskException_eq_none {json : JsonConvert} {responses : Responses}
    {doer : ConsumerQueueItem} :
    taskException json responses doer = none ↔
      ∀ e, fetchTask json responses doer ≠ .error e := by
  unfold taskException
  cases fetchTask json responses doer with
  | error e => simp
  | ok added => simp

theorem surfacing_eq_none {exceptions : List Exn} :
    surfacing exceptions = none ↔ exceptions = [] := by
  unfold surfacing
  rw [Option.or_eq_none_iff, List.head?_eq_none_iff]
  exact and_iff_right_of_imp fun h => by rw [h]; rfl

theorem surfacing_taskException {json : JsonConvert} {responses : Responses}
    {topTen : List ConsumerQueueItem} :
    surfacing (topTen.filterMap (taskException json responses)) = none ↔
      ¬ Faults json responses topTen := by
  rw [surfacing_eq_none, List.filterMap_eq_nil_iff]
  unfold Faults
  push Not
  exact forall₂_congr fun doer _ => taskException_eq_none

/-- A task that throws stops the cycle. -/
theorem whenAll_of_fault {json : JsonConvert} {responses : Responses}
    {topTen : List ConsumerQueueItem} (completion : Completion topTen)
    (h : Faults json responses topTen) :
    ∃ e, whenAll json responses completion = .error e := by
  unfold whenAll
  cases hsurface : surfacing
      (topTen.filterMap (taskException json responses)) with
  | none => exact absurd h (surfacing_taskException.mp hsurface)
  | some e => exact ⟨e, rfl⟩

/-- When no task throws, the cycle goes on with the two lists. -/
theorem whenAll_of_no_fault {json : JsonConvert} {responses : Responses}
    {topTen : List ConsumerQueueItem} (completion : Completion topTen)
    (h : ¬ Faults json responses topTen) :
    whenAll json responses completion
      = .ok (fetchedOf json responses completion) := by
  unfold whenAll
  rw [surfacing_taskException.mpr h]

section Fetched

variable {json : JsonConvert} {responses : Responses}
  {topTen : List ConsumerQueueItem} {completion : Completion topTen}

/-- The processed rows are the rows whose task added a document. -/
theorem mem_processedUrls {doer : ConsumerQueueItem} :
    doer ∈ (fetchedOf json responses completion).processedUrls ↔
      doer ∈ topTen ∧ (addedDocument json responses doer).isSome := by
  unfold fetchedOf
  rw [List.mem_filter, completion.urlOrder_perm.mem_iff]

/-- The documents are those that the tasks of the rows added. -/
theorem mem_shows {document : Option ShowDetails} :
    document ∈ (fetchedOf json responses completion).shows ↔
      ∃ doer ∈ topTen, addedDocument json responses doer = some document := by
  unfold fetchedOf
  rw [List.mem_filterMap]
  exact exists_congr fun doer =>
    and_congr_left fun _ => completion.showOrder_perm.mem_iff

end Fetched

/-! ## `ConsumeLogic` -/

/-- What a cycle on a queue of these rows does not decide itself. -/
structure CycleInput (rows : List ConsumerQueueItem) where
  topTen : Take 20 rows
  completion : Completion topTen.picked
  responses : Responses
  writes : WriteOutcomes

/-- `ConsumeLogic` over the `LoadData` of any `ITvMazeStorage`.  Its exceptions
are caught and logged, so the call ends with whatever was done up to there. -/
def consumeLogicOn {σ : Type} (json : JsonConvert)
    (loadData : List (Option ShowDetails) → σ → σ) {queue : ConsumerQueue}
    (input : CycleInput queue.rows) (storage : σ) : ConsumerQueue × σ :=
  match whenAll json input.responses input.completion with
  | .error _ => (queue, storage)
  | .ok fetched =>
    match queue.removeRange fetched.processedUrls with
    | .error _ => (queue, storage)
    | .ok queue => (queue, loadData fetched.shows storage)

/-- `ConsumeLogic` over `ElasticTvMaze`. -/
def consumeLogic (json : JsonConvert) (config : ELKConfiguration) (w : World)
    (input : CycleInput w.queue.rows) : World :=
  match consumeLogicOn json (fun documents storage =>
      (loadData json config input.writes documents storage).1) input
      w.storage with
  | (queue, storage) => { queue := queue, storage := storage }

/-- The test of `ProcessDataIncremental` that makes it return early. -/
def comingFromTest (applicationInfo : Option ApplicationInfo) : Bool :=
  match applicationInfo with
  | some info => info.IsMainApplication == false
  | none => false

/-- `ProcessDataIncremental`. -/
def processDataIncremental (json : JsonConvert) (config : ELKConfiguration)
    (applicationInfo : Option ApplicationInfo) (w : World)
    (input : CycleInput w.queue.rows) : World :=
  if comingFromTest applicationInfo then w
  else consumeLogic json config w input

/-- The two lists of a cycle. -/
def CycleInput.fetched {rows : List ConsumerQueueItem} (json : JsonConvert)
    (input : CycleInput rows) : Fetched :=
  fetchedOf json input.responses input.completion

/-- The task of a row that the cycle took throws. -/
def CycleInput.Faults {rows : List ConsumerQueueItem} (json : JsonConvert)
    (input : CycleInput rows) : Prop :=
  TvMazeScraper.Faults json input.responses input.topTen.picked

/-- The processed rows are rows of the queue. -/
theorem processedUrls_subset {json : JsonConvert}
    {rows : List ConsumerQueueItem} {input : CycleInput rows}
    {r : ConsumerQueueItem} (h : r ∈ (input.fetched json).processedUrls) :
    r ∈ rows :=
  input.topTen.mem_of_mem_picked (mem_processedUrls.mp h).1

/-- A cycle in which a task throws changes nothing. -/
theorem consumeLogic_of_fault (json : JsonConvert) (config : ELKConfiguration)
    {w : World} {input : CycleInput w.queue.rows} (h : input.Faults json) :
    consumeLogic json config w input = w := by
  obtain ⟨e, he⟩ := whenAll_of_fault input.completion h
  unfold consumeLogic consumeLogicOn
  rw [he]

/-- A cycle in which no task throws removes the processed rows and loads
their documents. -/
theorem consumeLogic_of_no_fault (json : JsonConvert)
    (config : ELKConfiguration) {w : World} {input : CycleInput w.queue.rows}
    (h : ¬ input.Faults json) :
    consumeLogic json config w input
      = { queue := w.queue.without (input.fetched json).processedUrls
          storage := (loadData json config input.writes
            (input.fetched json).shows w.storage).1 } := by
  have hremove : w.queue.removeRange (fetchedOf json input.responses
      input.completion).processedUrls = .ok (w.queue.without _) :=
    ConsumerQueue.removeRange_of_subset fun r hr => processedUrls_subset hr
  unfold consumeLogic consumeLogicOn
  simp only [whenAll_of_no_fault input.completion h, hremove]
  rfl

/-- No cycle writes a row of `UnprocessedEpisodesDetails`. -/
theorem consumeLogic_unprocessed (json : JsonConvert)
    (config : ELKConfiguration) (w : World)
    (input : CycleInput w.queue.rows) :
    (consumeLogic json config w input).storage.unprocessed
      = w.storage.unprocessed := by
  by_cases h : input.Faults json
  · rw [consumeLogic_of_fault json config h]
  · rw [consumeLogic_of_no_fault json config h]
    exact loadData_unprocessed json config _ _ _

def Storage.empty : Storage where
  shows := .empty
  persons := .empty
  unprocessed := .empty

/-- Empty indexes and these URLs in the queue. -/
def World.queued (urls : List String) : World where
  queue := ConsumerQueue.empty.addRange urls
  storage := .empty

/-- Elasticsearch accepts every write. -/
def WriteOutcomes.accepting : WriteOutcomes where
  index := true
  showBulk _ := .processed fun _ => false
  personBulk _ := .processed fun _ => false

theorem WriteOutcomes.accepting_shows (count : Nat) :
    WriteOutcomes.accepting.AcceptsShows count :=
  ⟨fun _ => rfl, fun _ _ _ => ⟨_, rfl, fun _ _ => rfl⟩⟩

/-- A cycle that takes the first rows, whose tasks end in the order of the
rows. -/
def CycleInput.first (rows : List ConsumerQueueItem) (responses : Responses)
    (writes : WriteOutcomes) : CycleInput rows where
  topTen := .first 20 rows
  completion := .inOrder _
  responses := responses
  writes := writes

/-- The shows 1 and 2. -/
def twoShows (url : String) : ShowDetails :=
  if url = showUrl "1" then { id := 1 } else { id := 2 }

def twoBodies : JsonConvert :=
  .ofTable [("\x7b\"id\":1\x7d", { id := 1 }),
    ("\x7b\"id\":2\x7d", { id := 2 })]

def twoResponses (r : ConsumerQueueItem) : HttpOutcome :=
  if r.UrlToProcess = showUrl "1" then .success "\x7b\"id\":1\x7d"
  else .success "\x7b\"id\":2\x7d"

/-- Elasticsearch answers every search. -/
def answeredReads : ReadOutcomes where
  openPit := true
  search _ := true

theorem answeredReads_answered : answeredReads.Answered :=
  ⟨rfl, fun _ => rfl⟩

/-- A converter that knows the listing of show 1. -/
def oneListed : JsonConvert :=
  { twoBodies with
    deserializeUpdates := fun _ =>
      .ok (some { keys := ["1"], nodup := by decide }) }

theorem getAllShowsUrl_oneListed :
    getAllShowsUrl oneListed (.success "\x7b\"1\":1\x7d")
      = .ok [(1, showUrl "1")] := by
  have hpos : ∀ i ∈ ([1] : List Int32), 0 < i := by
    rw [List.forall_mem_singleton]
    decide
  exact getAllShowsUrl_of_positive hpos rfl

/-- Show 1 is missing in an empty index. -/
theorem findMissingUrls_empty :
    findMissingUrls answeredReads .empty [(1, showUrl "1")]
      = .ok [showUrl "1"] := by
  rw [findMissingUrls_answered answeredReads_answered]
  rfl

/-- A converter that knows the listing of the shows 1 and 2. -/
def twoListed : JsonConvert :=
  { twoBodies with
    deserializeUpdates := fun _ =>
      .ok (some { keys := ["1", "2"], nodup := by decide }) }

theorem getAllShowsUrl_twoListed :
    getAllShowsUrl twoListed (.success "\x7b\"1\":1,\"2\":1\x7d")
      = .ok [(1, showUrl "1"), (2, showUrl "2")] := by
  have hpos : ∀ i ∈ ([1, 2] : List Int32), 0 < i := by
    rw [List.forall_mem_cons, List.forall_mem_singleton]
    decide
  exact getAllShowsUrl_of_positive hpos rfl

theorem findMissingUrls_twoListed :
    findMissingUrls answeredReads .empty
        [(1, showUrl "1"), (2, showUrl "2")]
      = .ok [showUrl "1", showUrl "2"] := by
  rw [findMissingUrls_answered answeredReads_answered]
  rfl

end TvMazeScraper
