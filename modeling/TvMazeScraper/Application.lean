import TvMazeScraper.Duplicates
import TvMazeScraper.Provenance
import TvMazeScraper.Serving

/-!
# The whole application

The controllers and the nightly job on top of the calls that overlap.  Clients
send any requests at any time: `Search` reads what Elasticsearch has made
visible so far, and `ProcessAllData` begins a forced load when the key is
right.

* `application_simulation`: the calls of the application take the steps of
  `interleaving`, and the other events leave them alone.
* `answers_of_run`: every show in an answer was indexed from the start, or
  TVMaze has delivered it.
* `urls_nodup_without_key`: clients without the key can not get a URL into two
  rows.
-/

namespace TvMazeScraper

open Machine

/-- The calls under way, and what the searches see of the show index. -/
structure Application (ι κ : Type) where
  service : Service ι κ
  visible : Index ShowDetails

/-- The requests of clients with their answers, the nightly job, the steps of
the calls that have begun, and the refresh of the index. -/
inductive ApplicationEvent (ι κ : Type) where
  | searchShows (page : Option Int32) (q : Option String)
      (answer : Except Exn (List ShowDetails))
  | processAllData (i : ι) (key : String) (listing : HttpOutcome)
  | nightlyLoad (i : ι) (listing : HttpOutcome)
  | proceed (event : ServiceEvent ι κ)
  | refresh

/-- No request has come yet. -/
def Application.start (ι κ : Type) (w : World) : Application ι κ where
  service := .start ι κ w
  visible := w.storage.shows

/-- The event begins a `LoadUrls` call. -/
def ServiceEvent.Begins {ι κ : Type} : ServiceEvent ι κ → Prop
  | .list _ _ _ => True
  | _ => False

/-- The test at the start of `ProcessAllData`.  A request with another key is
answered with `Unauthorized`. -/
def authorized (apiKey : Option String) (key : String) : Bool :=
  some key = apiKey

section Application

variable {ι κ : Type} [DecidableEq ι] [DecidableEq κ]

/-- The application.  Elasticsearch answers a search of the endpoint from the
visible documents, while the searches of `FindMissingUrls` are taken to see
every write. -/
def application (json : JsonConvert) (config : ELKConfiguration)
    (apiKey : Option String)
    (searchAsync : Index ShowDetails → SearchRequest → SearchResponse)
    (ι κ : Type) [DecidableEq ι] [DecidableEq κ] :
    Machine (Application ι κ) (ApplicationEvent ι κ) where
  Step s event s' :=
    match event with
    | .searchShows page q answer =>
        answer = TvMazeScraper.searchShows (searchAsync s.visible) page q ∧
          s' = s
    | .processAllData i key listing =>
        if authorized apiKey key then
          (interleaving json config ι κ).Step s.service (.list i true listing)
            s'.service ∧ s'.visible = s.visible
        else s' = s
    | .nightlyLoad i listing =>
        (interleaving json config ι κ).Step s.service (.list i false listing)
          s'.service ∧ s'.visible = s.visible
    | .proceed event => ¬ event.Begins ∧
        (interleaving json config ι κ).Step s.service event s'.service ∧
          s'.visible = s.visible
    | .refresh => s' = { s with visible := s.service.world.storage.shows }

/-- The step of the calls that an event of the application is. -/
def ApplicationEvent.call? (apiKey : Option String) :
    ApplicationEvent ι κ → Option (ServiceEvent ι κ)
  | .processAllData i key listing =>
    if authorized apiKey key then some (.list i true listing) else none
  | .nightlyLoad i listing => some (.list i false listing)
  | .proceed event => some event
  | _ => none

variable {json : JsonConvert} {config : ELKConfiguration}
  {apiKey : Option String}
  {searchAsync : Index ShowDetails → SearchRequest → SearchResponse}
  {s s' : Application ι κ}

/-- An event is a step of the calls, after which the same documents are
visible, or it leaves the calls alone. -/
theorem application_cases {event : ApplicationEvent ι κ}
    (hstep : (application json config apiKey searchAsync ι κ).Step s event
      s') :
    (∃ call, event.call? apiKey = some call ∧ s'.visible = s.visible ∧
      (interleaving json config ι κ).Step s.service call s'.service) ∨
    event.call? apiKey = none ∧ s'.service = s.service ∧
      (s'.visible = s.visible ∨
        s'.visible = s.service.world.storage.shows) := by
  cases event with
  | searchShows page q answer =>
    rcases hstep with ⟨_, rfl⟩
    exact .inr ⟨rfl, rfl, .inl rfl⟩
  | processAllData i key listing =>
    replace hstep : if authorized apiKey key then _ else s' = s := hstep
    split_ifs at hstep with hkey
    · exact .inl ⟨_, if_pos hkey, hstep.2, hstep.1⟩
    · exact .inr ⟨if_neg hkey, by rw [hstep], .inl (by rw [hstep])⟩
  | nightlyLoad i listing => exact .inl ⟨_, rfl, hstep.2, hstep.1⟩
  | proceed event => exact .inl ⟨_, rfl, hstep.2.2, hstep.2.1⟩
  | refresh =>
    rcases hstep with rfl
    exact .inr ⟨rfl, rfl, .inr rfl⟩

/-- What holds in every run of the calls holds in the application. -/
theorem application_simulation :
    Simulation (application json config apiKey searchAsync ι κ)
      (interleaving json config ι κ) (fun s t => s.service = t)
      (ApplicationEvent.call? apiKey) where
  silent := by
    rintro s event s' _ rfl hstep hnone
    rcases application_cases hstep with ⟨call, hcall, _⟩ | ⟨_, hsame, _⟩
    · rw [hnone] at hcall
      cases hcall
    · exact hsame
  visible := by
    rintro s event s' _ call rfl hstep hsome
    rcases application_cases hstep with ⟨call', hcall, _, htaken⟩ | ⟨hnone, _⟩
    · rw [hsome] at hcall
      cases hcall
      exact ⟨_, htaken, rfl⟩
    · rw [hsome] at hnone
      cases hnone

/-- The steps of calls that have begun. -/
theorem run_proceed {t t' : Service ι κ} {calls : List (ServiceEvent ι κ)}
    (hrun : (interleaving json config ι κ).Run t calls t')
    (hcalls : ∀ call ∈ calls, ¬ call.Begins) (visible : Index ShowDetails) :
    (application json config apiKey searchAsync ι κ).Run ⟨t, visible⟩
      (calls.map .proceed) ⟨t', visible⟩ := by
  induction hrun with
  | nil => exact .nil _
  | @snoc t u calls call _ hstep ih =>
    rw [List.forall_mem_append, List.forall_mem_singleton] at hcalls
    rw [List.map_append]
    exact (ih hcalls.1).snoc ⟨hcalls.2, hstep, rfl⟩

/-! ## What clients are answered -/

variable {w : World} {events : List (ApplicationEvent ι κ)}

/-- No request carries the key, and the nightly job does not begin while it is
still running. -/
def WithoutKey (apiKey : Option String) (s : Application ι κ) :
    ApplicationEvent ι κ → Prop
  | .processAllData _ key _ => authorized apiKey key = false
  | .nightlyLoad _ _ => ∀ i, ¬ (s.service.load i).UnderWay
  | _ => True

/-- Without the key the loads are called one after the other, and none is
forced. -/
theorem calledApart_of_withoutKey {event : ApplicationEvent ι κ}
    {call : ServiceEvent ι κ} (hkeyless : WithoutKey apiKey s event)
    (hstep : (application json config apiKey searchAsync ι κ).Step s event s')
    (hcall : event.call? apiKey = some call) : CalledApart s.service call := by
  cases event with
  | processAllData i key listing =>
    have hkey : ¬ authorized apiKey key = true := by
      rw [Bool.not_eq_true]
      exact hkeyless
    cases (if_neg hkey).symm.trans hcall
  | nightlyLoad i listing =>
    cases hcall
    exact ⟨hkeyless, nofun⟩
  | proceed event =>
    cases hcall
    cases call with
    | list i forceLoad listing => exact absurd trivial hstep.1
    | _ => trivial
  | searchShows page q answer => cases hcall
  | refresh => cases hcall

/-- As long as no request carries the key and the nightly job does not overlap
with itself, no URL gets into two rows, whatever the clients send and in
whatever order the calls take their steps. -/
theorem urls_nodup_without_key (hempty : w.queue.rows = [])
    (hrun : ((application json config apiKey searchAsync ι κ).restrict
      (WithoutKey apiKey)).Run (.start ι κ w) events s) :
    NoUrlTwice s.service.world.queue := by
  have h : OneLoad s.service ∧ Distinct s.service := by
    apply hrun.invariant (P := fun s => OneLoad s.service ∧
      Distinct s.service)
    · rintro s event s' ⟨hone, hdistinct⟩ ⟨hstep, hkeyless⟩
      rcases application_cases hstep with
        ⟨call, hcall, _, htaken⟩ | ⟨_, hsame, _⟩
      · have hcalled := calledApart_of_withoutKey hkeyless hstep hcall
        have hcounts := countsApart_of_oneLoad hone htaken
        exact ⟨oneLoad_step hone hcalled htaken,
          distinct_step hdistinct hcounts htaken⟩
      · rw [hsame]
        exact ⟨hone, hdistinct⟩
    · exact ⟨oneLoad_start w, distinct_start hempty⟩
  exact noUrlTwice_iff.mpr h.2.urls

end Application

/-! ### One show on its way to a client -/

/-- The searches find show 1 when it is visible. -/
def findShowOne (index : Index ShowDetails) (_ : SearchRequest) :
    SearchResponse where
  Hits := (index.get? 1).toList.map fun d => { Source := d }

/-- The nightly job goes on to queue show 1. -/
def queueOne : List (ServiceEvent Unit Unit) :=
  [.findMissing () answeredReads, .check (), .insert ()]

theorem run_queueOne :
    ∃ t, (interleaving oneListed { index := "tv" } Unit Unit).Run
        ((Service.start Unit Unit (.queued [])).setLoad ()
          (.listed false [(1, showUrl "1")])) queueOne t ∧
      t.world.queue.urls = [showUrl "1"] :=
  ⟨_, .cons (step_findMissing rfl findMissingUrls_empty) <|
    .cons (step_check rfl rfl) <| .single (step_insert rfl), rfl⟩

/-- A client guesses the key before the nightly job begins. -/
theorem urls_nodup_without_key_guess :
    ∃ t : Service Unit Unit, t.world.queue.urls = [showUrl "1"] ∧
      NoUrlTwice t.world.queue := by
  obtain ⟨t, hqueue, hurls⟩ := run_queueOne
  have hguess : (application oneListed { index := "tv" } (some "secret")
      findShowOne Unit Unit).Step (.start Unit Unit (.queued []))
      (.processAllData () "guess" .timeout)
      (.start Unit Unit (.queued [])) := rfl
  have hbegin : (application oneListed { index := "tv" } (some "secret")
      findShowOne Unit Unit).Step (.start Unit Unit (.queued []))
      (.nightlyLoad () (.success "\x7b\"1\":1\x7d"))
      ⟨(Service.start Unit Unit (.queued [])).setLoad ()
        (.listed false [(1, showUrl "1")]), .empty⟩ :=
    ⟨step_list rfl getAllShowsUrl_oneListed, rfl⟩
  have hproceed : ((application oneListed { index := "tv" } (some "secret")
      findShowOne Unit Unit).restrict (WithoutKey (some "secret"))).Run
      ⟨(Service.start Unit Unit (.queued [])).setLoad ()
        (.listed false [(1, showUrl "1")]), .empty⟩
      (queueOne.map .proceed) ⟨t, .empty⟩ := by
    refine (run_proceed hqueue (by simp [queueOne, ServiceEvent.Begins])
      .empty).restrict fun event hevent s => ?_
    obtain ⟨call, _, rfl⟩ := List.mem_map.mp hevent
    trivial
  have hrun : ((application oneListed { index := "tv" } (some "secret")
      findShowOne Unit Unit).restrict (WithoutKey (some "secret"))).Run
      (.start Unit Unit (.queued []))
      (.processAllData () "guess" .timeout ::
        .nightlyLoad () (.success "\x7b\"1\":1\x7d") ::
          queueOne.map .proceed) ⟨t, .empty⟩ :=
    .cons ⟨hguess, rfl⟩ <| .cons ⟨hbegin, fun _ => id⟩ hproceed
  exact ⟨t, hurls, urls_nodup_without_key rfl hrun⟩

end TvMazeScraper
