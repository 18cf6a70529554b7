import TvMazeScraper.Interleaving

/-!
# One URL, one row

The missing URLs are those that are not indexed; that a URL may wait in the
queue is only looked at by the count of the rows, and not at all when the load
is forced.  Nothing holds the queue between the count and the insert.

* `url_queued_twice`: two forced loads, one after the other.
* `twice_of_window` and `url_queued_twice_unforced`: two loads that have both
  counted, forced or not.
* `CountsApart`: what rules both out.
* `distinct_step`: then every step keeps the URLs in the queue distinct.
* `urls_nodup_of_run`: and so does every run from an empty queue.
* `CalledApart` and `countsApart_of_oneLoad`: callers that call one load after
  the other, and force it on an empty queue only, meet the condition.
-/

namespace TvMazeScraper

open Machine

/-- No URL is in two rows. -/
def NoUrlTwice (queue : ConsumerQueue) : Prop :=
  ∀ r ∈ queue.rows, ∀ r' ∈ queue.rows,
    r.UrlToProcess = r'.UrlToProcess → r = r'

theorem noUrlTwice_iff {queue : ConsumerQueue} :
    NoUrlTwice queue ↔ queue.urls.Nodup := by
  constructor
  · intro h
    exact List.Nodup.map_on (fun r hr r' hr' => h r hr r' hr') queue.nodup
  · intro h r hr r' hr' hurl
    exact List.inj_on_of_nodup_map h hr hr' hurl

/-! ## Calls that keep their counts apart -/

/-- A load is between its count and its insert. -/
def LoadPhase.Counted : LoadPhase → Prop
  | .checked _ _ => True
  | _ => False

/-- A load counts the rows only when no other one is between its count and its
insert.  A forced load, which goes on whatever the count is, comes there only
when the queue is empty. -/
def CountsApart {ι κ : Type} (s : Service ι κ) : ServiceEvent ι κ → Prop
  | .check i => (∀ j, ¬ (s.load j).Counted) ∧
    ∀ urlsMissing, s.load i = .found true urlsMissing →
      s.world.queue.rows = []
  | _ => True

/-- The URLs that a load works with are distinct, and the queue is empty
behind a count that has let the load through. -/
def LoadPhase.Distinct (queue : ConsumerQueue) : LoadPhase → Prop
  | .listed _ urlsAll => (urlsAll.map Prod.snd).Nodup
  | .found _ urlsMissing => urlsMissing.Nodup
  | .checked _ urlsMissing => urlsMissing.Nodup ∧ queue.rows = []
  | _ => True

/-- The URLs in the queue and those of every load are distinct, and one load
at most is behind its count. -/
structure Distinct {ι κ : Type} (s : Service ι κ) : Prop where
  urls : s.world.queue.urls.Nodup
  loads : ∀ i, (s.load i).Distinct s.world.queue
  alone : ∀ i j, (s.load i).Counted → (s.load j).Counted → i = j

section Distinct

variable {json : JsonConvert} {config : ELKConfiguration} {ι κ : Type}
  {w : World} {s s' : Service ι κ}

theorem distinct_start (hempty : w.queue.rows = []) :
    Distinct (.start ι κ w) where
  urls := by
    show w.queue.urls.Nodup
    rw [ConsumerQueue.urls, hempty]
    exact List.nodup_nil
  loads := fun _ => trivial
  alone := fun _ _ hi => hi.elim

/-- The queue lost rows. -/
theorem LoadPhase.Distinct.of_fewer {queue queue' : ConsumerQueue}
    {p : LoadPhase} (h : p.Distinct queue)
    (hrows : queue'.rows.Sublist queue.rows) : p.Distinct queue' := by
  cases p with
  | checked forceLoad urlsMissing =>
    refine ⟨h.1, ?_⟩
    rw [h.2] at hrows
    exact List.sublist_nil.mp hrows
  | _ => exact h

/-- Another queue is as good for a load that has not counted its rows. -/
theorem LoadPhase.Distinct.of_not_counted {queue queue' : ConsumerQueue}
    {p : LoadPhase} (h : p.Distinct queue) (hnot : ¬ p.Counted) :
    p.Distinct queue' := by
  cases p with
  | checked forceLoad urlsMissing => exact absurd trivial hnot
  | _ => exact h

variable [DecidableEq ι] [DecidableEq κ]

omit [DecidableEq κ] in
/-- A load moves to a phase with distinct URLs. -/
theorem Distinct.setLoad (h : Distinct s) {i : ι} {p : LoadPhase}
    (hp : p.Distinct s.world.queue)
    (halone : p.Counted → ∀ j, ¬ (s.load j).Counted) :
    Distinct (s.setLoad i p) where
  urls := h.urls
  loads := Service.forall_setLoad (P := fun p => p.Distinct s.world.queue) hp
    h.loads
  alone := Service.alone_setLoad h.alone fun hcounted =>
    .inr (halone hcounted)

omit [DecidableEq κ] in
/-- The load that is behind its count inserts its URLs into an empty queue. -/
theorem Distinct.insert (h : Distinct s) {i : ι} {forceLoad : Bool}
    {urlsMissing : List String}
    (hchecked : s.load i = .checked forceLoad urlsMissing) :
    Distinct (s.insert i urlsMissing) where
  urls := by
    have hphase := h.loads i
    rw [hchecked] at hphase
    show (s.world.queue.addRange urlsMissing).urls.Nodup
    rw [ConsumerQueue.addRange_urls, ConsumerQueue.urls, hphase.2]
    exact hphase.1
  loads := by
    intro j
    by_cases hj : j = i
    · rw [hj]
      show ((s.setLoad i .returned).load i).Distinct _
      rw [Service.setLoad_self]
      trivial
    · show ((s.setLoad i .returned).load j).Distinct _
      rw [Service.setLoad_of_ne s _ hj]
      refine (h.loads j).of_not_counted fun hcounted => hj ?_
      exact h.alone j i hcounted (by rw [hchecked]; trivial)
  alone := Service.alone_setLoad h.alone fun hcounted => hcounted.elim

/-- Every step keeps the URLs distinct when the counts are apart. -/
theorem distinct_step (h : Distinct s) {event : ServiceEvent ι κ}
    (hapart : CountsApart s event)
    (hstep : (interleaving json config ι κ).Step s event s') :
    Distinct s' := by
  cases effect_of_step hstep with
  | returned i hevent => exact h.setLoad trivial fun hcounted => hcounted.elim
  | listed i forceLoad hidle hurls =>
    exact h.setLoad (getAllShowsUrl_nodup hurls) fun hcounted => hcounted.elim
  | found i hlisted hmissing =>
    have hphase := h.loads i
    rw [hlisted] at hphase
    exact h.setLoad ((findMissingUrls_sublist hmissing).nodup hphase)
      fun hcounted => hcounted.elim
  | @checked i forceLoad urlsMissing hfound hstill =>
    have hphase := h.loads i
    rw [hfound] at hphase
    refine h.setLoad ⟨hphase, ?_⟩ fun _ => hapart.1
    cases forceLoad with
    | true => exact hapart.2 urlsMissing hfound
    | false =>
      -- the count has found no row
      unfold stillProcessing at hstill
      simpa using hstill
  | inserted i hchecked => exact h.insert hchecked
  | read c hidle topTen => exact ⟨h.urls, h.loads, h.alone⟩
  | failed c hcycle hevent => exact ⟨h.urls, h.loads, h.alone⟩
  | fetched c responses hread completion =>
    exact ⟨h.urls, h.loads, h.alone⟩
  | @saved c responses lists hfetched hids =>
    have hfewer : (s.world.queue.without lists.processedUrls).rows.Sublist
        s.world.queue.rows := List.filter_sublist
    exact ⟨(hfewer.map _).nodup h.urls,
      fun i => (h.loads i).of_fewer hfewer, h.alone⟩
  | loaded c writes hsaved => exact ⟨h.urls, h.loads, h.alone⟩

/-- From an empty queue, no interleaving whose counts are apart brings a URL
into two rows. -/
theorem urls_nodup_of_run (hempty : w.queue.rows = [])
    {events : List (ServiceEvent ι κ)}
    (hrun : ((interleaving json config ι κ).restrict CountsApart).Run
      (.start ι κ w) events s) : NoUrlTwice s.world.queue := by
  have h : Distinct s := by
    refine hrun.invariant ?_ (distinct_start hempty)
    intro s event s' h hstep
    exact distinct_step h hstep.2 hstep.1
  exact noUrlTwice_iff.mpr h.urls

/-- Two loads that are both between their count and their insert queue every
URL twice that both of them have found, forced or not. -/
theorem twice_of_window {i j : ι} (hij : i ≠ j) {forceLoad forceLoad' : Bool}
    {urls urls' : List String} (hi : s.load i = .checked forceLoad urls)
    (hj : s.load j = .checked forceLoad' urls') {u : String} (hu : u ∈ urls)
    (hu' : u ∈ urls') :
    (interleaving json config ι κ).Run s [.insert i, .insert j]
        ((s.insert i urls).insert j urls') ∧
      ¬ NoUrlTwice ((s.insert i urls).insert j urls').world.queue := by
  constructor
  · have hstill : (s.insert i urls).load j = .checked forceLoad' urls' :=
      (s.setLoad_of_ne _ hij.symm).trans hj
    exact .cons (step_insert hi) (.single (step_insert hstill))
  · rw [noUrlTwice_iff]
    show ¬ ((s.world.queue.addRange urls).addRange urls').urls.Nodup
    rw [ConsumerQueue.addRange_urls, ConsumerQueue.addRange_urls]
    intro hnodup
    exact (List.nodup_append.mp hnodup).2.2 u
      (List.mem_append_right _ hu) u hu' rfl

/-! ## Calls that do not overlap -/

/-- A `LoadUrls` call has begun and has not returned. -/
def LoadPhase.UnderWay : LoadPhase → Prop
  | .idle => False
  | .returned => False
  | _ => True

/-- A forced `LoadUrls` call is under way. -/
def LoadPhase.Forced : LoadPhase → Prop
  | .listed forceLoad _ => forceLoad = true
  | .found forceLoad _ => forceLoad = true
  | .checked forceLoad _ => forceLoad = true
  | _ => False

/-- `LoadUrls` is called when no other call of it is under way, and it is
forced only when the queue is empty. -/
def CalledApart {ι κ : Type} (s : Service ι κ) : ServiceEvent ι κ → Prop
  | .list _ forceLoad _ => (∀ j, ¬ (s.load j).UnderWay) ∧
    (forceLoad = true → s.world.queue.rows = [])
  | _ => True

/-- One load at most is under way, and the queue is empty when it is
forced. -/
structure OneLoad {ι κ : Type} (s : Service ι κ) : Prop where
  alone : ∀ i j, (s.load i).UnderWay → (s.load j).UnderWay → i = j
  forced : ∀ i, (s.load i).Forced → s.world.queue.rows = []

omit [DecidableEq ι] [DecidableEq κ] in
theorem oneLoad_start (w : World) : OneLoad (.start ι κ w) where
  alone := fun _ _ hi => hi.elim
  forced := fun _ hi => hi.elim

omit [DecidableEq κ] in
/-- A load that was under way, or the only one, moves on. -/
theorem OneLoad.setLoad (h : OneLoad s) {i : ι} {p : LoadPhase}
    (hforced : p.Forced → s.world.queue.rows = [])
    (hway : p.UnderWay →
      (s.load i).UnderWay ∨ ∀ j, ¬ (s.load j).UnderWay) :
    OneLoad (s.setLoad i p) where
  alone := Service.alone_setLoad h.alone hway
  forced := Service.forall_setLoad
    (P := fun p => p.Forced → s.world.queue.rows = []) hforced h.forced

/-- Every step keeps the loads one after the other when they are called so. -/
theorem oneLoad_step (h : OneLoad s) {event : ServiceEvent ι κ}
    (hcalled : CalledApart s event)
    (hstep : (interleaving json config ι κ).Step s event s') : OneLoad s' := by
  cases effect_of_step hstep with
  | returned i hevent =>
    exact h.setLoad (fun hforced => hforced.elim) fun hway => hway.elim
  | listed i forceLoad hidle hurls =>
    exact h.setLoad hcalled.2 fun _ => .inr hcalled.1
  | found i hlisted hmissing =>
    have hforced := h.forced i
    rw [hlisted] at hforced
    refine h.setLoad hforced fun _ => .inl ?_
    rw [hlisted]
    trivial
  | checked i hfound hstill =>
    have hforced := h.forced i
    rw [hfound] at hforced
    refine h.setLoad hforced fun _ => .inl ?_
    rw [hfound]
    trivial
  | @inserted i forceLoad urlsMissing hchecked =>
    have hreturned := h.setLoad (p := .returned) (i := i)
      (fun hforced => hforced.elim) fun hway => hway.elim
    refine ⟨hreturned.alone, fun j hj => ?_⟩
    -- no other load is under way, so none is forced
    have hjway : (s.load j).UnderWay ∧ j ≠ i := by
      by_cases hji : j = i
      · subst hji
        replace hj : ((s.setLoad j .returned).load j).Forced := hj
        rw [s.setLoad_self] at hj
        exact hj.elim
      · replace hj : ((s.setLoad i .returned).load j).Forced := hj
        rw [s.setLoad_of_ne _ hji] at hj
        refine ⟨?_, hji⟩
        cases hphase : s.load j with
        | idle => rw [hphase] at hj; exact hj
        | returned => rw [hphase] at hj; exact hj
        | _ => trivial
    have hiway : (s.load i).UnderWay := by
      rw [hchecked]
      trivial
    exact absurd (h.alone j i hjway.1 hiway) hjway.2
  | @saved c responses lists hfetched hids =>
    refine ⟨h.alone, fun i hforced => ?_⟩
    show (s.world.queue.without lists.processedUrls).rows = []
    have hfewer : (s.world.queue.without lists.processedUrls).rows.Sublist
        s.world.queue.rows := List.filter_sublist
    rw [h.forced i hforced] at hfewer
    exact List.sublist_nil.mp hfewer
  -- the other steps of a cycle leave the loads and the rows alone
  | _ => exact ⟨h.alone, h.forced⟩

/-- Loads that follow each other keep their counts apart. -/
theorem countsApart_of_oneLoad (h : OneLoad s) {event : ServiceEvent ι κ}
    (hstep : (interleaving json config ι κ).Step s event s') :
    CountsApart s event := by
  cases event with
  | check i =>
    obtain ⟨forceLoad, urlsMissing, hfound, _⟩ := hstep
    refine ⟨fun j hcounted => ?_, fun urls hforced => ?_⟩
    · have hjway : (s.load j).UnderWay := by
        cases hphase : s.load j with
        | checked forceLoad urls => trivial
        | _ => rw [hphase] at hcounted; exact hcounted.elim
      have hji := h.alone j i hjway (by rw [hfound]; trivial)
      rw [hji, hfound] at hcounted
      exact hcounted
    · exact h.forced i (by rw [hforced]; rfl)
  | _ => trivial

end Distinct

/-! ### Loads of one show and of two -/

/-- Nothing is queued and nothing is indexed. -/
def nothing : Service Bool Unit := .start Bool Unit (.queued [])

/-- A forced load of the shows 1 and 2 and one that is not forced overlap.  The
first one inserts, and the second one counts its rows. -/
def twoLoads : List (ServiceEvent Bool Unit) :=
  [.list true true (.success "\x7b\"1\":1,\"2\":1\x7d"),
    .list false false (.success "\x7b\"1\":1,\"2\":1\x7d"),
    .findMissing true answeredReads, .findMissing false answeredReads,
    .check true, .insert true, .check false]

theorem run_twoLoads :
    ∃ s, ((interleaving twoListed { index := "tv" } Bool Unit).restrict
        CountsApart).Run nothing twoLoads s ∧
      s.world.queue.urls = [showUrl "1", showUrl "2"] := by
  exact ⟨_, .cons ⟨step_list rfl getAllShowsUrl_twoListed, trivial⟩ <|
    .cons ⟨step_list rfl getAllShowsUrl_twoListed, trivial⟩ <|
    .cons ⟨step_findMissing rfl findMissingUrls_twoListed, trivial⟩ <|
    .cons ⟨step_findMissing rfl findMissingUrls_twoListed, trivial⟩ <|
    .cons ⟨step_check rfl rfl, fun j => by cases j <;> exact id,
      fun _ _ => rfl⟩ <|
    .cons ⟨step_insert rfl, trivial⟩ <|
    .single ⟨⟨false, _, rfl, rfl⟩, fun j => by cases j <;> exact id, nofun⟩,
    rfl⟩

theorem urls_nodup_of_run_two :
    ∃ s : Service Bool Unit,
      s.world.queue.urls = [showUrl "1", showUrl "2"] ∧
        NoUrlTwice s.world.queue := by
  obtain ⟨s, hrun, hurls⟩ := run_twoLoads
  exact ⟨s, hurls, urls_nodup_of_run rfl hrun⟩

/-- A load of show 1 is about to count the rows. -/
def aboutToCount (forceLoad : Bool) (s : Service Bool Unit) (i : Bool) :
    Service Bool Unit :=
  (s.setLoad i (.listed forceLoad [(1, showUrl "1")])).setLoad i
    (.found forceLoad [showUrl "1"])

/-- The steps of a load up to the count. -/
def stepsToCount (forceLoad : Bool) (i : Bool) :
    List (ServiceEvent Bool Unit) :=
  [.list i forceLoad (.success "\x7b\"1\":1\x7d"),
    .findMissing i answeredReads]

theorem run_aboutToCount {forceLoad : Bool} {s : Service Bool Unit} {i : Bool}
    (hidle : s.load i = .idle) (hempty : s.world.storage.shows = .empty) :
    (interleaving oneListed { index := "tv" } Bool Unit).Run s
      (stepsToCount forceLoad i) (aboutToCount forceLoad s i) := by
  refine .cons (step_list hidle getAllShowsUrl_oneListed) (.single ?_)
  apply step_findMissing (s.setLoad_self i _)
  show findMissingUrls answeredReads s.world.storage.shows _ = _
  rw [hempty, findMissingUrls_empty]

/-- A forced load of show 1 has run. -/
def forcedLoad (s : Service Bool Unit) (i : Bool) : Service Bool Unit :=
  ((aboutToCount true s i).setLoad i (.checked true [showUrl "1"])).insert i
    [showUrl "1"]

theorem run_forcedLoad {s : Service Bool Unit} {i : Bool}
    (hidle : s.load i = .idle) (hempty : s.world.storage.shows = .empty) :
    (interleaving oneListed { index := "tv" } Bool Unit).Run s
      (stepsToCount true i ++ [.check i, .insert i]) (forcedLoad s i) :=
  (run_aboutToCount hidle hempty).append <|
    .cons (step_check (Service.setLoad_self _ i _) rfl) <|
    .single (step_insert (Service.setLoad_self _ i _))

/-- Two forced loads, one after the other, queue the URL of show 1 twice. -/
theorem url_queued_twice :
    (interleaving oneListed { index := "tv" } Bool Unit).Run nothing
        (stepsToCount true true ++ [.check true, .insert true] ++
          (stepsToCount true false ++ [.check false, .insert false]))
        (forcedLoad (forcedLoad nothing true) false) ∧
      ¬ NoUrlTwice
        (forcedLoad (forcedLoad nothing true) false).world.queue := by
  refine ⟨(run_forcedLoad rfl rfl).append (run_forcedLoad rfl rfl), ?_⟩
  rw [noUrlTwice_iff]
  decide

/-- Two loads that are not forced have both counted an empty queue. -/
def bothCounted : Service Bool Unit :=
  ((aboutToCount false (aboutToCount false nothing true) false).setLoad true
    (.checked false [showUrl "1"])).setLoad false
      (.checked false [showUrl "1"])

/-- They queue the URL of show 1 twice. -/
theorem url_queued_twice_unforced :
    (interleaving oneListed { index := "tv" } Bool Unit).Run nothing
        (stepsToCount false true ++ stepsToCount false false ++
          [.check true, .check false, .insert true, .insert false])
        ((bothCounted.insert true [showUrl "1"]).insert false
          [showUrl "1"]) ∧
      ¬ NoUrlTwice ((bothCounted.insert true [showUrl "1"]).insert false
        [showUrl "1"]).world.queue := by
  have hfirst : bothCounted.load true = .checked false [showUrl "1"] := rfl
  have hsecond : bothCounted.load false = .checked false [showUrl "1"] :=
    Service.setLoad_self _ false _
  obtain ⟨hinserts, htwice⟩ := twice_of_window (by decide) hfirst hsecond
    (List.mem_singleton_self _) (List.mem_singleton_self _)
  refine ⟨?_, htwice⟩
  exact ((run_aboutToCount rfl rfl).append (run_aboutToCount rfl rfl)).append <|
    .cons (step_check rfl rfl) <| .cons (step_check rfl rfl) hinserts

end TvMazeScraper
