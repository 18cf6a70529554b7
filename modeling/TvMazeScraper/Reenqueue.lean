import TvMazeScraper.Cycles
import TvMazeScraper.Interleaving

/-!
# What a load queues again

`LoadUrls(false)` reads the index, counts the rows of the queue and inserts,
in this order.  A cycle that stores its shows after the index was read also
empties the queue, so the count does not stop the load from queueing them
again.

* `Succeeds`: the external calls succeed.
* `keys_step`: no step removes an id from the show index, and only `LoadData`
  adds one.
* `unindexed_iff`: what a load inserts is unindexed exactly when no listed
  show was stored since the index was read.
* `queued_again`: one show is queued again.
-/

namespace TvMazeScraper

open Machine

/-- The external calls succeed: the listing and every search are answered,
every body is a show, and the shows are accepted. -/
def Succeeds {ι κ : Type} (json : JsonConvert) (s : Service ι κ) :
    ServiceEvent ι κ → Prop
  | .list _ _ listing => ∃ urlsAll, getAllShowsUrl json listing = .ok urlsAll
  | .findMissing _ reads => reads.Answered
  | .fetch c responses => ∀ topTen, s.cycle c = .read topTen →
      ∀ r ∈ topTen, ∃ d, fetchTask json responses r = .ok (some (some d))
  | .load c writes => ∀ responses lists, s.cycle c = .saved responses lists →
      writes.AcceptsShows lists.shows.length
  | _ => True

/-- A `LoadData` stores no listed show that is not indexed. -/
def StoresNoListed {ι κ : Type} (urlsAll : List (Int32 × String))
    (s : Service ι κ) : ServiceEvent ι κ → Prop
  | .load c _ => ∀ responses lists, s.cycle c = .saved responses lists →
      ∀ d, some d ∈ lists.shows → d.id ∈ urlsAll.map Prod.fst →
        d.id ∈ s.world.storage.shows.keys
  | _ => True

/-- Every URL that is inserted between `s` and `s'` belongs to a show that is
not indexed. -/
def InsertsUnindexed {ι κ : Type} (urlsAll : List (Int32 × String))
    (s s' : Service ι κ) : Prop :=
  ∀ p ∈ urlsAll,
    p.2 ∈ s'.world.queue.urls.drop s.world.queue.urls.length →
      p.1 ∉ s'.world.storage.shows.keys

section Reenqueue

variable {json : JsonConvert} {config : ELKConfiguration}

/-! ## The index -/

section Index

variable {ι κ : Type} [DecidableEq ι] [DecidableEq κ] {s s' : Service ι κ}

/-- No step removes an id from the show index. -/
theorem keys_step {event : ServiceEvent ι κ}
    (hstep : (interleaving json config ι κ).Step s event s') :
    s.world.storage.shows.keys ⊆ s'.world.storage.shows.keys := by
  cases effect_of_step hstep with
  | loaded c writes hsaved => exact (loadData_keys json config _ _ _).1
  | _ => exact subset_rfl

theorem keys_run {events : List (ServiceEvent ι κ)}
    (hrun : (interleaving json config ι κ).Run s events s') :
    s.world.storage.shows.keys ⊆ s'.world.storage.shows.keys := by
  refine hrun.relates (R := fun s s' =>
    s.world.storage.shows.keys ⊆ s'.world.storage.shows.keys) ?_ ?_ ?_
  · exact fun s => subset_rfl
  · exact fun s t u h h' => h.trans h'
  · exact fun s event t hstep => keys_step hstep

/-- A step that stores no listed show leaves the listed shows that are not
indexed so. -/
theorem unindexed_step {urlsAll : List (Int32 × String)}
    {event : ServiceEvent ι κ} (hquiet : StoresNoListed urlsAll s event)
    (hstep : (interleaving json config ι κ).Step s event s') {id : Int32}
    (hid : id ∈ urlsAll.map Prod.fst)
    (hnot : id ∉ s.world.storage.shows.keys) :
    id ∉ s'.world.storage.shows.keys := by
  cases effect_of_step hstep with
  | @loaded c writes responses lists hsaved =>
    obtain ⟨shows, persons, hload, hshows⟩ :=
      loadData_cases json config writes lists.shows s.world.storage
    show id ∉ (loadData json config writes lists.shows
      s.world.storage).1.shows.keys
    rw [hload, KeyedStore.mem_putAll]
    intro hor
    rcases hor with hold | ⟨d, hd, hkey⟩
    · exact hnot hold
    · have hkey : d.id = id := hkey
      rw [← hkey] at hid hnot
      exact hnot (hquiet responses lists hsaved d (hshows d hd) hid)
  | _ => exact hnot

theorem unindexed_run {urlsAll : List (Int32 × String)}
    {guard : Service ι κ → ServiceEvent ι κ → Prop}
    {events : List (ServiceEvent ι κ)}
    (hrun : (((interleaving json config ι κ).restrict guard).restrict
      (StoresNoListed urlsAll)).Run s events s') {id : Int32}
    (hid : id ∈ urlsAll.map Prod.fst)
    (hnot : id ∉ s.world.storage.shows.keys) :
    id ∉ s'.world.storage.shows.keys := by
  refine hrun.invariant (P := fun s => id ∉ s.world.storage.shows.keys) ?_ hnot
  intro s event s' hs hstep
  exact unindexed_step hstep.2 hstep.1.1 hid hs

/-- A `LoadData` that stores a listed show adds its id to the index. -/
theorem stores_listed {urlsAll : List (Int32 × String)}
    {event : ServiceEvent ι κ} (hsucceeds : Succeeds json s event)
    (hstep : (interleaving json config ι κ).Step s event s')
    (hloud : ¬ StoresNoListed urlsAll s event) :
    ∃ id ∈ urlsAll.map Prod.fst, id ∉ s.world.storage.shows.keys ∧
      id ∈ s'.world.storage.shows.keys := by
  cases effect_of_step hstep with
  | @loaded c writes responses lists hsaved =>
    unfold StoresNoListed at hloud
    push Not at hloud
    rcases hloud with ⟨responses', lists', hsaved', d, hd, hlisted, hnot⟩
    rw [hsaved] at hsaved'
    cases hsaved'
    refine ⟨d.id, hlisted, hnot, ?_⟩
    show d.id ∈ (loadData json config writes lists.shows
      s.world.storage).1.shows.keys
    rw [loadData_shows json config (hsucceeds responses lists hsaved),
      KeyedStore.mem_putAll]
    exact .inr ⟨d, List.mem_filterMap.mpr ⟨some d, hd, rfl⟩, rfl⟩
  | @returned event i hevent =>
    cases event with
    | load c writes => exact absurd rfl (hevent c writes)
    | _ => exact absurd trivial hloud
  | @failed event c hcycle hevent =>
    cases event with
    | load c writes => exact absurd rfl (hevent c writes)
    | _ => exact absurd trivial hloud
  | _ => exact absurd trivial hloud

end Index

/-! ## One load -/

variable {κ : Type} [DecidableEq κ] {s s' : Service Unit κ}
  {urlsAll : List (Int32 × String)} {urlsMissing : List String}

/-- The load has its listed URLs, or it is past them. -/
def HasListed (urlsAll : List (Int32 × String)) : LoadPhase → Prop
  | .idle => False
  | .listed forceLoad urls => forceLoad = false ∧ urls = urlsAll
  | _ => True

theorem hasListed_step (h : HasListed urlsAll (s.load ()))
    {event : ServiceEvent Unit κ}
    (hstep : (interleaving json config Unit κ).Step s event s') :
    HasListed urlsAll (s'.load ()) :=
  load_step trivial (fun _ _ => False.elim) (fun _ _ _ _ => trivial)
    (fun _ _ _ => trivial) hstep h

/-- The load has found these missing URLs. -/
def HasFound (urlsMissing : List String) : LoadPhase → Prop
  | .idle => False
  | .listed _ _ => False
  | .found forceLoad urls => forceLoad = false ∧ urls = urlsMissing
  | .checked forceLoad urls => forceLoad = false ∧ urls = urlsMissing
  | .returned => True

theorem hasFound_step (h : HasFound urlsMissing (s.load ()))
    {event : ServiceEvent Unit κ}
    (hstep : (interleaving json config Unit κ).Step s event s') :
    HasFound urlsMissing (s'.load ()) :=
  load_step trivial (fun _ _ => False.elim) (fun _ _ _ => False.elim)
    (fun _ _ => id) hstep h

/-- Which listed URLs are missing. -/
theorem mem_missing {index : Index ShowDetails} {reads : ReadOutcomes}
    (hreads : reads.Answered) (hnodup : (urlsAll.map Prod.snd).Nodup)
    (hmissing : findMissingUrls reads index urlsAll = .ok urlsMissing)
    {p : Int32 × String} (hp : p ∈ urlsAll) :
    p.2 ∈ urlsMissing ↔ ¬ Readable index p.1 := by
  rw [findMissingUrls_answered hreads] at hmissing
  cases hmissing
  constructor
  · intro h
    obtain ⟨q, hq, hurl⟩ := List.mem_map.mp h
    obtain ⟨hq, hreadable⟩ := List.mem_filter.mp hq
    rw [List.inj_on_of_nodup_map hnodup hq hp hurl] at hreadable
    exact of_decide_eq_true hreadable
  · intro h
    exact List.mem_map_of_mem (List.mem_filter.mpr ⟨hp, decide_eq_true h⟩)

/-- What a load that has read the index inserts. -/
theorem insertsUnindexed_iff {s₃ s₄ : Service Unit κ}
    (hfound : HasFound urlsMissing (s₃.load ()))
    (hinsert : (interleaving json config Unit κ).Step s₃ (.insert ()) s₄) :
    InsertsUnindexed urlsAll s₃ s₄ ↔ ∀ p ∈ urlsAll, p.2 ∈ urlsMissing →
      p.1 ∉ s₃.world.storage.shows.keys := by
  rcases hinsert with ⟨forceLoad, urls, hchecked, rfl⟩
  rw [hchecked] at hfound
  rcases hfound with ⟨_, rfl⟩
  have hinserted : (s₃.insert () urls).world.queue.urls.drop
      s₃.world.queue.urls.length = urls := by
    show (s₃.world.queue.addRange urls).urls.drop _ = urls
    rw [ConsumerQueue.addRange_urls, List.drop_left]
  unfold InsertsUnindexed
  rw [hinserted]
  exact Iff.rfl

/-- From the read of the index to the insert. -/
theorem unindexed_of_window {s₂ s₃ s₄ : Service Unit κ}
    (hnodup : (urlsAll.map Prod.snd).Nodup) {reads : ReadOutcomes}
    (hreads : reads.Answered)
    (hmissing : findMissingUrls reads s₂.world.storage.shows urlsAll
      = .ok urlsMissing)
    (hfound : HasFound urlsMissing (s₂.load ()))
    {window : List (ServiceEvent Unit κ)}
    (hwindow : ((interleaving json config Unit κ).restrict
      (Succeeds json)).Run s₂ window s₃)
    (hinsert : (interleaving json config Unit κ).Step s₃ (.insert ()) s₄) :
    InsertsUnindexed urlsAll s₃ s₄ ↔
      (∀ p ∈ urlsAll, p.1 ∈ s₂.world.storage.shows.keys → 0 < p.1) ∧
        (((interleaving json config Unit κ).restrict
          (Succeeds json)).restrict (StoresNoListed urlsAll)).Run s₂ window
          s₃ := by
  have hfound₃ : HasFound urlsMissing (s₃.load ()) := by
    refine hwindow.invariant (P := fun s => HasFound urlsMissing (s.load ()))
      ?_ hfound
    intro s event s' h hstep
    exact hasFound_step h hstep.1
  rw [insertsUnindexed_iff hfound₃ hinsert]
  constructor
  · intro hunindexed
    refine ⟨fun p hp hkey => ?_, ?_⟩
    · by_contra hpos
      have hmem : p.2 ∈ urlsMissing :=
        (mem_missing hreads hnodup hmissing hp).mpr fun h => hpos h.2
      exact hunindexed p hp hmem (keys_run hwindow.of_restrict hkey)
    · rcases hwindow.restrict_or_breach (StoresNoListed urlsAll) with
        hquiet | ⟨before, event, after, u, v, _, hbefore, hstep, hloud, hafter⟩
      · exact hquiet
      · exfalso
        obtain ⟨id, hid, hnot, hstored⟩ :=
          stores_listed hstep.2 hstep.1 hloud
        obtain ⟨p, hp, rfl⟩ := List.mem_map.mp hid
        -- the show was not indexed when the index was read
        have hnot₂ : p.1 ∉ s₂.world.storage.shows.keys :=
          fun h => hnot (keys_run hbefore.of_restrict h)
        have hmem : p.2 ∈ urlsMissing :=
          (mem_missing hreads hnodup hmissing hp).mpr fun h => hnot₂ h.1
        exact hunindexed p hp hmem (keys_run hafter.of_restrict hstored)
  · intro h p hp hmem
    rcases h with ⟨hpos, hquiet⟩
    have hreadable := (mem_missing hreads hnodup hmissing hp).mp hmem
    have hnot : p.1 ∉ s₂.world.storage.shows.keys :=
      fun hkey => hreadable ⟨hkey, hpos p hp hkey⟩
    exact unindexed_run hquiet (List.mem_map_of_mem hp) hnot

/-- A `LoadUrls(false)` among any number of cycles, all external calls
succeeding, inserts URLs of shows that are not indexed if and only if, when it
read the index, no listed id that was not positive was in it, and since then
no cycle stored a listed show that was not indexed. -/
theorem unindexed_iff {s₀ s₁ s₂ s₃ s₄ s₅ : Service Unit κ}
    {listing : HttpOutcome} {reads : ReadOutcomes}
    {before window : List (ServiceEvent Unit κ)}
    (hlist : ((interleaving json config Unit κ).restrict
      (Succeeds json)).Step s₀ (.list () false listing) s₁)
    (hurls : getAllShowsUrl json listing = .ok urlsAll)
    (hbefore : ((interleaving json config Unit κ).restrict
      (Succeeds json)).Run s₁ before s₂)
    (hsnapshot : ((interleaving json config Unit κ).restrict
      (Succeeds json)).Step s₂ (.findMissing () reads) s₃)
    (hwindow : ((interleaving json config Unit κ).restrict
      (Succeeds json)).Run s₃ window s₄)
    (hinsert : ((interleaving json config Unit κ).restrict
      (Succeeds json)).Step s₄ (.insert ()) s₅) :
    InsertsUnindexed urlsAll s₄ s₅ ↔
      (∀ p ∈ urlsAll, p.1 ∈ s₂.world.storage.shows.keys → 0 < p.1) ∧
        (((interleaving json config Unit κ).restrict
          (Succeeds json)).restrict (StoresNoListed urlsAll)).Run s₃ window
          s₄ := by
  have hlisted : HasListed urlsAll (s₂.load ()) := by
    refine hbefore.invariant (P := fun s => HasListed urlsAll (s.load ()))
      ?_ ?_
    · intro s event s' h hstep
      exact hasListed_step h hstep.1
    · rcases hlist.1 with ⟨_, rfl⟩
      unfold Service.list
      rw [hurls, Service.setLoad_self]
      exact ⟨rfl, rfl⟩
  have hreads : reads.Answered := hsnapshot.2
  rcases hsnapshot.1 with ⟨forceLoad, urls, hload, rfl⟩
  rw [hload] at hlisted
  rcases hlisted with ⟨rfl, rfl⟩
  obtain ⟨urlsMissing, hmissing⟩ : ∃ urlsMissing,
      findMissingUrls reads s₂.world.storage.shows urls = .ok urlsMissing :=
    ⟨_, findMissingUrls_answered hreads _ _⟩
  have hfound : HasFound urlsMissing
      ((s₂.findMissing () reads false urls).load ()) := by
    unfold Service.findMissing
    rw [hmissing, Service.setLoad_self]
    exact ⟨rfl, rfl⟩
  have hworld : (s₂.findMissing () reads false urls).world = s₂.world := by
    unfold Service.findMissing
    rw [hmissing]
    rfl
  rw [← hworld] at hmissing ⊢
  exact unindexed_of_window (getAllShowsUrl_nodup hurls) hreads hmissing
    hfound hwindow hinsert.1

end Reenqueue

/-! ### A load of show 1 -/

/-- The calls of one process. -/
def oneLoad : Machine (Service Unit Unit) (ServiceEvent Unit Unit) :=
  (interleaving oneListed { index := "tv" } Unit Unit).restrict
    (Succeeds oneListed)

/-- The load has read an empty index. -/
def indexRead (w : World) : Service Unit Unit :=
  ((Service.start Unit Unit w).setLoad ()
    (.listed false [(1, showUrl "1")])).setLoad () (.found false [showUrl "1"])

theorem step_oneListed (w : World) :
    oneLoad.Step (.start Unit Unit w)
      (.list () false (.success "\x7b\"1\":1\x7d"))
      ((Service.start Unit Unit w).setLoad ()
        (.listed false [(1, showUrl "1")])) :=
  ⟨step_list rfl getAllShowsUrl_oneListed, _, getAllShowsUrl_oneListed⟩

theorem step_indexRead {w : World} (hempty : w.storage.shows = .empty) :
    oneLoad.Step
      ((Service.start Unit Unit w).setLoad ()
        (.listed false [(1, showUrl "1")]))
      (.findMissing () answeredReads) (indexRead w) := by
  refine ⟨step_findMissing (Service.setLoad_self _ () _) ?_,
    answeredReads_answered⟩
  show findMissingUrls answeredReads w.storage.shows _ = _
  rw [hempty, findMissingUrls_empty]

/-- The URL of show 2, which is not listed, waits in the queue. -/
def otherWaiting : World := .queued [showUrl "2"]

/-- A cycle stores show 2 and empties the queue, and the load goes on. -/
def otherStored : List (ServiceEvent Unit Unit) :=
  [.read (), .fetch () twoResponses, .save (), .load () .accepting, .check ()]

theorem run_otherStored :
    ∃ s, (oneLoad.restrict (StoresNoListed [(1, showUrl "1")])).Run
        (indexRead otherWaiting) otherStored s ∧
      s.load () = .checked false [showUrl "1"] ∧
      s.world.queue.rows = [] ∧ s.world.storage.shows.keys = {2} := by
  have hfetch : ∀ topTen : List ConsumerQueueItem, ∀ r ∈ topTen,
      ∃ d, fetchTask oneListed twoResponses r = .ok (some (some d)) :=
    fun topTen r hr => ⟨_, fetchTask_of_follows (twoResponses_follow topTen) hr⟩
  refine ⟨_, .cons ⟨⟨⟨rfl, .first 20 _, rfl⟩, trivial⟩, trivial⟩ <|
    .cons ⟨⟨⟨_, rfl, .inOrder _, rfl⟩, fun topTen _ => hfetch topTen⟩,
      trivial⟩ <|
    .cons ⟨⟨⟨_, _, rfl, rfl⟩, trivial⟩, trivial⟩ <|
    .cons ⟨⟨⟨_, _, rfl, rfl⟩, fun _ _ _ => WriteOutcomes.accepting_shows _⟩,
      ?_⟩ <|
    .single ⟨⟨step_check rfl rfl, trivial⟩, trivial⟩, rfl, rfl, ?_⟩
  · intro responses lists hsaved d hd hlisted
    cases hsaved
    -- the only document is show 2
    have hshow : d = { id := 2 } :=
      Option.some.inj (List.mem_singleton.mp hd)
    rw [hshow] at hlisted
    exact absurd hlisted (by decide)
  · decide

/-- The load inserts show 1, which nothing has stored. -/
theorem unindexed_iff_other :
    ∃ s : Service Unit Unit, s.world.storage.shows.keys = {2} ∧
      (s.insert () [showUrl "1"]).world.queue.urls = [showUrl "1"] ∧
      InsertsUnindexed [(1, showUrl "1")] s (s.insert () [showUrl "1"]) := by
  obtain ⟨s, hwindow, hchecked, hempty, hkeys⟩ := run_otherStored
  have hinsert : oneLoad.Step s (.insert ()) (s.insert () [showUrl "1"]) :=
    ⟨step_insert hchecked, trivial⟩
  refine ⟨s, hkeys, ?_, ?_⟩
  · show (s.world.queue.addRange [showUrl "1"]).urls = _
    rw [ConsumerQueue.addRange_urls, ConsumerQueue.urls, hempty]
    rfl
  · refine (unindexed_iff (step_oneListed otherWaiting)
      getAllShowsUrl_oneListed (.nil _) (step_indexRead rfl)
      hwindow.of_restrict hinsert).mpr ⟨?_, hwindow⟩
    decide

/-- The URL of show 1 waits in the queue. -/
def waiting : World := .queued [showUrl "1"]

def waitingLists : Fetched :=
  fetchedOf oneListed twoResponses (.inOrder waiting.queue.rows)

/-- A cycle has fetched the row. -/
def rowFetched : Service Unit Unit :=
  ((indexRead waiting).setCycle () (.read waiting.queue.rows)).setCycle ()
    (.fetched twoResponses waitingLists)

/-- The cycle has stored the show. -/
def rowStored : Service Unit Unit :=
  (rowFetched.save () twoResponses waitingLists).loadData oneListed
    { index := "tv" } () .accepting twoResponses waitingLists

/-- Between the read of the index and the insert, a cycle stores show 1 and
empties the queue.  The load queues the show again. -/
theorem queued_again :
    oneLoad.Run (.start Unit Unit waiting)
        [.list () false (.success "\x7b\"1\":1\x7d"),
          .findMissing () answeredReads, .read (), .fetch () twoResponses,
          .save (), .load () .accepting, .check ()]
        (rowStored.setLoad () (.checked false [showUrl "1"])) ∧
      oneLoad.Step (rowStored.setLoad () (.checked false [showUrl "1"]))
        (.insert ()) ((rowStored.setLoad ()
          (.checked false [showUrl "1"])).insert () [showUrl "1"]) ∧
      ¬ InsertsUnindexed [(1, showUrl "1")]
        (rowStored.setLoad () (.checked false [showUrl "1"]))
        ((rowStored.setLoad ()
          (.checked false [showUrl "1"])).insert () [showUrl "1"]) := by
  have hread : oneLoad.Step (indexRead waiting) (.read ())
      ((indexRead waiting).setCycle () (.read waiting.queue.rows)) :=
    ⟨⟨rfl, .first 20 _, rfl⟩, trivial⟩
  have hfetch : oneLoad.Step
      ((indexRead waiting).setCycle () (.read waiting.queue.rows))
      (.fetch () twoResponses) rowFetched := by
    refine ⟨⟨_, Service.setCycle_self _ () _, .inOrder _, rfl⟩, ?_⟩
    intro topTen _ r hr
    exact ⟨_, fetchTask_of_follows (twoResponses_follow topTen) hr⟩
  have hsave : oneLoad.Step rowFetched (.save ())
      (rowFetched.save () twoResponses waitingLists) :=
    ⟨⟨_, _, Service.setCycle_self _ () _, rfl⟩, trivial⟩
  have hload : oneLoad.Step (rowFetched.save () twoResponses waitingLists)
      (.load () .accepting) rowStored :=
    ⟨⟨_, _, rfl, rfl⟩, fun _ _ _ => WriteOutcomes.accepting_shows _⟩
  have hcheck : oneLoad.Step rowStored (.check ())
      (rowStored.setLoad () (.checked false [showUrl "1"])) :=
    ⟨step_check rfl (by decide), trivial⟩
  refine ⟨?_, ⟨step_insert (Service.setLoad_self _ () _), trivial⟩, fun h => ?_⟩
  · exact .cons (step_oneListed _) <| .cons (step_indexRead rfl) <|
      .cons hread <| .cons hfetch <| .cons hsave <| .cons hload <|
      .single hcheck
  · exact h (1, showUrl "1") (by decide) (by decide) (by decide)

end TvMazeScraper
