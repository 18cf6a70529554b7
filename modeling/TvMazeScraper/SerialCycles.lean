import TvMazeScraper.Serial

/-!
# What the lock is for

As long as no work takes 20 seconds, the cycles of all processes come to the
same as cycles that run one after the other.  A run under the lock is matched
by a serial run that puts each cycle at the point where it took its rows, and
the inserts that come in while it is under way behind it.

* `Pending`: where the world is when a cycle has taken its rows.
* `serialized_step`: every step keeps a serial run.
* `serial_of_run`: the final world is that of a serial run with the same
  cycles in the same order and the same inserts in the same order.
-/

namespace TvMazeScraper

open Machine

section Serial

variable {ι π : Type} {times : JobTimes π}
  {json : JsonConvert} {config : ELKConfiguration} {w : World}
  {events : List (LockedEvent ι π)} {inserted : List (ι × List String)}
  {s s' : LockedService ι π}

/-- The world when a cycle is under way that took its rows in the world
`older`.  `later` is that world with the inserts since then. -/
inductive Pending (json : JsonConvert) (events : List (LockedEvent ι π))
    (i : Invocation π) (older later : World) : CyclePhase → World → Prop
  | read (topTen : Take 20 older.queue.rows) :
      Pending json events i older later (.read topTen.picked) later
  | fetched (topTen : Take 20 older.queue.rows) {responses : Responses}
      (completion : Completion topTen.picked)
      (hfault : ¬ Faults json responses topTen.picked)
      (hfetch : .call (.fetch i responses) ∈ events) :
      Pending json events i older later
        (.fetched responses (fetchedOf json responses completion)) later
  | saved (topTen : Take 20 older.queue.rows) {responses : Responses}
      (completion : Completion topTen.picked)
      (hfault : ¬ Faults json responses topTen.picked)
      (hfetch : .call (.fetch i responses) ∈ events) :
      Pending json events i older later
        (.saved responses (fetchedOf json responses completion))
        { later with
          queue := later.queue.without
            (fetchedOf json responses completion).processedUrls }

/-- The serial run of a run up to now.  Either no cycle is under way, or one
is, and the serial run has come to where that one took its rows. -/
inductive Serialized (json : JsonConvert) (config : ELKConfiguration)
    (w : World) (events : List (LockedEvent ι π))
    (inserted : List (ι × List String)) (s : LockedService ι π) : Prop
  | quiet (calls : List (SerialCall ι (Invocation π)))
      (hrun : (serial json config ι (Invocation π)).Run w calls
        s.service.world)
      (hserial : Serialization events inserted calls)
      (hquiet : ∀ i, (s.service.cycle i).Ended)
  | running (i : Invocation π) (calls : List (SerialCall ι (Invocation π)))
      (older : World) (inserts : List (ι × List String))
      (hrun : (serial json config ι (Invocation π)).Run w calls older)
      (hserial : Serialization events inserted (calls ++ insertCalls inserts))
      (hpending : Pending json events i older (older.insertAll inserts)
        (s.service.cycle i) s.service.world)
      (halone : ∀ j, j ≠ i → (s.service.cycle j).Ended)

namespace Pending

variable {i : Invocation π} {older later now : World} {p : CyclePhase}

theorem not_ended (h : Pending json events i older later p now) :
    ¬ p.Ended := by
  cases h <;> exact id

theorem snoc (h : Pending json events i older later p now)
    (event : LockedEvent ι π) :
    Pending json (events ++ [event]) i older later p now := by
  cases h with
  | read topTen => exact .read topTen
  | fetched topTen completion hfault hfetch =>
    exact .fetched topTen completion hfault (List.mem_append_left _ hfetch)
  | saved topTen completion hfault hfetch =>
    exact .saved topTen completion hfault (List.mem_append_left _ hfetch)

/-- An insert leaves the cycle where it is. -/
theorem insert (h : Pending json events i older later p now)
    (hsub : older.queue.rows ⊆ later.queue.rows) (urls : List String) :
    Pending json events i older
      { later with queue := later.queue.addRange urls } p
      { now with queue := now.queue.addRange urls } := by
  cases h with
  | read topTen => exact .read topTen
  | fetched topTen completion hfault hfetch =>
    exact .fetched topTen completion hfault hfetch
  | saved topTen completion hfault hfetch =>
    rw [ConsumerQueue.without_addRange]
    · exact .saved topTen completion hfault hfetch
    · intro r hr
      apply later.queue.lt_nextId
      exact hsub (topTen.mem_of_mem_picked (mem_processedUrls.mp hr).1)

end Pending

namespace Serialized

/-- The serial run of a run in which no cycle is under way. -/
theorem of_running {calls : List (SerialCall ι (Invocation π))} {older : World}
    {inserts : List (ι × List String)}
    (hrun : (serial json config ι (Invocation π)).Run w calls older)
    (hserial : Serialization events inserted (calls ++ insertCalls inserts))
    (hworld : s.service.world = older.insertAll inserts)
    (hended : ∀ j, (s.service.cycle j).Ended) :
    Serialized json config w events inserted s := by
  refine .quiet _ ?_ hserial hended
  rw [hworld]
  exact hrun.append (run_inserts json config inserts older)

/-- A step that leaves the world and the cycles as they are. -/
theorem silent (h : Serialized json config w events inserted s)
    {event : LockedEvent ι π} (hloader : event.loader? = none)
    (hworld : s'.service.world = s.service.world)
    (hcycle : s'.service.cycle = s.service.cycle) :
    Serialized json config w (events ++ [event]) inserted s' := by
  cases h with
  | quiet calls hrun hserial hquiet =>
    refine .quiet calls ?_ (hserial.silent hloader) ?_
    · rwa [hworld]
    · rwa [hcycle]
  | running i calls older inserts hrun hserial hpending halone =>
    refine .running i calls older inserts hrun
      (hserial.silent hloader) ?_ ?_
    · rw [hworld, hcycle]
      exact hpending.snoc event
    · rwa [hcycle]

/-- A `LoadUrls` call inserts. -/
theorem insert [DecidableEq ι]
    (h : Serialized json config w events inserted s) {i : ι}
    (urls : List String) (hservice : s'.service = s.service.insert i urls) :
    Serialized json config w (events ++ [.call (.insert i)])
      (inserted ++ [(i, urls)]) s' := by
  have hworld : s'.service.world
      = { s.service.world with
          queue := s.service.world.queue.addRange urls } := by
    rw [hservice]
    rfl
  have hcycle : s'.service.cycle = s.service.cycle := by
    rw [hservice]
    rfl
  cases h with
  | quiet calls hcalls hserial hquiet =>
    refine .quiet (calls ++ [.insert i urls]) ?_
      (hserial.insert rfl [(i, urls)]) ?_
    · exact hcalls.snoc hworld
    · rwa [hcycle]
  | running c calls older inserts hcalls hserial hpending halone =>
    refine .running c calls older (inserts ++ [(i, urls)]) hcalls ?_ ?_ ?_
    · have hlast : Serialization (events ++ [.call (.insert i)]) _ _ :=
        hserial.insert rfl [(i, urls)]
      rw [List.append_assoc] at hlast
      simpa [insertCalls] using hlast
    · rw [hworld, hcycle, World.insertAll_concat]
      exact (hpending.insert (World.rows_subset_insertAll inserts older)
        urls).snoc _
    · rwa [hcycle]

/-- The cycle whose step it is, when a cycle is under way. -/
theorem eq_of_running (hlocked : Locked times s) {i c : Invocation π}
    {older later : World}
    (hpending : Pending json events i older later (s.service.cycle i)
      s.service.world)
    (hworks : ∃ since, s.job.phase c = .working since) : c = i := by
  obtain ⟨since, hc⟩ := hworks
  obtain ⟨since', hi⟩ := hlocked.works i hpending.not_ended
  exact hlocked.eq_of_working hc hi

/-- The rows of a cycle that is about to remove them are in the table. -/
theorem rows_of_fetched (h : Serialized json config w events inserted s)
    (hlocked : Locked times s) {c : Invocation π}
    (hworks : ∃ since, s.job.phase c = .working since)
    {responses : Responses} {lists : Fetched}
    (hfetched : s.service.cycle c = .fetched responses lists) :
    ∀ r ∈ lists.processedUrls, r ∈ s.service.world.queue.rows := by
  cases h with
  | quiet calls hcalls hserial hquiet =>
    have hended := hquiet c
    rw [hfetched] at hended
    cases hended
  | running i calls older inserts hcalls hserial hpending halone =>
    have hc := eq_of_running hlocked hpending hworks
    subst hc
    generalize hnow : s.service.world = now at hpending
    rw [hfetched] at hpending
    cases hpending with
    | fetched topTen completion hfault hfetch =>
      intro r hr
      apply World.rows_subset_insertAll inserts older
      exact topTen.mem_of_mem_picked (mem_processedUrls.mp hr).1

variable [DecidableEq π]

/-- A cycle takes its rows. -/
theorem read (h : Serialized json config w events inserted s)
    (hlocked : Locked times s) {c : Invocation π}
    (hworks : ∃ since, s.job.phase c = .working since)
    (hidle : s.service.cycle c = .idle)
    (topTen : Take 20 s.service.world.queue.rows)
    (hservice : s'.service = s.service.setCycle c (.read topTen.picked)) :
    Serialized json config w (events ++ [.call (.read c)]) inserted s' := by
  have hcycle : s'.service.cycle c = .read topTen.picked := by
    rw [hservice]
    exact s.service.setCycle_self c _
  cases h with
  | quiet calls hcalls hserial hquiet =>
    refine .running c calls s.service.world [] hcalls ?_ ?_ ?_
    · rw [insertCalls, List.map_nil, List.append_nil]
      exact hserial.silent rfl
    · rw [hcycle, hservice]
      exact .read topTen
    · intro j hj
      rw [hservice, s.service.setCycle_of_ne _ hj]
      exact hquiet j
  | running i calls older inserts hcalls hserial hpending halone =>
    have hc := eq_of_running hlocked hpending hworks
    subst hc
    rw [hidle] at hpending
    exact absurd trivial hpending.not_ended

/-- The tasks of a cycle end. -/
theorem fetch (h : Serialized json config w events inserted s)
    (hlocked : Locked times s) {c : Invocation π}
    (hworks : ∃ since, s.job.phase c = .working since)
    {responses : Responses} {picked : List ConsumerQueueItem}
    (hread : s.service.cycle c = .read picked)
    (completion : Completion picked)
    (hservice : s'.service
      = s.service.fetch json c responses completion) :
    Serialized json config w (events ++ [.call (.fetch c responses)])
      inserted s' := by
  have hnot : ¬ (s.service.cycle c).Ended := by
    rw [hread]
    exact id
  cases h with
  | quiet calls hcalls hserial hquiet => exact absurd (hquiet c) hnot
  | running i calls older inserts hcalls hserial hpending halone =>
    have hc := eq_of_running hlocked hpending hworks
    subst hc
    generalize hnow : s.service.world = now at hpending
    rw [hread] at hpending
    cases hpending with
    | read topTen =>
      have hsilent : Serialization
          (events ++ [.call (.fetch c responses)]) inserted
          (calls ++ insertCalls inserts) := hserial.silent rfl
      have hother : ∀ p j, j ≠ c →
          ((s.service.setCycle c p).cycle j).Ended := by
        intro p j hj
        rw [s.service.setCycle_of_ne p hj]
        exact halone j hj
      unfold Service.fetch at hservice
      by_cases hfault : Faults json responses topTen.picked
      · obtain ⟨e, he⟩ := whenAll_of_fault completion hfault
        rw [he] at hservice
        refine of_running hcalls hsilent ?_ ?_
        · rw [hservice]
          exact hnow
        · intro j
          rw [hservice]
          by_cases hj : j = c
          · rw [hj, s.service.setCycle_self]
            trivial
          · exact hother _ j hj
      · rw [whenAll_of_no_fault completion hfault] at hservice
        refine .running c calls older inserts hcalls hsilent ?_ ?_
        · rw [hservice]
          show Pending _ _ _ _ _ ((s.service.setCycle c _).cycle c)
            s.service.world
          rw [s.service.setCycle_self, hnow]
          exact .fetched topTen completion hfault (by simp)
        · intro j hj
          rw [hservice]
          exact hother _ j hj

/-- A cycle removes its rows. -/
theorem save (h : Serialized json config w events inserted s)
    (hlocked : Locked times s) {c : Invocation π}
    (hworks : ∃ since, s.job.phase c = .working since)
    {responses : Responses} {lists : Fetched}
    (hfetched : s.service.cycle c = .fetched responses lists)
    (hservice : s'.service = s.service.save c responses lists) :
    Serialized json config w (events ++ [.call (.save c)]) inserted s' := by
  have hrows := h.rows_of_fetched hlocked hworks hfetched
  unfold Service.save at hservice
  rw [ConsumerQueue.removeRange_of_subset hrows] at hservice
  cases h with
  | quiet calls hcalls hserial hquiet =>
    have hended := hquiet c
    rw [hfetched] at hended
    cases hended
  | running i calls older inserts hcalls hserial hpending halone =>
    have hc := eq_of_running hlocked hpending hworks
    subst hc
    generalize hnow : s.service.world = now at hpending
    rw [hfetched] at hpending
    cases hpending with
    | fetched topTen completion hfault hfetch =>
      refine .running c calls older inserts hcalls
        (hserial.silent rfl) ?_ ?_
      · rw [hservice, ← hnow]
        show Pending _ _ _ _ _ ((s.service.setCycle c _).cycle c) _
        rw [s.service.setCycle_self]
        exact .saved topTen completion hfault
          (List.mem_append_left _ hfetch)
      · intro j hj
        rw [hservice]
        show ((s.service.setCycle c _).cycle j).Ended
        rw [s.service.setCycle_of_ne _ hj]
        exact halone j hj

/-- A cycle that has removed its rows loads its shows.  The cycle and the
inserts that came in while it was under way change places. -/
theorem load (h : Serialized json config w events inserted s)
    (hlocked : Locked times s) {c : Invocation π}
    (hworks : ∃ since, s.job.phase c = .working since)
    {responses : Responses} {lists : Fetched}
    (hsaved : s.service.cycle c = .saved responses lists)
    {writes : WriteOutcomes}
    (hservice : s'.service
      = s.service.loadData json config c writes responses lists) :
    Serialized json config w (events ++ [.call (.load c writes)])
      inserted s' := by
  cases h with
  | quiet calls hcalls hserial hquiet =>
    have hended := hquiet c
    rw [hsaved] at hended
    cases hended
  | running i calls older inserts hcalls hserial hpending halone =>
    have hc := eq_of_running hlocked hpending hworks
    subst hc
    generalize hnow : s.service.world = now at hpending
    rw [hsaved] at hpending
    cases hpending with
    | saved topTen completion hfault hfetch =>
      let input : CycleInput older.queue.rows :=
        { topTen := topTen, completion := completion,
          responses := responses, writes := writes }
      have hcycle : consumeLogic json config older input
          = { queue := older.queue.without
                (fetchedOf json responses completion).processedUrls
              storage := (loadData json config writes
                (fetchedOf json responses completion).shows
                older.storage).1 } :=
        consumeLogic_of_no_fault json config hfault
      have hstep : (serial json config ι (Invocation π)).Step older
          (.cycle c responses writes)
          (consumeLogic json config older input) :=
        ⟨input, rfl, rfl, rfl⟩
      have hrun := hcalls.append
        ((run_inserts json config inserts _).cons hstep)
      refine .quiet _ ?_ (hserial.load hfetch writes) ?_
      · have hworld : s'.service.world
            = World.insertAll (consumeLogic json config older input)
              inserts := by
          rw [hcycle, World.insertAll_without, hservice]
          · show ({ queue := s.service.world.queue
                    storage := (TvMazeScraper.loadData json config writes _
                      s.service.world.storage).1 } : World) = _
            rw [hnow, World.insertAll_storage]
          · intro r hr
            apply older.queue.lt_nextId
            exact topTen.mem_of_mem_picked (mem_processedUrls.mp hr).1
        rw [hworld]
        exact hrun
      · intro j
        rw [hservice]
        show ((s.service.setCycle c _).cycle j).Ended
        by_cases hj : j = c
        · rw [hj, s.service.setCycle_self]
          trivial
        · rw [s.service.setCycle_of_ne _ hj]
          exact halone j hj

end Serialized

variable [DecidableEq ι] [DecidableEq π]

/-- Every step under the lock keeps a serial run. -/
theorem serialized_step (hlocked : Locked times s)
    (h : Serialized json config w events inserted s)
    {event : LockedEvent ι π}
    (hstep : (lockedCycles times json config ι).Step s event s') :
    Serialized json config w (events ++ [event]) (inserted ++ s.inserts event)
      s' := by
  -- the events but an insert, whose part of the log is empty
  have hnothing : ∀ {e : LockedEvent ι π}, s.inserts e = [] →
      Serialized json config w (events ++ [e]) inserted s' →
      Serialized json config w (events ++ [e]) (inserted ++ s.inserts e)
        s' := by
    intro e hinserts hkept
    rwa [hinserts, List.append_nil]
  cases event with
  | job event =>
    rcases hstep with ⟨_, hservice, _⟩
    exact hnothing rfl (h.silent rfl (by rw [hservice]) (by rw [hservice]))
  | call event =>
    rcases hstep with ⟨hcall, hjob, hworks⟩
    cases event with
    | insert i =>
      rcases hcall with ⟨forceLoad, urls, hchecked, hservice⟩
      show Serialized _ _ _ _ (inserted ++ s.service.inserts (.insert i)) _
      rw [inserts_of_checked hchecked]
      exact h.insert urls hservice
    | read c =>
      rcases hcall with ⟨hidle, topTen, hservice⟩
      exact hnothing rfl (h.read hlocked (hworks c rfl) hidle topTen hservice)
    | fetch c responses =>
      rcases hcall with ⟨picked, hread, completion, hservice⟩
      exact hnothing rfl
        (h.fetch hlocked (hworks c rfl) hread completion hservice)
    | save c =>
      rcases hcall with ⟨responses, lists, hfetched, hservice⟩
      exact hnothing rfl (h.save hlocked (hworks c rfl) hfetched hservice)
    | load c writes =>
      rcases hcall with ⟨responses, lists, hsaved, hservice⟩
      exact hnothing rfl (h.load hlocked (hworks c rfl) hsaved hservice)
    | _ =>
      obtain ⟨hcycle, hworld⟩ := cycle_of_load_step hcall rfl
      exact hnothing rfl (h.silent rfl (hworld nofun) hcycle)

/-- Every run under the lock has a serial run. -/
theorem serialized_of_run (hshort : ∀ i, times.duration i < lockExpiry)
    (hrun : (lockedCycles times json config ι).Run (.start ι π w) events s) :
    ∃ inserted, ((lockedCycles times json config ι).logging
        LockedService.inserts).Run (.start ι π w, []) events (s, inserted) ∧
      Serialized json config w events inserted s := by
  have h : ∃ inserted, ((lockedCycles times json config ι).logging
        LockedService.inserts).Run (.start ι π w, []) events (s, inserted) ∧
      Locked times s ∧ Serialized json config w events inserted s := by
    apply hrun.logged (P := fun events s inserted => Locked times s ∧
      Serialized json config w events inserted s)
    · rintro events s inserted event s' ⟨hlocked, h⟩ hstep
      exact ⟨locked_step hshort hlocked hstep,
        serialized_step hlocked h hstep⟩
    · exact ⟨locked_start hshort w, .quiet [] (.nil w) .nil fun _ => trivial⟩
  obtain ⟨inserted, hlogged, _, hserialized⟩ := h
  exact ⟨inserted, hlogged, hserialized⟩

/-- As long as no work takes 20 seconds, a run in which no cycle is under way
at the end comes to the same world as a serial run, which has the inserts and
the cycles of the run, each in their order. -/
theorem serial_of_run (hshort : ∀ i, times.duration i < lockExpiry)
    (hrun : (lockedCycles times json config ι).Run (.start ι π w) events s)
    (hended : ∀ i, (s.service.cycle i).Ended) :
    ∃ inserted calls, ((lockedCycles times json config ι).logging
        LockedService.inserts).Run (.start ι π w, []) events (s, inserted) ∧
      (serial json config ι (Invocation π)).Run w calls s.service.world ∧
      Serialization events inserted calls := by
  obtain ⟨inserted, hlogged, hserialized⟩ := serialized_of_run hshort hrun
  cases hserialized with
  | quiet calls hcalls hserial hquiet =>
    exact ⟨inserted, calls, hlogged, hcalls, hserial⟩
  | running i calls older inserts hcalls hserial hpending halone =>
    exact absurd (hended i) hpending.not_ended

end Serial

/-! ### A cycle and an insert -/

/-- One process whose invocations work for 5 seconds. -/
def quickJob : JobTimes Unit where
  startAsync _ := 0
  duration _ := 5000

theorem quickJob_short (i : Invocation Unit) :
    quickJob.duration i < lockExpiry := by
  show 5000 < 20000
  omega

/-- The first invocation has the lock. -/
def firstLocked : JobState Unit :=
  ((JobState.initial Unit).setPhase firstJob .started).stringSet firstJob

theorem firstLocked_working : firstLocked.phase firstJob = .working 0 :=
  JobState.stringSet_self rfl firstJob

theorem run_firstLocked :
    (backgroundJob quickJob).Run (.initial Unit)
      [.timerTick firstJob, .stringSet firstJob] firstLocked := by
  refine .cons ⟨rfl, Nat.le_refl 0, rfl⟩ (.single ⟨?_, rfl⟩)
  exact (JobState.initial Unit).setPhase_self firstJob _

/-- The cycle takes the row of show 1, `LoadUrls` queues the URL again, and
the cycle goes on. -/
def insertBehind : List (ServiceEvent Unit (Invocation Unit)) :=
  [.list () true (.success "\x7b\"1\":1\x7d"), .findMissing () answeredReads,
    .read firstJob, .check (), .insert (), .fetch firstJob twoResponses,
    .save firstJob, .load firstJob .accepting]

theorem run_insertBehind :
    ∃ s, (interleaving oneListed { index := "tv" } Unit
        (Invocation Unit)).Run (.start _ _ sharedRow) insertBehind s ∧
      (s.cycle firstJob).Ended ∧ s.world.queue.urls = [showUrl "1"] :=
  ⟨_, .cons (step_list rfl getAllShowsUrl_oneListed) <|
    .cons (step_findMissing rfl findMissingUrls_empty) <|
    .cons ⟨rfl, .first 20 _, rfl⟩ <| .cons (step_check rfl rfl) <|
    .cons (step_insert rfl) <| .cons ⟨_, rfl, .inOrder _, rfl⟩ <|
    .cons ⟨_, _, rfl, rfl⟩ <| .single ⟨_, _, rfl, rfl⟩, trivial, rfl⟩

theorem cycle?_insertBehind :
    ∀ event ∈ insertBehind, ∀ i, event.cycle? = some i → i = firstJob := by
  intro event hevent i hi
  simp only [insertBehind, List.mem_cons, List.not_mem_nil, or_false]
    at hevent
  rcases hevent with rfl | rfl | rfl | rfl | rfl | rfl | rfl | rfl <;>
    cases hi <;> rfl

/-- The run under the lock has a serial run. -/
theorem serial_of_run_insertBehind :
    ∃ (s : Service Unit (Invocation Unit)) (inserted calls : List _),
      s.world.queue.urls = [showUrl "1"] ∧
      (serial oneListed { index := "tv" } Unit (Invocation Unit)).Run
        sharedRow calls s.world ∧
      Serialization
        ([.job (.timerTick firstJob), .job (.stringSet firstJob)]
          ++ insertBehind.map LockedEvent.call) inserted calls := by
  obtain ⟨s, hcalls, hended, hurls⟩ := run_insertBehind
  have hidle : ∀ i, ((Service.start Unit (Invocation Unit)
      sharedRow).cycle i).Ended := fun _ => trivial
  have hworks : ∀ event ∈ insertBehind, ∀ i, event.cycle? = some i →
      ∃ since, firstLocked.phase i = .working since := by
    intro event hevent i hi
    rw [cycle?_insertBehind event hevent i hi]
    exact ⟨0, firstLocked_working⟩
  have hrun : (lockedCycles quickJob oneListed { index := "tv" } Unit).Run
      (.start Unit Unit sharedRow) _ ⟨firstLocked, s⟩ :=
    (run_of_job hidle run_firstLocked).append (run_of_calls hworks hcalls)
  have hquiet : ∀ i, (s.cycle i).Ended := by
    intro i
    by_cases hi : i = firstJob
    · rwa [hi]
    · have hother : s.cycle i = .idle :=
        cycle_of_run hcalls fun event hevent hc =>
          hi (cycle?_insertBehind event hevent i hc)
      rw [hother]
      trivial
  obtain ⟨inserted, calls, _, hserial, htied⟩ :=
    serial_of_run quickJob_short hrun hquiet
  exact ⟨s, inserted, calls, hurls, hserial, htied⟩

end TvMazeScraper
