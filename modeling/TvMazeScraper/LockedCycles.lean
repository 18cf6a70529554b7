import TvMazeScraper.BackgroundJob
import TvMazeScraper.HandOff

/-!
# Cycles under the lock

`DoWork` as a whole: an invocation runs one `ConsumeLogic` cycle between its
`StringSet` and its `KeyDelete`, while `LoadUrls` calls come in at any time.
The machine puts the lock and the calls side by side and ties them in two
places.  A cycle takes a step only while its invocation works, and the work
ends only when the cycle has ended.

* `job_of_run` and `service_of_run`: the two halves of a run are runs of
  `backgroundJob` and of `interleaving`.
* `Locked`: a cycle that is under way is the cycle of the invocation that
  works.
* `Locked.alone`: as long as nobody works for 20 seconds, two cycles are never
  under way at the same time.
-/

namespace TvMazeScraper

open Machine

/-- A cycle that has not begun, or whose call has returned. -/
def CyclePhase.Ended : CyclePhase → Prop
  | .read _ => False
  | .fetched _ _ => False
  | .saved _ _ => False
  | _ => True

/-- The state of the lock, and the calls.  Every invocation has a cycle. -/
structure LockedService (ι π : Type) where
  job : JobState π
  service : Service ι (Invocation π)

inductive LockedEvent (ι π : Type) where
  | job (event : JobEvent π)
  | call (event : ServiceEvent ι (Invocation π))

namespace LockedEvent

variable {ι π : Type}

/-- The event, if it is one of the lock. -/
def job? : LockedEvent ι π → Option (JobEvent π)
  | .job event => some event
  | .call _ => none

/-- The event, if it is one of a call. -/
def call? : LockedEvent ι π → Option (ServiceEvent ι (Invocation π))
  | .job _ => none
  | .call event => some event

end LockedEvent

/-- Nothing has started. -/
def LockedService.start (ι π : Type) (w : World) : LockedService ι π where
  job := .initial π
  service := .start ι (Invocation π) w

section Locked

variable {ι π : Type} [DecidableEq ι] [DecidableEq π]

/-- The lock and the calls. -/
def lockedCycles (times : JobTimes π) (json : JsonConvert)
    (config : ELKConfiguration) (ι : Type) [DecidableEq ι] :
    Machine (LockedService ι π) (LockedEvent ι π) where
  Step s event s' :=
    match event with
    | .job event => (backgroundJob times).Step s.job event s'.job ∧
        s'.service = s.service ∧
        ∀ i, event = .work i → (s.service.cycle i).Ended
    | .call event =>
        (interleaving json config ι (Invocation π)).Step s.service event
          s'.service ∧
        s'.job = s.job ∧
        ∀ i, event.cycle? = some i → ∃ since, s.job.phase i = .working since

variable {times : JobTimes π} {json : JsonConvert}
  {config : ELKConfiguration} {s s' : LockedService ι π}

/-! ## The two halves of a run -/

theorem job_of_run {events : List (LockedEvent ι π)}
    (hrun : (lockedCycles times json config ι).Run s events s') :
    (backgroundJob times).Run s.job (events.filterMap LockedEvent.job?)
      s'.job := by
  have hsim : Simulation (lockedCycles times json config ι)
      (backgroundJob times) (fun s j => j = s.job) LockedEvent.job? := by
    constructor
    · intro s event s' j hj hstep hview
      cases event with
      | job event => cases hview
      | call event => rw [hj, hstep.2.1]
    · intro s event s' j visible hj hstep hview
      cases event with
      | job event =>
        cases hview
        exact ⟨s'.job, hj ▸ hstep.1, rfl⟩
      | call event => cases hview
  obtain ⟨j, hjob, rfl⟩ := hsim.run hrun rfl
  exact hjob

theorem service_of_run {events : List (LockedEvent ι π)}
    (hrun : (lockedCycles times json config ι).Run s events s') :
    (interleaving json config ι (Invocation π)).Run s.service
      (events.filterMap LockedEvent.call?) s'.service := by
  have hsim : Simulation (lockedCycles times json config ι)
      (interleaving json config ι (Invocation π))
      (fun s calls => calls = s.service) LockedEvent.call? := by
    constructor
    · intro s event s' calls hcalls hstep hview
      cases event with
      | job event => rw [hcalls, hstep.2.1]
      | call event => cases hview
    · intro s event s' calls visible hcalls hstep hview
      cases event with
      | job event => cases hview
      | call event =>
        cases hview
        exact ⟨s'.service, hcalls ▸ hstep.1, rfl⟩
  obtain ⟨calls, hservice, rfl⟩ := hsim.run hrun rfl
  exact hservice

/-- A run of the lock while no cycle is under way. -/
theorem run_of_job {j j' : JobState π} {service : Service ι (Invocation π)}
    (hended : ∀ i, (service.cycle i).Ended) {events : List (JobEvent π)}
    (hrun : (backgroundJob times).Run j events j') :
    (lockedCycles times json config ι).Run ⟨j, service⟩
      (events.map LockedEvent.job) ⟨j', service⟩ := by
  induction hrun with
  | nil => exact .nil _
  | snoc _ hstep ih =>
    rw [List.map_append]
    exact ih.snoc ⟨hstep, rfl, fun i _ => hended i⟩

/-- A run of the calls while the invocations of their cycles work. -/
theorem run_of_calls {job : JobState π}
    {service service' : Service ι (Invocation π)}
    {events : List (ServiceEvent ι (Invocation π))}
    (hworks : ∀ event ∈ events, ∀ i, event.cycle? = some i →
      ∃ since, job.phase i = .working since)
    (hrun : (interleaving json config ι (Invocation π)).Run service events
      service') :
    (lockedCycles times json config ι).Run ⟨job, service⟩
      (events.map LockedEvent.call) ⟨job, service'⟩ := by
  induction hrun with
  | nil => exact .nil _
  | snoc _ hstep ih =>
    rw [List.map_append]
    refine (ih fun event hmem => hworks event ?_).snoc ⟨hstep, rfl, ?_⟩
    · exact List.mem_append_left _ hmem
    · exact hworks _ (by simp)

/-! ## The cycle that is under way -/

/-- The invariant of the lock holds, and a cycle that is under way belongs to
an invocation that works. -/
structure Locked (times : JobTimes π) (s : LockedService ι π) : Prop where
  invariant : JobInvariant times s.job
  works : ∀ i, ¬ (s.service.cycle i).Ended →
    ∃ since, s.job.phase i = .working since

omit [DecidableEq ι] [DecidableEq π] in
/-- Two invocations that work are one. -/
theorem Locked.eq_of_working (h : Locked times s) {i j : Invocation π}
    {since since' : Nat} (hi : s.job.phase i = .working since)
    (hj : s.job.phase j = .working since') : i = j :=
  h.invariant.exclusive i j (by rw [hi]; rfl) (by rw [hj]; rfl)

omit [DecidableEq ι] [DecidableEq π] in
/-- Two cycles that are under way are one. -/
theorem Locked.alone (h : Locked times s) {i j : Invocation π}
    (hi : ¬ (s.service.cycle i).Ended) (hj : ¬ (s.service.cycle j).Ended) :
    i = j := by
  obtain ⟨since, hsince⟩ := h.works i hi
  obtain ⟨since', hsince'⟩ := h.works j hj
  exact h.eq_of_working hsince hsince'

/-- An invocation works on until its work ends. -/
theorem working_of_step {j j' : JobState π} {event : JobEvent π}
    (hstep : (backgroundJob times).Step j event j') {i : Invocation π}
    {since : Nat} (hi : j.phase i = .working since)
    (hevent : event ≠ .work i) : j'.phase i = .working since := by
  have hset : ∀ k p, k ≠ i → (j.setPhase k p).phase i = .working since := by
    intro k p hk
    rw [j.setPhase_of_ne p hk.symm]
    exact hi
  have hne : ∀ k, j.phase k ≠ .working since → k ≠ i := by
    intro k hk he
    exact hk (he ▸ hi)
  cases event with
  | timerTick k =>
    rcases hstep with ⟨hidle, _, rfl⟩
    exact hset k _ (hne k (by rw [hidle]; nofun))
  | stringSet k =>
    rcases hstep with ⟨hstarted, rfl⟩
    have hk := hne k (by rw [hstarted]; nofun)
    rw [JobState.stringSet_of_ne j hk.symm]
    exact hi
  | work k =>
    rcases hstep with ⟨since', _, _, rfl⟩
    exact hset k _ fun he => hevent (by rw [he])
  | keyDelete k =>
    rcases hstep with ⟨⟨since', hreleasing⟩, rfl⟩
    exact hset k _ (hne k (by rw [hreleasing]; nofun))
  | expire =>
    rcases hstep with ⟨key, _, _, rfl⟩
    exact hi
  | advance ms =>
    rcases hstep with ⟨_, _, _, rfl⟩
    exact hi

/-- Every step keeps the cycles under the lock when no work takes 20
seconds. -/
theorem locked_step (hshort : ∀ i, times.duration i < lockExpiry)
    (h : Locked times s) {event : LockedEvent ι π}
    (hstep : (lockedCycles times json config ι).Step s event s') :
    Locked times s' := by
  cases event with
  | job event =>
    rcases hstep with ⟨hjob, hservice, hended⟩
    refine ⟨jobInvariant_step hshort h.invariant hjob, fun i hi => ?_⟩
    rw [hservice] at hi
    obtain ⟨since, hsince⟩ := h.works i hi
    exact ⟨since, working_of_step hjob hsince fun he => hi (hended i he)⟩
  | call event =>
    rcases hstep with ⟨hcall, hjob, hworks⟩
    refine ⟨by rw [hjob]; exact h.invariant, fun i hi => ?_⟩
    rw [hjob]
    by_cases hevent : event.cycle? = some i
    · exact hworks i hevent
    · rw [cycle_of_step hcall hevent] at hi
      exact h.works i hi

omit [DecidableEq ι] in
theorem locked_start (hshort : ∀ i, times.duration i < lockExpiry)
    (w : World) : Locked times (.start ι π w) :=
  ⟨jobInvariant_of_run hshort (.nil _), fun _ hi => absurd trivial hi⟩

theorem locked_of_run (hshort : ∀ i, times.duration i < lockExpiry)
    {w : World} {events : List (LockedEvent ι π)}
    (hrun : (lockedCycles times json config ι).Run (.start ι π w) events s) :
    Locked times s := by
  apply hrun.invariant
  · intro s event s' h hstep
    exact locked_step hshort h hstep
  · exact locked_start hshort w

end Locked

end TvMazeScraper
