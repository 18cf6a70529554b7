import Mathlib.Logic.Function.Basic
import TvMazeScraper.Lib.KeyedStore
import TvMazeScraper.Lib.Machine

/-!
# Scheduling the nightly load

Every process calls `ScheduleHangfireJobs` when it starts, and all of them
share one Hangfire storage.  In development the process first lists the
recurring jobs and removes them one after the other; then every process adds
the nightly load.  The calls of different processes interleave in any order.

* `nightly_or_removing`: once a process is done, the nightly load is there, or
  another process is between its list and its `AddOrUpdate`.
* `scheduled_of_run`: when nobody is in between, the storage is what it would
  be if the processes had started one after the other.
-/

namespace TvMazeScraper

open Machine

/-- A recurring job of Hangfire. -/
structure RecurringJob where
  Id : String
  method : String
  forceLoad : Bool
  cronExpression : String
  deriving DecidableEq, Repr

/-- The job that `AddOrUpdate` stores.  Hangfire makes its id of the type and
the name of the method. -/
def nightlyLoad (recurringJobId : String → String → String) : RecurringJob where
  Id := recurringJobId "IConsumer" "LoadUrls"
  method := "IConsumer.LoadUrls"
  forceLoad := false
  cronExpression := "0 0 * * *"

/-- Where a process is in `ScheduleHangfireJobs`. -/
inductive SchedulePhase where
  | starting
  | removing (recurringJobs : List String)
  | scheduled
  deriving DecidableEq, Repr

/-- The recurring jobs and the processes. -/
structure JobStorage (π : Type) where
  jobs : KeyedStore RecurringJob.Id
  phase : π → SchedulePhase

/-- The calls of a process to the storage. -/
inductive ScheduleEvent (π : Type) where
  | getRecurringJobs (p : π)
  | removeIfExists (p : π)
  | addOrUpdate (p : π)

section Scheduling

variable {π : Type} [DecidableEq π]

/-- Move one process to another phase. -/
def JobStorage.setPhase (s : JobStorage π) (p : π) (phase : SchedulePhase) :
    JobStorage π :=
  { s with phase := Function.update s.phase p phase }

@[simp] theorem JobStorage.setPhase_self (s : JobStorage π) (p : π)
    (phase : SchedulePhase) : (s.setPhase p phase).phase p = phase := by
  show Function.update s.phase p phase p = phase
  rw [Function.update_self]

theorem JobStorage.setPhase_of_ne (s : JobStorage π) {p q : π}
    (phase : SchedulePhase) (h : q ≠ p) :
    (s.setPhase p phase).phase q = s.phase q := by
  show Function.update s.phase p phase q = s.phase q
  rw [Function.update_of_ne h]

/-- `ScheduleHangfireJobs` in any number of processes.  The list of the
recurring jobs has the ids of the storage in some order. -/
def scheduling (isDevelopment : π → Bool)
    (recurringJobId : String → String → String) :
    Machine (JobStorage π) (ScheduleEvent π) where
  Step s event s' :=
    match event with
    | .getRecurringJobs p => s.phase p = .starting ∧ isDevelopment p ∧
        ∃ ids, (∀ id, id ∈ ids ↔ id ∈ s.jobs.keys) ∧
          s' = s.setPhase p (.removing ids)
    | .removeIfExists p => ∃ id ids, s.phase p = .removing (id :: ids) ∧
        s' = { s.setPhase p (.removing ids) with jobs := s.jobs.erase id }
    | .addOrUpdate p =>
        (s.phase p = .starting ∧ isDevelopment p = false ∨
          s.phase p = .removing []) ∧
        s' = { s.setPhase p .scheduled with
          jobs := s.jobs.put (nightlyLoad recurringJobId) }

/-- No process has started. -/
def JobStorage.initial (π : Type) (jobs : KeyedStore RecurringJob.Id) :
    JobStorage π where
  jobs := jobs
  phase _ := .starting

/-- The ids that a process has listed and not yet removed. -/
def SchedulePhase.left : SchedulePhase → Option (List String)
  | .starting => none
  | .removing ids => some ids
  | .scheduled => some []

/-- Some process is between its list of the recurring jobs and its
`AddOrUpdate`. -/
def JobStorage.Removing (s : JobStorage π) : Prop :=
  ∃ p ids, s.phase p = .removing ids

/-! ## Every step -/

/-- What every run keeps, given the jobs that were there before. -/
structure ScheduleInvariant (isDevelopment : π → Bool)
    (nightly : RecurringJob) (old : KeyedStore RecurringJob.Id)
    (s : JobStorage π) : Prop where
  removes : ∀ p ids, s.phase p = .removing ids → isDevelopment p
  added : ∀ p, s.phase p = .scheduled →
    s.jobs.get? nightly.Id = some nightly ∨ s.Removing
  listed : ∀ p ids, isDevelopment p → (s.phase p).left = some ids →
    ∀ id ∈ s.jobs.keys, id = nightly.Id ∨ id ∈ ids
  kept : (∀ p, isDevelopment p → s.phase p = .starting) →
    ∀ id, id ≠ nightly.Id → s.jobs.get? id = old.get? id

variable {isDevelopment : π → Bool}
  {recurringJobId : String → String → String} {s s' : JobStorage π}
  {nightly : RecurringJob} {old : KeyedStore RecurringJob.Id}

theorem JobStorage.removing_setPhase (s : JobStorage π) (p : π)
    (ids : List String) : (s.setPhase p (.removing ids)).Removing :=
  ⟨p, ids, s.setPhase_self p _⟩

/-- A process of the development environment lists the ids of the storage. -/
theorem ScheduleInvariant.getRecurringJobs
    (h : ScheduleInvariant isDevelopment nightly old s) {p : π}
    (hp : isDevelopment p) {ids : List String}
    (hids : ∀ id, id ∈ ids ↔ id ∈ s.jobs.keys) :
    ScheduleInvariant isDevelopment nightly old
      (s.setPhase p (.removing ids)) := by
  refine ⟨fun q ids' hq => ?_, fun _ _ => .inr (s.removing_setPhase p ids),
    fun q ids' hdev hq => ?_, fun hstarting => ?_⟩
  · by_cases hqp : q = p
    · rw [hqp]
      exact hp
    · rw [s.setPhase_of_ne _ hqp] at hq
      exact h.removes q ids' hq
  · by_cases hqp : q = p
    · rw [hqp, s.setPhase_self] at hq
      cases hq
      exact fun id hid => .inr ((hids id).mpr hid)
    · rw [s.setPhase_of_ne _ hqp] at hq
      exact h.listed q ids' hdev hq
  · have hbegun := hstarting p hp
    rw [s.setPhase_self] at hbegun
    cases hbegun

/-- It removes the next id of its list. -/
theorem ScheduleInvariant.removeIfExists
    (h : ScheduleInvariant isDevelopment nightly old s) {p : π} {id : String}
    {ids : List String} (hphase : s.phase p = .removing (id :: ids)) :
    ScheduleInvariant isDevelopment nightly old
      { s.setPhase p (.removing ids) with jobs := s.jobs.erase id } := by
  have hp := h.removes p _ hphase
  refine ⟨fun q ids' hq => ?_, fun _ _ => .inr (s.removing_setPhase p ids),
    fun q ids' hdev hq id' hid' => ?_, fun hstarting => ?_⟩
  · by_cases hqp : q = p
    · rw [hqp]
      exact hp
    · exact h.removes q ids' ((s.setPhase_of_ne _ hqp).symm.trans hq)
  · obtain ⟨hne, hmem⟩ := KeyedStore.mem_erase.mp hid'
    by_cases hqp : q = p
    · subst hqp
      replace hq : ((s.setPhase q (.removing ids)).phase q).left
        = some ids' := hq
      rw [s.setPhase_self] at hq
      cases hq
      have hleft : (s.phase q).left = some (id :: ids) := by
        rw [hphase]
        rfl
      refine (h.listed q _ hdev hleft id' hmem).imp_right fun hlisted => ?_
      exact (List.mem_cons.mp hlisted).resolve_left hne
    · replace hq : ((s.setPhase p (.removing ids)).phase q).left
        = some ids' := hq
      rw [s.setPhase_of_ne _ hqp] at hq
      exact h.listed q ids' hdev hq id' hmem
  · have hbegun : (s.setPhase p (.removing ids)).phase p = .starting :=
      hstarting p hp
    rw [s.setPhase_self] at hbegun
    cases hbegun

/-- A process adds the nightly load, after its removals or without any. -/
theorem ScheduleInvariant.addOrUpdate
    (h : ScheduleInvariant isDevelopment nightly old s) {p : π}
    (hp : s.phase p = .starting ∧ isDevelopment p = false ∨
      s.phase p = .removing []) :
    ScheduleInvariant isDevelopment nightly old
      { s.setPhase p .scheduled with jobs := s.jobs.put nightly } := by
  refine ⟨fun q ids hq => ?_,
    fun _ _ => .inl (KeyedStore.get?_put_self s.jobs nightly),
    fun q ids hdev hq id hid => ?_, fun hstarting id hne => ?_⟩
  · by_cases hqp : q = p
    · replace hq : (s.setPhase p .scheduled).phase q = .removing ids := hq
      rw [hqp, s.setPhase_self] at hq
      cases hq
    · exact h.removes q ids ((s.setPhase_of_ne _ hqp).symm.trans hq)
  · replace hq : ((s.setPhase p .scheduled).phase q).left = some ids := hq
    rcases KeyedStore.mem_put.mp hid with hmem | hnew
    · by_cases hqp : q = p
      · subst hqp
        rcases hp with ⟨_, hproduction⟩ | hremoved
        · rw [hdev] at hproduction
          cases hproduction
        · -- everything but the nightly load has been removed
          have hleft : (s.phase q).left = some [] := by
            rw [hremoved]
            rfl
          refine (h.listed q [] hdev hleft id hmem).imp_right fun hnil => ?_
          cases hnil
      · rw [s.setPhase_of_ne _ hqp] at hq
        exact h.listed q ids hdev hq id hmem
    · exact .inl hnew.symm
  · show (s.jobs.put nightly).get? id = old.get? id
    rw [KeyedStore.get?_put_of_ne s.jobs hne]
    refine h.kept (fun q hdev => ?_) id hne
    have hbegun : (s.setPhase p .scheduled).phase q = .starting :=
      hstarting q hdev
    by_cases hqp : q = p
    · rw [hqp, s.setPhase_self] at hbegun
      cases hbegun
    · rwa [s.setPhase_of_ne _ hqp] at hbegun

/-- Every step keeps the invariant. -/
theorem scheduleInvariant_step {event : ScheduleEvent π}
    (h : ScheduleInvariant isDevelopment (nightlyLoad recurringJobId) old s)
    (hstep : (scheduling isDevelopment recurringJobId).Step s event s') :
    ScheduleInvariant isDevelopment (nightlyLoad recurringJobId) old s' := by
  cases event with
  | getRecurringJobs p =>
    rcases hstep with ⟨_, hp, ids, hids, rfl⟩
    exact h.getRecurringJobs hp hids
  | removeIfExists p =>
    rcases hstep with ⟨id, ids, hphase, rfl⟩
    exact h.removeIfExists hphase
  | addOrUpdate p =>
    rcases hstep with ⟨hp, rfl⟩
    exact h.addOrUpdate hp

/-! ## Every run -/

theorem scheduleInvariant_of_run {events : List (ScheduleEvent π)}
    (hrun : (scheduling isDevelopment recurringJobId).Run (.initial π old)
      events s) :
    ScheduleInvariant isDevelopment (nightlyLoad recurringJobId) old s := by
  apply hrun.invariant
  · intro s event s' h hstep
    exact scheduleInvariant_step h hstep
  · exact ⟨nofun, nofun, nofun, fun _ _ _ => rfl⟩

/-- Once a process is done, the nightly load is there, or another process is
between its list and its `AddOrUpdate`. -/
theorem nightly_or_removing {events : List (ScheduleEvent π)}
    (hrun : (scheduling isDevelopment recurringJobId).Run (.initial π old)
      events s)
    {p : π} (hp : s.phase p = .scheduled) :
    s.jobs.get? (nightlyLoad recurringJobId).Id
        = some (nightlyLoad recurringJobId) ∨ s.Removing :=
  (scheduleInvariant_of_run hrun).added p hp

/-- When no process is in between, the storage has the nightly load, and
besides it nothing if a process of the development environment is done, and
all the old jobs if none is. -/
theorem scheduled_of_run {events : List (ScheduleEvent π)}
    (hrun : (scheduling isDevelopment recurringJobId).Run (.initial π old)
      events s)
    (hdone : ∃ p, s.phase p = .scheduled) (hquiet : ¬ s.Removing) :
    ((∃ p, isDevelopment p ∧ s.phase p = .scheduled) →
      s.jobs = KeyedStore.empty.put (nightlyLoad recurringJobId)) ∧
    ((∀ p, isDevelopment p → s.phase p ≠ .scheduled) →
      s.jobs = old.put (nightlyLoad recurringJobId)) := by
  have h := scheduleInvariant_of_run hrun
  rcases hdone with ⟨p, hp⟩
  have hnightly := (h.added p hp).resolve_right hquiet
  constructor
  · rintro ⟨q, hdev, hq⟩
    apply KeyedStore.ext_get?
    intro id
    by_cases hid : id = (nightlyLoad recurringJobId).Id
    · rw [hid, hnightly, KeyedStore.get?_put_self]
    · rw [KeyedStore.get?_put_of_ne _ hid, KeyedStore.get?_empty,
        KeyedStore.get?_eq_none]
      intro hmem
      have hleft : (s.phase q).left = some [] := by
        rw [hq]
        rfl
      rcases h.listed q [] hdev hleft id hmem with hsame | hnil
      · exact hid hsame
      · cases hnil
  · intro hproduction
    apply KeyedStore.ext_get?
    intro id
    by_cases hid : id = (nightlyLoad recurringJobId).Id
    · rw [hid, hnightly, KeyedStore.get?_put_self]
    · rw [KeyedStore.get?_put_of_ne _ hid]
      refine h.kept (fun q hdev => ?_) id hid
      cases hq : s.phase q with
      | starting => rfl
      | removing ids => exact absurd ⟨q, ids, hq⟩ hquiet
      | scheduled => exact absurd hq (hproduction q hdev)

end Scheduling

/-! ### A process of each environment -/

/-- The id that Hangfire makes of a type and a method. -/
def dotted (type method : String) : String := type ++ "." ++ method

/-- A job of an earlier version. -/
def staleJob : RecurringJob where
  Id := "IConsumer.ProcessDataIncremental"
  method := "IConsumer.ProcessDataIncremental"
  forceLoad := false
  cronExpression := "*/10 * * * * *"

/-- The state of the production process `false` and of the development process
`true`. -/
def twoEnvironments (jobs : KeyedStore RecurringJob.Id)
    (production development : SchedulePhase) : JobStorage Bool where
  jobs := jobs
  phase p := if p then development else production

theorem twoEnvironments_production (jobs : KeyedStore RecurringJob.Id)
    (p q p' : SchedulePhase) :
    (twoEnvironments jobs p q).setPhase false p'
      = twoEnvironments jobs p' q := by
  unfold JobStorage.setPhase twoEnvironments
  congr 1
  funext b
  cases b <;> rfl

theorem twoEnvironments_development (jobs : KeyedStore RecurringJob.Id)
    (p q q' : SchedulePhase) :
    (twoEnvironments jobs p q).setPhase true q'
      = twoEnvironments jobs p q' := by
  unfold JobStorage.setPhase twoEnvironments
  congr 1
  funext b
  cases b <;> rfl

/-- The production process adds the nightly load, and the development process
removes it with the old job and adds it again. -/
theorem run_twoEnvironments :
    (scheduling id dotted).Run (.initial Bool (KeyedStore.empty.put staleJob))
      [.addOrUpdate false, .getRecurringJobs true, .removeIfExists true,
        .removeIfExists true, .addOrUpdate true]
      (twoEnvironments
        (((((KeyedStore.empty.put staleJob).put (nightlyLoad dotted)).erase
          "IConsumer.LoadUrls").erase staleJob.Id).put (nightlyLoad dotted))
        .scheduled .scheduled) := by
  have hstart : JobStorage.initial Bool (KeyedStore.empty.put staleJob)
      = twoEnvironments (KeyedStore.empty.put staleJob) .starting
        .starting := by
    unfold JobStorage.initial twoEnvironments
    congr 1
    funext b
    cases b <;> rfl
  rw [hstart]
  refine .cons (t := twoEnvironments _ .scheduled .starting)
    ⟨.inl ⟨rfl, rfl⟩, by rw [twoEnvironments_production]; rfl⟩ ?_
  refine .cons (t := twoEnvironments _ .scheduled
    (.removing ["IConsumer.LoadUrls", staleJob.Id]))
    ⟨rfl, rfl, _, fun k => ?_, (twoEnvironments_development ..).symm⟩ ?_
  · show k ∈ _ ↔ k ∈ ((KeyedStore.empty.put staleJob).put
      (nightlyLoad dotted)).keys
    have hempty : k ∉ (KeyedStore.empty : KeyedStore RecurringJob.Id).keys :=
      KeyedStore.get?_eq_none.mp (KeyedStore.get?_empty k)
    have hid : (nightlyLoad dotted).Id = "IConsumer.LoadUrls" := by decide
    rw [KeyedStore.mem_put, KeyedStore.mem_put, hid]
    simp [hempty, eq_comm, or_comm]
  refine .cons (t := twoEnvironments _ .scheduled (.removing [staleJob.Id]))
    ⟨_, _, rfl, by rw [twoEnvironments_development]; rfl⟩ ?_
  refine .cons (t := twoEnvironments _ .scheduled (.removing []))
    ⟨_, _, rfl, by rw [twoEnvironments_development]; rfl⟩ ?_
  exact .single ⟨.inr rfl, by rw [twoEnvironments_development]; rfl⟩

/-- Only the nightly load is left. -/
theorem scheduled_of_run_two :
    ∃ s, (scheduling id dotted).Run
        (.initial Bool (KeyedStore.empty.put staleJob))
        [.addOrUpdate false, .getRecurringJobs true, .removeIfExists true,
          .removeIfExists true, .addOrUpdate true] s ∧
      s.jobs = KeyedStore.empty.put (nightlyLoad dotted) := by
  refine ⟨_, run_twoEnvironments, (scheduled_of_run run_twoEnvironments
    ⟨true, rfl⟩ ?_).1 ⟨true, rfl, rfl⟩⟩
  rintro ⟨_ | _, ids, hphase⟩
  · cases hphase
  · cases hphase

end TvMazeScraper
