import TvMazeScraper.BackgroundJob

/-!
# The lock when processes stop and crash

`StopAsync` stops the timer of a process, and a crash ends its invocations
wherever they are, between `StringSet` and `KeyDelete` as well.  A process
that starts again is another process.

* `exclusive_of_crashingRun`: stops and crashes do not break the exclusion.
* `acquired_of_run`: whatever the others do, some invocation sets the key in
  every stretch of 31 seconds through which one process stays up.
-/

namespace TvMazeScraper

open Machine

/-- The steps of the job, and the ends of processes. -/
inductive ProcessEvent (π : Type) where
  | job (event : JobEvent π)
  | stopAsync (p : π)
  | crash (p : π)

section Crashes

variable {π : Type} [DecidableEq π]

/-- Some invocations take no further step. -/
def JobState.halt (s : JobState π) (halted : Invocation π → Bool) :
    JobState π :=
  { s with phase := fun i => if halted i then .done else s.phase i }

/-- `StopAsync`: the timer has no further ticks.  Invocations whose tick has
come go on. -/
def JobState.stopAsync (s : JobState π) (times : JobTimes π) (p : π) :
    JobState π :=
  s.halt fun i => i.process = p ∧ s.now < times.tickAt i

/-- The process is gone.  What it has set in Redis stays there. -/
def JobState.crash (s : JobState π) (p : π) : JobState π :=
  s.halt fun i => i.process = p

/-- The background job in processes that may stop or crash at any time. -/
def crashingJob (times : JobTimes π) :
    Machine (JobState π) (ProcessEvent π) where
  Step s event s' :=
    match event with
    | .job event => (backgroundJob times).Step s event s'
    | .stopAsync p => s' = s.stopAsync times p
    | .crash p => s' = s.crash p

omit [DecidableEq π] in
theorem JobState.halt_phase (s : JobState π) (halted : Invocation π → Bool)
    (i : Invocation π) :
    (s.halt halted).phase i = s.phase i ∨ (s.halt halted).phase i = .done := by
  show (if halted i then JobPhase.done else s.phase i) = s.phase i ∨
    (if halted i then JobPhase.done else s.phase i) = .done
  split_ifs
  · exact .inr rfl
  · exact .inl rfl

variable {times : JobTimes π} {s s' : JobState π}

/-- Every step is a step of the job or halts some invocations. -/
theorem crashingJob_cases {event : ProcessEvent π}
    (h : (crashingJob times).Step s event s') :
    (∃ e, event = .job e ∧ (backgroundJob times).Step s e s') ∨
      ∃ halted, s' = s.halt halted := by
  cases event with
  | job e => exact .inl ⟨e, rfl, h⟩
  | stopAsync p => exact .inr ⟨_, h⟩
  | crash p => exact .inr ⟨_, h⟩

/-! ## Safety -/

omit [DecidableEq π] in
theorem JobInvariant.halt (h : JobInvariant times s)
    (halted : Invocation π → Bool) : JobInvariant times (s.halt halted) := by
  intro i since hheld
  rcases s.halt_phase halted i with hsame | hdone
  · rw [hsame] at hheld
    exact h i since hheld
  · rw [hdone] at hheld
    cases hheld

theorem jobInvariant_of_crashingRun
    (hshort : ∀ i, times.duration i < lockExpiry)
    {events : List (ProcessEvent π)}
    (hrun : (crashingJob times).Run (.initial π) events s) :
    JobInvariant times s := by
  apply hrun.invariant
  · intro s event s' h hstep
    rcases crashingJob_cases hstep with ⟨e, rfl, hjob⟩ | ⟨halted, rfl⟩
    · exact jobInvariant_step hshort h hjob
    · exact h.halt halted
  · intro i since hheld
    cases hheld

/-- Invocations of less than 20 seconds exclude each other whichever processes
stop or crash. -/
theorem exclusive_of_crashingRun
    (hshort : ∀ i, times.duration i < lockExpiry)
    {events : List (ProcessEvent π)}
    (hrun : (crashingJob times).Run (.initial π) events s) :
    s.Exclusive ∧ DeletesOwnKey times s :=
  have h := jobInvariant_of_crashingRun hshort hrun
  ⟨h.exclusive, h.deletesOwnKey⟩

/-! ## The clock -/

/-- An invocation that has left `idle` in a step had left it before, or its
tick has come. -/
theorem idle_of_setPhase {i j : Invocation π} {p : JobPhase}
    (hi : s.phase i ≠ .idle ∨ times.tickAt i ≤ s.now)
    (hj : (s.setPhase i p).phase j ≠ .idle) :
    s.phase j ≠ .idle ∨ times.tickAt j ≤ s.now := by
  by_cases hij : j = i
  · rw [hij]
    exact hi
  · rw [s.setPhase_of_ne p hij] at hj
    exact .inl hj

/-- What one step of the job does to the clock and to the invocations that
have not started. -/
theorem idle_of_step {event : JobEvent π}
    (h : (backgroundJob times).Step s event s') :
    s.now ≤ s'.now ∧ ∀ i, s'.phase i ≠ .idle →
      s.phase i ≠ .idle ∨ times.tickAt i ≤ s.now := by
  -- only the tick itself lets an invocation leave `idle`
  have hleft : ∀ {i : Invocation π} {phase : JobPhase},
      s.phase i = phase → phase ≠ .idle →
        s.phase i ≠ .idle ∨ times.tickAt i ≤ s.now := by
    intro i phase hphase hne
    rw [hphase]
    exact .inl hne
  cases event with
  | timerTick i =>
    rcases h with ⟨_, hcome, rfl⟩
    exact ⟨Nat.le_refl _, fun j => idle_of_setPhase (.inr hcome)⟩
  | stringSet i =>
    rcases h with ⟨hphase, rfl⟩
    unfold JobState.stringSet
    cases s.key with
    | none => exact ⟨Nat.le_refl _, fun j => idle_of_setPhase
        (hleft hphase nofun)⟩
    | some key => exact ⟨Nat.le_refl _, fun j => idle_of_setPhase
        (hleft hphase nofun)⟩
  | work i =>
    rcases h with ⟨since, hphase, _, rfl⟩
    exact ⟨Nat.le_refl _, fun j => idle_of_setPhase (hleft hphase nofun)⟩
  | keyDelete i =>
    rcases h with ⟨⟨since, hphase⟩, rfl⟩
    exact ⟨Nat.le_refl _, fun j => idle_of_setPhase (hleft hphase nofun)⟩
  | expire =>
    rcases h with ⟨_, _, _, rfl⟩
    exact ⟨Nat.le_refl _, fun _ hi => .inl hi⟩
  | advance ms =>
    rcases h with ⟨_, _, _, rfl⟩
    exact ⟨Nat.le_add_right _ _, fun _ hi => .inl hi⟩

/-- The key has not outlived its 20 seconds. -/
structure KeyClock (s : JobState π) : Prop where
  lasts : ∀ key, s.key = some key → s.now ≤ key.expiresAt
  expires : ∀ key, s.key = some key → key.expiresAt ≤ s.now + lockExpiry

theorem keyClock_step (h : KeyClock s) {event : JobEvent π}
    (hstep : (backgroundJob times).Step s event s') : KeyClock s' := by
  cases event with
  | timerTick i =>
    rcases hstep with ⟨_, _, rfl⟩
    exact ⟨h.lasts, h.expires⟩
  | stringSet i =>
    rcases hstep with ⟨_, rfl⟩
    unfold JobState.stringSet
    cases hkey : s.key with
    | none =>
      refine ⟨fun key hset => ?_, fun key hset => ?_⟩
      · cases hset
        exact Nat.le_add_right _ _
      · cases hset
        exact Nat.le_refl _
    | some key => exact ⟨h.lasts, h.expires⟩
  | work i =>
    rcases hstep with ⟨_, _, _, rfl⟩
    exact ⟨h.lasts, h.expires⟩
  | keyDelete i =>
    rcases hstep with ⟨_, rfl⟩
    exact ⟨nofun, nofun⟩
  | expire =>
    rcases hstep with ⟨_, _, _, rfl⟩
    exact ⟨nofun, nofun⟩
  | advance ms =>
    rcases hstep with ⟨_, _, hlast, rfl⟩
    refine ⟨hlast, fun key hkey => ?_⟩
    have := h.expires key hkey
    show key.expiresAt ≤ s.now + ms + lockExpiry
    omega

/-- The events that leave a process up. -/
def ProcessEvent.LeavesUp (p : π) : ProcessEvent π → Prop
  | .job _ => True
  | .stopAsync q => q ≠ p
  | .crash q => q ≠ p

/-- The key has not outlived its 20 seconds, and every invocation of the
process that has started has had its tick. -/
structure Clocked (times : JobTimes π) (p : π) (s : JobState π) : Prop
    extends KeyClock s where
  come : ∀ i, i.process = p → s.phase i ≠ .idle → times.tickAt i ≤ s.now

/-- The end of another process changes nothing for the invocations of `p`. -/
theorem step_of_leavesUp {p : π} {event : ProcessEvent π}
    (hup : event.LeavesUp p) (h : (crashingJob times).Step s event s') :
    (∃ e, event = .job e ∧ (backgroundJob times).Step s e s') ∨
      s'.now = s.now ∧ s'.key = s.key ∧
        ∀ i, i.process = p → s'.phase i = s.phase i := by
  cases event with
  | job e => exact .inl ⟨e, rfl, h⟩
  | stopAsync q =>
    rcases h with rfl
    refine .inr ⟨rfl, rfl, fun i hi => if_neg ?_⟩
    have hne : i.process ≠ q := by
      rw [hi]
      exact hup.symm
    simp [hne]
  | crash q =>
    rcases h with rfl
    refine .inr ⟨rfl, rfl, fun i hi => if_neg ?_⟩
    have hne : i.process ≠ q := by
      rw [hi]
      exact hup.symm
    simp [hne]

theorem clocked_step {p : π} (h : Clocked times p s) {event : ProcessEvent π}
    (hup : event.LeavesUp p) (hstep : (crashingJob times).Step s event s') :
    Clocked times p s' := by
  rcases step_of_leavesUp hup hstep with
    ⟨e, rfl, hjob⟩ | ⟨hnow, hkey, hphase⟩
  · refine ⟨keyClock_step h.toKeyClock hjob, fun i hi hne => ?_⟩
    obtain ⟨hle, hidle⟩ := idle_of_step hjob
    rcases hidle i hne with hmoved | hcome
    · exact Nat.le_trans (h.come i hi hmoved) hle
    · exact Nat.le_trans hcome hle
  · refine ⟨⟨fun key hk => ?_, fun key hk => ?_⟩, fun i hi hne => ?_⟩
    · rw [hnow]
      exact h.lasts key (hkey ▸ hk)
    · rw [hnow]
      exact h.expires key (hkey ▸ hk)
    · rw [hnow]
      rw [hphase i hi] at hne
      exact h.come i hi hne

theorem clocked_of_run {p : π} {events : List (ProcessEvent π)}
    (hrun : (crashingJob times).Run (.initial π) events s)
    (hup : ∀ event ∈ events, event.LeavesUp p) : Clocked times p s := by
  have hrun : ((crashingJob times).restrict
      fun _ event => event.LeavesUp p).Run (.initial π) events s :=
    hrun.restrict fun event h _ => hup event h
  apply hrun.invariant
  · intro s event s' h hstep
    exact clocked_step h hstep.2 hstep.1
  · exact ⟨⟨nofun, nofun⟩, fun i _ h => absurd rfl h⟩

/-! ## Availability -/

/-- The process stays up, and its invocations reach `StringSet` at most `late`
milliseconds after their tick. -/
def Serves (times : JobTimes π) (p : π) (late : Nat) (s : JobState π) :
    ProcessEvent π → Prop
  | .job (.advance ms) => ∀ i, i.process = p →
      s.phase i = .idle ∨ s.phase i = .started →
        s.now + ms ≤ times.tickAt i + late
  | event => event.LeavesUp p

omit [DecidableEq π] in
theorem Serves.leavesUp {p : π} {late : Nat} {event : ProcessEvent π}
    (h : Serves times p late s event) : event.LeavesUp p := by
  cases event with
  | job e => trivial
  | stopAsync q => exact h
  | crash q => exact h

/-- The step does not set the key. -/
def Quiet (s : JobState π) : ProcessEvent π → Prop
  | .job (.stringSet _) => s.key ≠ none
  | _ => True

/-- Some invocation sets the key in the run. -/
def Acquired (times : JobTimes π) (s : JobState π)
    (events : List (ProcessEvent π)) (s' : JobState π) : Prop :=
  ∃ before i after t u, events = before ++ .job (.stringSet i) :: after ∧
    (crashingJob times).Run s before t ∧ t.key = none ∧
    (crashingJob times).Step t (.job (.stringSet i)) u ∧
    (crashingJob times).Run u after s'

/-- An invocation waits for its `StringSet` while no new key is set. -/
structure AwaitsKey (times : JobTimes π) (i : Invocation π)
    (late deadline : Nat) (s : JobState π) : Prop where
  lasts : ∀ key, s.key = some key → s.now ≤ key.expiresAt
  old : ∀ key, s.key = some key → key.expiresAt ≤ deadline
  waits : s.phase i = .idle ∨ s.phase i = .started ∧ times.tickAt i ≤ s.now
  served : s.now ≤ times.tickAt i + late

omit [DecidableEq π] in
/-- The key and the clock stay, and so does the invocation. -/
theorem AwaitsKey.of_same {i : Invocation π} {late deadline : Nat}
    (h : AwaitsKey times i late deadline s) (hnow : s'.now = s.now)
    (hkey : s'.key = s.key) (hphase : s'.phase i = s.phase i) :
    AwaitsKey times i late deadline s' := by
  refine ⟨fun key hk => ?_, fun key hk => ?_, ?_, ?_⟩
  · rw [hnow]
    exact h.lasts key (hkey ▸ hk)
  · exact h.old key (hkey ▸ hk)
  · rw [hphase, hnow]
    exact h.waits
  · rw [hnow]
    exact h.served

omit [DecidableEq π] in
/-- The key goes, and the invocation and the clock stay. -/
theorem AwaitsKey.without_key {i : Invocation π} {late deadline : Nat}
    (h : AwaitsKey times i late deadline s) :
    AwaitsKey times i late deadline { s with key := none } :=
  ⟨nofun, nofun, h.waits, h.served⟩

/-- As long as nobody sets the key, an invocation whose tick comes after the
deadline of the key waits for its own `StringSet`. -/
theorem awaitsKey_step {i : Invocation π} {late deadline : Nat}
    (hafter : deadline < times.tickAt i)
    (h : AwaitsKey times i late deadline s) {event : ProcessEvent π}
    (hserves : Serves times i.process late s event) (hquiet : Quiet s event)
    (hstep : (crashingJob times).Step s event s') :
    AwaitsKey times i late deadline s' := by
  -- another invocation moves
  have hother : ∀ {j : Invocation π} {p : JobPhase}, j ≠ i →
      AwaitsKey times i late deadline (s.setPhase j p) := fun hne =>
    h.of_same rfl rfl (s.setPhase_of_ne _ hne.symm)
  have hwaits : ∀ {j : Invocation π} {phase : JobPhase}, s.phase j = phase →
      phase ≠ .idle → phase ≠ .started → j ≠ i := by
    rintro j phase hphase hidle hstarted rfl
    rcases h.waits with hi | ⟨hi, _⟩
    · exact hidle (hphase.symm.trans hi)
    · exact hstarted (hphase.symm.trans hi)
  rcases step_of_leavesUp hserves.leavesUp hstep with
    ⟨e, rfl, hjob⟩ | ⟨hnow, hkey, hphase⟩
  · cases e with
    | timerTick j =>
      rcases hjob with ⟨_, hcome, rfl⟩
      by_cases hij : j = i
      · subst hij
        exact ⟨h.lasts, h.old, .inr ⟨s.setPhase_self j _, hcome⟩, h.served⟩
      · exact hother hij
    | stringSet j =>
      rcases hjob with ⟨hstarted, rfl⟩
      obtain ⟨key, hkey⟩ := Option.ne_none_iff_exists'.mp hquiet
      have hne : j ≠ i := by
        rintro rfl
        rcases h.waits with hidle | ⟨_, hcome⟩
        · rw [hidle] at hstarted
          cases hstarted
        · -- the old key is gone before the tick comes
          have hlast := h.lasts key hkey
          have hold := h.old key hkey
          omega
      unfold JobState.stringSet
      rw [hkey]
      exact hother hne
    | work j =>
      rcases hjob with ⟨since, hworking, _, rfl⟩
      exact hother (hwaits hworking nofun nofun)
    | keyDelete j =>
      rcases hjob with ⟨⟨since, hreleasing⟩, rfl⟩
      exact (hother (hwaits hreleasing nofun nofun)).without_key
    | expire =>
      rcases hjob with ⟨_, _, _, rfl⟩
      exact h.without_key
    | advance ms =>
      rcases hjob with ⟨_, _, hlast, rfl⟩
      refine ⟨hlast, h.old, ?_, ?_⟩
      · rcases h.waits with hidle | ⟨hstarted, hcome⟩
        · exact .inl hidle
        · exact .inr ⟨hstarted, Nat.le_add_right_of_le hcome⟩
      · exact hserves i rfl (h.waits.imp_right And.left)
  · exact h.of_same hnow hkey (hphase i rfl)

/-- The first tick of a process after a time. -/
def JobTimes.tickAfter (times : JobTimes π) (p : π) (time : Nat) :
    Invocation π :=
  { process := p, tick := (time - times.startAsync p) / timerPeriod + 1 }

omit [DecidableEq π] in
theorem JobTimes.tickAfter_bounds {p : π} {time : Nat}
    (hstart : times.startAsync p ≤ time) :
    time < times.tickAt (times.tickAfter p time) ∧
      times.tickAt (times.tickAfter p time) ≤ time + timerPeriod := by
  have hlt : time - times.startAsync p <
      timerPeriod * ((time - times.startAsync p) / timerPeriod + 1) :=
    Nat.lt_mul_div_succ _ (by decide)
  have hle : timerPeriod * ((time - times.startAsync p) / timerPeriod)
      ≤ time - times.startAsync p := Nat.mul_div_le _ _
  show time < times.startAsync p + timerPeriod * (_ / timerPeriod + 1) ∧
    times.startAsync p + timerPeriod * (_ / timerPeriod + 1)
      ≤ time + timerPeriod
  rw [Nat.mul_add, Nat.mul_one] at hlt ⊢
  omega

/-- Whatever the other processes do, and whichever of them stop or crash, some
invocation sets the key in every stretch of 31 seconds, and the lateness of
its ticks, through which one process serves. -/
theorem acquired_of_run {p : π} {late : Nat}
    {events events' : List (ProcessEvent π)}
    (hrun : (crashingJob times).Run (.initial π) events s)
    (hup : ∀ event ∈ events, event.LeavesUp p)
    (hserves : ((crashingJob times).restrict (Serves times p late)).Run s
      events' s')
    (hstart : times.startAsync p ≤ s.now + lockExpiry)
    (hlong : s.now + lockExpiry + timerPeriod + late < s'.now) :
    Acquired times s events' s' := by
  have hclock := clocked_of_run hrun hup
  obtain ⟨hafter, hsoon⟩ := JobTimes.tickAfter_bounds hstart
  rcases hserves.restrict_or_breach Quiet with hquiet |
    ⟨before, event, after, t, u, hevents, hbefore, hset, hbreach, hrest⟩
  · exfalso
    have hawaits : AwaitsKey times (times.tickAfter p (s.now + lockExpiry)) late
        (s.now + lockExpiry) s' := by
      apply hquiet.invariant
      · intro s event s' h hstep
        exact awaitsKey_step hafter h hstep.1.2 hstep.2 hstep.1.1
      · have hidle :
            s.phase (times.tickAfter p (s.now + lockExpiry)) = .idle := by
          by_contra hne
          have := hclock.come _ rfl hne
          omega
        exact ⟨hclock.lasts, hclock.expires, .inl hidle, by omega⟩
    have := hawaits.served
    omega
  · cases event with
    | job e =>
      cases e with
      | stringSet i =>
        exact ⟨before, i, after, t, u, hevents, hbefore.of_restrict,
          not_not.mp hbreach, hset.1, hrest.of_restrict⟩
      | _ => exact absurd trivial hbreach
    | _ => exact absurd trivial hbreach

end Crashes

/-! ### One of two processes crashes -/

/-- Two processes whose invocations work for 15 seconds.  The second one
starts its timer 20 seconds after the first. -/
def twoProcesses : JobTimes Bool where
  startAsync second := if second then 20000 else 0
  duration _ := 15000

def crashedInvocation : Invocation Bool := { process := false, tick := 0 }

def survivingInvocation (tick : Nat) : Invocation Bool :=
  { process := true, tick := tick }

/-- The first process has crashed, and the first two invocations of the second
one are in some phase. -/
def oneSurvives (now : Nat) (key : Option (LockKey Bool)) (p q : JobPhase) :
    JobState Bool where
  now := now
  key := key
  phase i :=
    if i.process then
      if i.tick = 0 then p else if i.tick = 1 then q else .idle
    else .done

theorem oneSurvives_setPhase_zero (now : Nat) (key : Option (LockKey Bool))
    (p q p' : JobPhase) :
    (oneSurvives now key p q).setPhase (survivingInvocation 0) p' =
      oneSurvives now key p' q := by
  unfold JobState.setPhase oneSurvives
  congr 1
  funext i
  rcases i with ⟨_ | _, tick⟩
  · exact Function.update_of_ne (by simp [survivingInvocation]) ..
  · by_cases h : tick = 0
    · subst h
      exact Function.update_self ..
    · rw [Function.update_of_ne (by simp [survivingInvocation, h])]
      simp [h]

theorem oneSurvives_setPhase_one (now : Nat) (key : Option (LockKey Bool))
    (p q q' : JobPhase) :
    (oneSurvives now key p q).setPhase (survivingInvocation 1) q' =
      oneSurvives now key p q' := by
  unfold JobState.setPhase oneSurvives
  congr 1
  funext i
  rcases i with ⟨_ | _, tick⟩
  · exact Function.update_of_ne (by simp [survivingInvocation]) ..
  · by_cases h : tick = 1
    · subst h
      exact Function.update_self ..
    · rw [Function.update_of_ne (by simp [survivingInvocation, h])]
      simp [h]

/-- The first process crashes while it has the lock. -/
theorem run_crashed :
    (crashingJob twoProcesses).Run (.initial Bool)
      [.job (.timerTick crashedInvocation),
        .job (.stringSet crashedInvocation), .crash false]
      (oneSurvives 0 (some ⟨crashedInvocation, 20000⟩) .idle .idle) := by
  refine .cons (t := (JobState.initial Bool).setPhase crashedInvocation
    .started) ⟨rfl, by decide, rfl⟩ ?_
  refine .cons (t := ((JobState.initial Bool).setPhase crashedInvocation
    .started).stringSet crashedInvocation)
      ⟨JobState.setPhase_self .., rfl⟩ (.single ?_)
  show oneSurvives .. = JobState.crash _ false
  unfold oneSurvives JobState.crash JobState.halt
  congr 1
  funext i
  rcases i with ⟨_ | _, tick⟩
  · rfl
  · simp [crashedInvocation, JobState.stringSet, JobState.setPhase,
      JobState.initial]

theorem oneSurvives_phase (now : Nat) (key : Option (LockKey Bool))
    (p q : JobPhase) (i : Invocation Bool) :
    (oneSurvives now key p q).phase i = .done ∨
      twoProcesses.tickAt i = 20000 ∧ (oneSurvives now key p q).phase i = p ∨
      twoProcesses.tickAt i = 31000 ∧ (oneSurvives now key p q).phase i = q ∨
      42000 ≤ twoProcesses.tickAt i ∧
        (oneSurvives now key p q).phase i = .idle := by
  rcases i with ⟨_ | _, _ | _ | tick⟩
  · exact .inl rfl
  · exact .inl rfl
  · exact .inl rfl
  · exact .inr (.inl ⟨rfl, rfl⟩)
  · exact .inr (.inr (.inl ⟨rfl, rfl⟩))
  · refine .inr (.inr (.inr ⟨?_, rfl⟩))
    show 42000 ≤ 20000 + 11000 * (tick + 2)
    omega

/-- Time passes while the second process serves its ticks at once. -/
theorem oneSurvives_advance {now ms : Nat} {key : Option (LockKey Bool)}
    {p q : JobPhase}
    (hp : p = .idle ∧ now + ms ≤ 20000 ∨
      p = .working 20000 ∧ now + ms ≤ 35000)
    (hq : q = .idle ∧ now + ms ≤ 31000 ∨ q = .done ∧ now + ms ≤ 42000)
    (hkey : ∀ k, key = some k → now + ms ≤ k.expiresAt) :
    ((crashingJob twoProcesses).restrict (Serves twoProcesses true 0)).Step
      (oneSurvives now key p q) (.job (.advance ms))
      (oneSurvives (now + ms) key p q) := by
  refine ⟨⟨fun i since h => ?_, fun i since h => ?_, hkey, rfl⟩,
    fun i _ h => ?_⟩
  · show now + ms ≤ since + 15000
    rcases oneSurvives_phase now key p q i with
      hi | ⟨_, hi⟩ | ⟨_, hi⟩ | ⟨_, hi⟩ <;> rw [hi] at h <;> grind
  · rcases oneSurvives_phase now key p q i with
      hi | ⟨_, hi⟩ | ⟨_, hi⟩ | ⟨_, hi⟩ <;> rw [hi] at h <;> grind
  · show now + ms ≤ twoProcesses.tickAt i + 0
    rcases oneSurvives_phase now key p q i with
      hi | ⟨_, hi⟩ | ⟨_, hi⟩ | ⟨_, hi⟩ <;> rw [hi] at h <;> grind

/-- The second process waits for the key to expire, sets it, and works through
its second tick. -/
theorem run_survives :
    ((crashingJob twoProcesses).restrict (Serves twoProcesses true 0)).Run
      (oneSurvives 0 (some ⟨crashedInvocation, 20000⟩) .idle .idle)
      [.job (.advance 20000), .job .expire,
        .job (.timerTick (survivingInvocation 0)),
        .job (.stringSet (survivingInvocation 0)), .job (.advance 11000),
        .job (.timerTick (survivingInvocation 1)),
        .job (.stringSet (survivingInvocation 1)), .job (.advance 1)]
      (oneSurvives 31001 (some ⟨survivingInvocation 0, 40000⟩)
        (.working 20000) .done) := by
  refine .cons (oneSurvives_advance (.inl ⟨rfl, by omega⟩)
    (.inl ⟨rfl, by omega⟩) (by rintro k ⟨⟩; decide)) ?_
  refine .cons (t := oneSurvives 20000 none .idle .idle)
    ⟨⟨_, rfl, Nat.le_refl _, rfl⟩, trivial⟩ ?_
  refine .cons (t := oneSurvives 20000 none .started .idle)
    ⟨⟨rfl, Nat.le_refl _, ?_⟩, trivial⟩ ?_
  · exact (oneSurvives_setPhase_zero ..).symm
  refine .cons (t := oneSurvives 20000
    (some ⟨survivingInvocation 0, 40000⟩) (.working 20000) .idle)
    ⟨⟨rfl, ?_⟩, trivial⟩ ?_
  · rw [← oneSurvives_setPhase_zero _ _ .started]
    rfl
  refine .cons (oneSurvives_advance (.inr ⟨rfl, by omega⟩)
    (.inl ⟨rfl, by omega⟩) (by rintro k ⟨⟩; decide)) ?_
  refine .cons (t := oneSurvives 31000
    (some ⟨survivingInvocation 0, 40000⟩) (.working 20000) .started)
    ⟨⟨rfl, Nat.le_refl _, ?_⟩, trivial⟩ ?_
  · exact (oneSurvives_setPhase_one ..).symm
  refine .cons (t := oneSurvives 31000
    (some ⟨survivingInvocation 0, 40000⟩) (.working 20000) .done)
    ⟨⟨rfl, ?_⟩, trivial⟩ ?_
  · exact (oneSurvives_setPhase_one ..).symm
  exact .single (oneSurvives_advance (.inr ⟨rfl, by omega⟩)
    (.inr ⟨rfl, by omega⟩) (by rintro k ⟨⟩; decide))

/-- The first process crashes while it has the lock, and the second one gets
it. -/
theorem acquired_of_run_survives :
    ∃ events s', Acquired twoProcesses
      (oneSurvives 0 (some ⟨crashedInvocation, 20000⟩) .idle .idle) events
      s' :=
  ⟨_, _, acquired_of_run run_crashed (by simp [ProcessEvent.LeavesUp])
    run_survives (by decide) (by decide)⟩

end TvMazeScraper
