import TvMazeScraper.BackgroundJob

/-!
# Which ticks run a cycle

One process whose invocations reach `StringSet` at the time of their tick.  An
invocation that finds the key set is done without a cycle, so a cycle that is
longer than the period costs the tick after it.

* `getsLock`: the recursion over the ticks.
* `punctual_step`: what every step of such a process keeps.
* `runs_iff_getsLock`: in every run, the invocations that get the lock are
  those of the recursion.
* `getsLock_all_iff`: every tick runs a cycle exactly when none is longer than
  the period.
-/

namespace TvMazeScraper

open Machine

/-- The invocation of a tick in the only process. -/
def invocation (tick : Nat) : Invocation Unit := { process := (), tick := tick }

/-- The invocation of a tick gets the lock unless the one before it got it and
works for longer than the period. -/
def getsLock (times : JobTimes Unit) : Nat → Bool
  | 0 => true
  | tick + 1 =>
    !(getsLock times tick ∧ timerPeriod < times.duration (invocation tick))

/-- Time does not pass the tick of an invocation that has not reached its
`StringSet`. -/
def OnTime (times : JobTimes Unit) (s : JobState Unit) : JobEvent Unit → Prop
  | .advance ms => ∀ i, s.phase i = .idle ∨ s.phase i = .started →
      s.now + ms ≤ times.tickAt i
  | _ => True

/-- What the phase of an invocation says about the time. -/
def JobPhase.Punctual (times : JobTimes Unit) (i : Invocation Unit)
    (now : Nat) : JobPhase → Prop
  | .idle => now ≤ times.tickAt i
  | .started => now = times.tickAt i
  | .working since => getsLock times i.tick ∧ since = times.tickAt i
  | .releasing since => getsLock times i.tick ∧ since = times.tickAt i ∧
      now = since + times.duration i
  | .done => getsLock times i.tick → times.tickAt i + times.duration i ≤ now

/-- The invocations are on time, and the one that set the key still has it. -/
structure Punctual (times : JobTimes Unit) (s : JobState Unit) : Prop where
  held : JobInvariant times s
  phases : ∀ i, (s.phase i).Punctual times i s.now
  holder : ∀ key, s.key = some key → (s.phase key.setBy).heldSince.isSome

section Ticks

variable {times : JobTimes Unit} {s s' : JobState Unit}

/-- The time between two ticks. -/
theorem tickAt_add (i : Invocation Unit) (n : Nat) :
    times.tickAt (invocation (i.tick + n))
      = times.tickAt i + timerPeriod * n := by
  show times.startAsync () + timerPeriod * (i.tick + n)
    = times.startAsync () + timerPeriod * i.tick + timerPeriod * n
  rw [Nat.mul_add]
  omega

/-- An invocation that has the lock got it at its tick. -/
theorem Punctual.of_held (h : Punctual times s) {i : Invocation Unit}
    {since : Nat} (hheld : (s.phase i).heldSince = some since) :
    getsLock times i.tick ∧ times.tickAt i ≤ s.now ∧
      s.now ≤ times.tickAt i + times.duration i := by
  have hphase := h.phases i
  obtain ⟨hle, hlate, _⟩ := h.held i since hheld
  cases hp : s.phase i with
  | working since' =>
    rw [hp] at hphase hheld
    cases hheld
    rw [← hphase.2]
    exact ⟨hphase.1, hle, hlate⟩
  | releasing since' =>
    rw [hp] at hphase hheld
    cases hheld
    rw [← hphase.2.1]
    exact ⟨hphase.1, hle, hlate⟩
  | _ =>
    rw [hp] at hheld
    cases hheld

/-- When an invocation finds the key set at its tick, the one before it got
the lock and works for at least the period. -/
theorem Punctual.holder_before (hshort : ∀ i, times.duration i < lockExpiry)
    (h : Punctual times s) {i : Invocation Unit}
    (hstarted : s.phase i = .started) {key : LockKey Unit}
    (hkey : s.key = some key) :
    i.tick = key.setBy.tick + 1 ∧ getsLock times key.setBy.tick ∧
      timerPeriod ≤ times.duration key.setBy := by
  obtain ⟨since, hheld⟩ := Option.isSome_iff_exists.mp (h.holder key hkey)
  obtain ⟨hgets, hcome, hworks⟩ := h.of_held hheld
  have hnow := h.phases i
  rw [hstarted] at hnow
  replace hnow : s.now = times.startAsync () + 11000 * i.tick := hnow
  replace hcome : times.startAsync () + 11000 * key.setBy.tick ≤ s.now :=
    hcome
  replace hworks : s.now ≤ times.startAsync () + 11000 * key.setBy.tick
    + times.duration key.setBy := hworks
  have hlimit : times.duration key.setBy < 20000 := hshort key.setBy
  have hother : i.tick ≠ key.setBy.tick := by
    intro hsame
    have hi : i = key.setBy := congrArg invocation hsame
    rw [← hi, hstarted] at hheld
    cases hheld
  show i.tick = key.setBy.tick + 1 ∧ _ ∧ 11000 ≤ times.duration key.setBy
  refine ⟨by omega, hgets, by omega⟩

/-- The key is free at the tick of an invocation exactly when the recursion
says so. -/
theorem Punctual.key_none_iff (hshort : ∀ i, times.duration i < lockExpiry)
    (hperiod : ∀ i, times.duration i ≠ timerPeriod) (h : Punctual times s)
    {i : Invocation Unit} (hstarted : s.phase i = .started) :
    s.key = none ↔ getsLock times i.tick := by
  constructor
  · intro hkey
    have hnow := h.phases i
    rw [hstarted] at hnow
    rcases i with ⟨⟨⟩, _ | tick⟩
    · rfl
    · by_contra hnot
      obtain ⟨hgets, hlong⟩ : getsLock times tick ∧
          timerPeriod < times.duration (invocation tick) := by
        simpa [getsLock] using hnot
      have hnext : s.now = times.tickAt (invocation tick) + 11000 :=
        hnow.trans (tickAt_add (invocation tick) 1)
      replace hlong : 11000 < times.duration (invocation tick) := hlong
      have hfree := h.held.heldSince_of_no_key hkey (invocation tick)
      have hbefore := h.phases (invocation tick)
      -- it has had its tick, and it has not come to its end
      cases hp : s.phase (invocation tick) with
      | idle =>
        rw [hp] at hbefore
        replace hbefore : s.now ≤ times.tickAt (invocation tick) := hbefore
        omega
      | started =>
        rw [hp] at hbefore
        replace hbefore : s.now = times.tickAt (invocation tick) := hbefore
        omega
      | working since =>
        rw [hp] at hfree
        cases hfree
      | releasing since =>
        rw [hp] at hfree
        cases hfree
      | done =>
        rw [hp] at hbefore
        have hended : times.tickAt (invocation tick)
          + times.duration (invocation tick) ≤ s.now := hbefore hgets
        omega
  · intro hgets
    by_contra hset
    obtain ⟨key, hkey⟩ := Option.ne_none_iff_exists'.mp hset
    obtain ⟨htick, hholder, hlong⟩ := h.holder_before hshort hstarted hkey
    have hlong : timerPeriod < times.duration (invocation key.setBy.tick) :=
      Nat.lt_of_le_of_ne hlong (hperiod key.setBy).symm
    rw [htick] at hgets
    simp [getsLock, hholder, hlong] at hgets

/-- One invocation moves to a phase that is on time. -/
theorem phases_setPhase (h : ∀ i, (s.phase i).Punctual times i s.now)
    {i : Invocation Unit} {p : JobPhase} (hp : p.Punctual times i s.now)
    (j : Invocation Unit) :
    ((s.setPhase i p).phase j).Punctual times j s.now := by
  by_cases hj : j = i
  · rw [hj, s.setPhase_self]
    exact hp
  · rw [s.setPhase_of_ne p hj]
    exact h j

/-- The invocation that set the key is not the one that moves, or it keeps the
lock. -/
theorem holder_setPhase (h : Punctual times s) {i : Invocation Unit}
    {p : JobPhase}
    (hp : (s.phase i).heldSince.isSome → p.heldSince.isSome) :
    ∀ key, s.key = some key →
      ((s.setPhase i p).phase key.setBy).heldSince.isSome := by
  intro key hkey
  have hheld := h.holder key hkey
  by_cases hi : key.setBy = i
  · rw [hi] at hheld ⊢
    rw [s.setPhase_self]
    exact hp hheld
  · rw [s.setPhase_of_ne p hi]
    exact hheld

theorem Punctual.stringSet (hshort : ∀ i, times.duration i < lockExpiry)
    (hperiod : ∀ i, times.duration i ≠ timerPeriod) (h : Punctual times s)
    {i : Invocation Unit} (hstarted : s.phase i = .started) :
    Punctual times (s.stringSet i) := by
  have hnow := h.phases i
  rw [hstarted] at hnow
  have hiff := h.key_none_iff hshort hperiod hstarted
  have hheld := h.held.stringSet i
  unfold JobState.stringSet at hheld ⊢
  cases hkey : s.key with
  | none =>
    rw [hkey] at hheld
    refine ⟨hheld, phases_setPhase h.phases ⟨hiff.mp hkey, hnow⟩,
      fun key hset => ?_⟩
    cases hset
    show ((s.setPhase i (.working s.now)).phase i).heldSince.isSome
    rw [s.setPhase_self]
    rfl
  | some key =>
    rw [hkey] at hheld
    refine ⟨hheld, phases_setPhase h.phases fun hgets => ?_,
      holder_setPhase h fun hi => ?_⟩
    · rw [hiff.mpr hgets] at hkey
      cases hkey
    · rw [hstarted] at hi
      cases hi

/-- Every step of a process that is on time. -/
theorem punctual_step (hshort : ∀ i, times.duration i < lockExpiry)
    (hperiod : ∀ i, times.duration i ≠ timerPeriod) (h : Punctual times s)
    {event : JobEvent Unit} (honTime : OnTime times s event)
    (hstep : (backgroundJob times).Step s event s') : Punctual times s' := by
  have hheld := jobInvariant_step hshort h.held hstep
  cases event with
  | timerTick i =>
    rcases hstep with ⟨hidle, hcome, rfl⟩
    have hnow := h.phases i
    rw [hidle] at hnow
    refine ⟨hheld, phases_setPhase h.phases (Nat.le_antisymm hnow hcome),
      holder_setPhase h fun hi => ?_⟩
    rw [hidle] at hi
    cases hi
  | stringSet i =>
    rcases hstep with ⟨hstarted, rfl⟩
    exact h.stringSet hshort hperiod hstarted
  | work i =>
    rcases hstep with ⟨since, hworking, hend, rfl⟩
    have hphase := h.phases i
    rw [hworking] at hphase
    exact ⟨hheld, phases_setPhase h.phases ⟨hphase.1, hphase.2, hend⟩,
      holder_setPhase h fun _ => rfl⟩
  | keyDelete i =>
    rcases hstep with ⟨⟨since, hreleasing⟩, rfl⟩
    have hphase := h.phases i
    rw [hreleasing] at hphase
    refine ⟨hheld, phases_setPhase h.phases fun _ => ?_, nofun⟩
    rw [← hphase.2.1]
    exact Nat.le_of_eq hphase.2.2.symm
  | expire =>
    rcases hstep with ⟨key, hkey, hexpired, rfl⟩
    obtain ⟨since, hsince⟩ := Option.isSome_iff_exists.mp (h.holder key hkey)
    obtain ⟨_, hlate, hset⟩ := h.held key.setBy since hsince
    have hlimit := hshort key.setBy
    have hexpires : key.expiresAt = since + lockExpiry := by
      rw [hkey] at hset
      exact congrArg LockKey.expiresAt (Option.some.inj hset)
    omega
  | advance ms =>
    rcases hstep with ⟨hwork, hrelease, _, rfl⟩
    refine ⟨hheld, fun i => ?_, h.holder⟩
    have hphase := h.phases i
    show (s.phase i).Punctual times i (s.now + ms)
    cases hp : s.phase i with
    | idle => exact honTime i (.inl hp)
    | started =>
      rw [hp] at hphase
      exact Nat.le_antisymm (honTime i (.inr hp))
        (Nat.le_add_right_of_le (Nat.le_of_eq hphase.symm))
    | working since =>
      rw [hp] at hphase
      exact hphase
    | releasing since => exact absurd hp (hrelease i since)
    | done =>
      rw [hp] at hphase
      exact fun hgets => Nat.le_add_right_of_le (hphase hgets)

theorem punctual_of_run (hshort : ∀ i, times.duration i < lockExpiry)
    (hperiod : ∀ i, times.duration i ≠ timerPeriod)
    {events : List (JobEvent Unit)}
    (hrun : ((backgroundJob times).restrict (OnTime times)).Run
      (.initial Unit) events s) : Punctual times s := by
  apply hrun.invariant
  · intro s event s' h hstep
    exact punctual_step hshort hperiod h hstep.2 hstep.1
  · exact ⟨nofun, fun i => Nat.zero_le _, nofun⟩

/-- When no invocation works for 20 seconds, or for the period to the
millisecond, the invocations that get the lock in any run of a process that is
on time are those of the recursion. -/
theorem runs_iff_getsLock (hshort : ∀ i, times.duration i < lockExpiry)
    (hperiod : ∀ i, times.duration i ≠ timerPeriod)
    {events : List (JobEvent Unit)}
    (hrun : ((backgroundJob times).restrict (OnTime times)).Run
      (.initial Unit) events s) {i : Invocation Unit}
    (hstep : (backgroundJob times).Step s (.stringSet i) s') :
    s'.phase i = .working (times.tickAt i) ∧ getsLock times i.tick ∨
      s'.phase i = .done ∧ getsLock times i.tick = false := by
  have h := punctual_of_run hshort hperiod hrun
  rcases hstep with ⟨hstarted, rfl⟩
  have hnow := h.phases i
  rw [hstarted] at hnow
  replace hnow : s.now = times.tickAt i := hnow
  have hiff := h.key_none_iff hshort hperiod hstarted
  cases hkey : s.key with
  | none =>
    refine .inl ⟨?_, hiff.mp hkey⟩
    rw [JobState.stringSet_self hkey, hnow]
  | some key =>
    refine .inr ⟨?_, ?_⟩
    · unfold JobState.stringSet
      rw [hkey]
      exact s.setPhase_self i _
    · rw [hkey] at hiff
      simpa using hiff

/-- Every tick runs a cycle exactly when none is longer than the period. -/
theorem getsLock_all_iff :
    (∀ tick, getsLock times tick) ↔
      ∀ i, times.duration i ≤ timerPeriod := by
  constructor
  · rintro hall ⟨⟨⟩, tick⟩
    have hnext := hall (tick + 1)
    simp only [getsLock, hall tick] at hnext
    simpa [invocation] using hnext
  · intro hshort tick
    cases tick with
    | zero => rfl
    | succ tick =>
      have := Nat.not_lt.mpr (hshort (invocation tick))
      simp [getsLock, this]

end Ticks

/-! ### Cycles of 15 seconds -/

def fifteenSeconds : JobTimes Unit where
  startAsync _ := 0
  duration _ := 15000

/-- The invocation of the first tick has the lock. -/
def firstRuns : JobState Unit :=
  ((JobState.initial Unit).setPhase (invocation 0) .started).stringSet
    (invocation 0)

theorem firstRuns_phase (i : Invocation Unit) :
    firstRuns.phase i = .working 0 ∨
      11000 ≤ fifteenSeconds.tickAt i ∧ firstRuns.phase i = .idle := by
  rcases i with ⟨⟨⟩, _ | tick⟩
  · exact .inl (JobState.stringSet_self rfl (invocation 0))
  · have hne : (invocation (tick + 1)) ≠ invocation 0 := by simp [invocation]
    refine .inr ⟨?_, ?_⟩
    · show 11000 ≤ 0 + 11000 * (tick + 1)
      omega
    · exact (JobState.stringSet_of_ne _ hne).trans
        (JobState.setPhase_of_ne _ _ hne)

/-- The first cycle is under way when the second tick comes. -/
theorem run_secondTick :
    ((backgroundJob fifteenSeconds).restrict (OnTime fifteenSeconds)).Run
      (.initial Unit)
      [.timerTick (invocation 0), .stringSet (invocation 0), .advance 11000,
        .timerTick (invocation 1)]
      (({ firstRuns with now := 11000 }).setPhase (invocation 1)
        .started) := by
  have hadvance : (backgroundJob fifteenSeconds).Step firstRuns
      (.advance 11000) { firstRuns with now := 11000 } := by
    refine ⟨fun i since h => ?_, fun i since h => ?_, fun key h => ?_, rfl⟩
    · rcases firstRuns_phase i with hi | ⟨_, hi⟩
      · rw [hi] at h
        cases h
        show 0 + 11000 ≤ 0 + 15000
        omega
      · rw [hi] at h
        cases h
    · rcases firstRuns_phase i with hi | ⟨_, hi⟩
      · rw [hi] at h
        cases h
      · rw [hi] at h
        cases h
    · cases h
      decide
  have honTime : OnTime fifteenSeconds firstRuns (.advance 11000) := by
    intro i h
    rcases firstRuns_phase i with hi | ⟨hcome, _⟩
    · rw [hi] at h
      rcases h with h | h
      · cases h
      · cases h
    · exact hcome
  have hsecond : (backgroundJob fifteenSeconds).Step
      { firstRuns with now := 11000 } (.timerTick (invocation 1))
      (({ firstRuns with now := 11000 }).setPhase (invocation 1)
        .started) := by
    refine ⟨?_, by decide, rfl⟩
    rcases firstRuns_phase (invocation 1) with hfirst | ⟨_, hidle⟩
    · cases hfirst
    · exact hidle
  exact .cons ⟨⟨rfl, by decide, rfl⟩, trivial⟩ <|
    .cons ⟨⟨JobState.setPhase_self .., rfl⟩, trivial⟩ <|
    .cons ⟨hadvance, honTime⟩ <| .single ⟨hsecond, trivial⟩

/-- The second tick runs no cycle. -/
theorem runs_iff_getsLock_second :
    ((({ firstRuns with now := 11000 }).setPhase (invocation 1)
      .started).stringSet (invocation 1)).phase (invocation 1) = .done := by
  have hshort : 15000 < lockExpiry := by decide
  have hperiod : 15000 ≠ timerPeriod := by decide
  have hresult := runs_iff_getsLock (fun _ => hshort) (fun _ => hperiod)
    run_secondTick ⟨JobState.setPhase_self .., rfl⟩
  exact (hresult.resolve_left fun h => by cases h.2).1

end TvMazeScraper
