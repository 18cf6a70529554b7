import Mathlib.Logic.Function.Basic
import TvMazeScraper.Lib.Machine

/-!
# The lock of the background job

Every process starts a `DoWork` on each tick of its timer, and the
invocations share one key in Redis.  `StringSet` sets the key when it does not
exist and lets it expire after 20 seconds; `KeyDelete` removes it, whoever set
it.  Time is in milliseconds.  The duration of the work of each invocation,
from its `StringSet` to its `KeyDelete`, is a parameter, and the steps of
different invocations interleave in any order.

* `JobInvariant`: as long as nobody works for 20 seconds, the invocation that
  works is the one that set the key.
* `overrun`: an invocation that works for 20 seconds loses the key to the next
  one and goes on working.
* `lock_exclusive_iff`: the lock excludes exactly when no work takes 20
  seconds.
-/

namespace TvMazeScraper

open Machine

/-- The period of the timer. -/
def timerPeriod : Nat := 11000

/-- The expiry of the key. -/
def lockExpiry : Nat := 20000

/-- The invocation of `DoWork` on a tick of the timer of a process. -/
structure Invocation (π : Type) where
  process : π
  tick : Nat
  deriving DecidableEq

/-- When the timer of each process starts, and how long each invocation works
once it has the lock. -/
structure JobTimes (π : Type) where
  startAsync : π → Nat
  duration : Invocation π → Nat

/-- The time of the tick of an invocation.  The first tick is at the start of
the timer. -/
def JobTimes.tickAt {π : Type} (times : JobTimes π) (i : Invocation π) : Nat :=
  times.startAsync i.process + timerPeriod * i.tick

/-- Where an invocation is. -/
inductive JobPhase where
  | idle
  | started
  | working (since : Nat)
  | releasing (since : Nat)
  | done
  deriving DecidableEq, Repr

/-- The key `my-lock-key`.  Its value is the same for all invocations; who set
it is bookkeeping of the model. -/
structure LockKey (π : Type) where
  setBy : Invocation π
  expiresAt : Nat
  deriving DecidableEq

structure JobState (π : Type) where
  now : Nat
  key : Option (LockKey π)
  phase : Invocation π → JobPhase

/-- The steps that interleave. -/
inductive JobEvent (π : Type) where
  | timerTick (i : Invocation π)
  | stringSet (i : Invocation π)
  | work (i : Invocation π)
  | keyDelete (i : Invocation π)
  | expire
  | advance (ms : Nat)

section Job

variable {π : Type} [DecidableEq π]

/-- Move one invocation to another phase. -/
def JobState.setPhase (s : JobState π) (i : Invocation π) (p : JobPhase) :
    JobState π :=
  { s with phase := Function.update s.phase i p }

@[simp] theorem JobState.setPhase_self (s : JobState π) (i : Invocation π)
    (p : JobPhase) : (s.setPhase i p).phase i = p := by
  show Function.update s.phase i p i = p
  rw [Function.update_self]

theorem JobState.setPhase_of_ne (s : JobState π) {i j : Invocation π}
    (p : JobPhase) (h : j ≠ i) : (s.setPhase i p).phase j = s.phase j := by
  show Function.update s.phase i p j = s.phase j
  rw [Function.update_of_ne h]

/-- `StringSet` with `When.NotExists`.  Without the key the invocation is
done. -/
def JobState.stringSet (s : JobState π) (i : Invocation π) : JobState π :=
  match s.key with
  | none =>
    { s.setPhase i (.working s.now) with
      key := some { setBy := i, expiresAt := s.now + lockExpiry } }
  | some _ => s.setPhase i .done

theorem JobState.stringSet_self {s : JobState π} (h : s.key = none)
    (i : Invocation π) : (s.stringSet i).phase i = .working s.now := by
  unfold JobState.stringSet
  rw [h]
  exact s.setPhase_self i _

theorem JobState.stringSet_of_ne (s : JobState π) {i j : Invocation π}
    (h : j ≠ i) : (s.stringSet i).phase j = s.phase j := by
  unfold JobState.stringSet
  cases s.key with
  | none => exact s.setPhase_of_ne _ h
  | some key => exact s.setPhase_of_ne _ h

/-- `KeyDelete`, whatever the value of the key is. -/
def JobState.keyDelete (s : JobState π) (i : Invocation π) : JobState π :=
  { s.setPhase i .done with key := none }

/-- The background job.  A tick may be served late, but the work takes its
time, `KeyDelete` follows it, and the key vanishes when its expiry has
elapsed. -/
def backgroundJob (times : JobTimes π) : Machine (JobState π) (JobEvent π) where
  Step s event s' :=
    match event with
    | .timerTick i => s.phase i = .idle ∧ times.tickAt i ≤ s.now ∧
        s' = s.setPhase i .started
    | .stringSet i => s.phase i = .started ∧ s' = s.stringSet i
    | .work i => ∃ since, s.phase i = .working since ∧
        s.now = since + times.duration i ∧ s' = s.setPhase i (.releasing since)
    | .keyDelete i => (∃ since, s.phase i = .releasing since) ∧
        s' = s.keyDelete i
    | .expire => ∃ key, s.key = some key ∧ key.expiresAt ≤ s.now ∧
        s' = { s with key := none }
    | .advance ms =>
        (∀ i since, s.phase i = .working since →
          s.now + ms ≤ since + times.duration i) ∧
        (∀ i since, s.phase i ≠ .releasing since) ∧
        (∀ key, s.key = some key → s.now + ms ≤ key.expiresAt) ∧
        s' = { s with now := s.now + ms }

/-- Nothing has started and the key is not set. -/
def JobState.initial (π : Type) : JobState π where
  now := 0
  key := none
  phase _ := .idle

/-- The time of the successful `StringSet` of an invocation that is between
it and its `KeyDelete`. -/
def JobPhase.heldSince : JobPhase → Option Nat
  | .working since => some since
  | .releasing since => some since
  | _ => none

/-- At most one invocation is between its `StringSet` and its `KeyDelete`. -/
def JobState.Exclusive (s : JobState π) : Prop :=
  ∀ i j, (s.phase i).heldSince.isSome → (s.phase j).heldSince.isSome → i = j

/-- Every `KeyDelete` that can come next removes the key of its own
invocation, if it removes one. -/
def DeletesOwnKey (times : JobTimes π) (s : JobState π) : Prop :=
  ∀ i s', (backgroundJob times).Step s (.keyDelete i) s' →
    ∀ key, s.key = some key → key.setBy = i

/-! ## Work of less than 20 seconds -/

/-- The invocation that holds the lock set the key, and it is not late. -/
def JobInvariant (times : JobTimes π) (s : JobState π) : Prop :=
  ∀ i since, (s.phase i).heldSince = some since →
    since ≤ s.now ∧ s.now ≤ since + times.duration i ∧
      s.key = some { setBy := i, expiresAt := since + lockExpiry }

variable {times : JobTimes π} {s s' : JobState π}

omit [DecidableEq π] in
theorem JobInvariant.exclusive (h : JobInvariant times s) : s.Exclusive := by
  intro i j hi hj
  obtain ⟨since, hsince⟩ := Option.isSome_iff_exists.mp hi
  obtain ⟨since', hsince'⟩ := Option.isSome_iff_exists.mp hj
  have hkey := (h i since hsince).2.2
  rw [(h j since' hsince').2.2] at hkey
  cases hkey
  rfl

theorem JobInvariant.deletesOwnKey (h : JobInvariant times s) :
    DeletesOwnKey times s := by
  intro i s' hstep key hkey
  rcases hstep with ⟨⟨since, hphase⟩, _⟩
  have hown := (h i since (by rw [hphase]; rfl)).2.2
  rw [hkey] at hown
  cases hown
  rfl

omit [DecidableEq π] in
/-- Nobody holds the lock when the key is not set. -/
theorem JobInvariant.heldSince_of_no_key (h : JobInvariant times s)
    (hkey : s.key = none) (i : Invocation π) :
    (s.phase i).heldSince = none := by
  cases hheld : (s.phase i).heldSince with
  | none => rfl
  | some since =>
    have hset := (h i since hheld).2.2
    rw [hkey] at hset
    cases hset

/-- The phase of an invocation after one of them moved. -/
theorem heldSince_setPhase {i j : Invocation π} {p : JobPhase}
    {since : Nat} (h : ((s.setPhase i p).phase j).heldSince = some since) :
    j = i ∧ p.heldSince = some since ∨
      j ≠ i ∧ (s.phase j).heldSince = some since := by
  by_cases hj : j = i
  · subst hj
    rw [JobState.setPhase_self] at h
    exact .inl ⟨rfl, h⟩
  · rw [s.setPhase_of_ne p hj] at h
    exact .inr ⟨hj, h⟩

/-- An invocation that moves to a phase without the lock changes nothing for
the one that has it. -/
theorem JobInvariant.setPhase (h : JobInvariant times s) (i : Invocation π)
    {p : JobPhase} (hp : p.heldSince = none) :
    JobInvariant times (s.setPhase i p) := by
  intro j since hheld
  rcases heldSince_setPhase hheld with ⟨_, hsince⟩ | ⟨_, hsince⟩
  · rw [hp] at hsince
    cases hsince
  · exact h j since hsince

theorem JobInvariant.stringSet (h : JobInvariant times s)
    (i : Invocation π) : JobInvariant times (s.stringSet i) := by
  unfold JobState.stringSet
  cases hkey : s.key with
  | none =>
    intro j since hheld
    rcases heldSince_setPhase hheld with ⟨rfl, hsince⟩ | ⟨_, hsince⟩
    · cases hsince
      exact ⟨Nat.le_refl _, Nat.le_add_right _ _, rfl⟩
    · rw [h.heldSince_of_no_key hkey] at hsince
      cases hsince
  | some key => exact h.setPhase i rfl

omit [DecidableEq π] in
/-- Time that passes while nobody is late makes nobody late. -/
theorem JobInvariant.advance (h : JobInvariant times s) {ms : Nat}
    (hwork : ∀ i since, s.phase i = .working since →
      s.now + ms ≤ since + times.duration i)
    (hrelease : ∀ i since, s.phase i ≠ .releasing since) :
    JobInvariant times { s with now := s.now + ms } := by
  intro i since hheld
  replace hheld : (s.phase i).heldSince = some since := hheld
  obtain ⟨hle, _, hset⟩ := h i since hheld
  refine ⟨Nat.le_add_right_of_le hle, ?_, hset⟩
  show s.now + ms ≤ since + times.duration i
  cases hphase : s.phase i with
  | working since' =>
    rw [hphase] at hheld
    cases hheld
    exact hwork i since hphase
  | releasing since' => exact absurd hphase (hrelease i since')
  -- nobody else holds the lock
  | _ =>
    rw [hphase] at hheld
    cases hheld

/-- Every step keeps the invariant when no work takes 20 seconds. -/
theorem jobInvariant_step (hshort : ∀ i, times.duration i < lockExpiry)
    (h : JobInvariant times s) {event : JobEvent π}
    (hstep : (backgroundJob times).Step s event s') :
    JobInvariant times s' := by
  cases event with
  | timerTick i =>
    rcases hstep with ⟨_, _, rfl⟩
    exact h.setPhase i rfl
  | stringSet i =>
    rcases hstep with ⟨_, rfl⟩
    exact h.stringSet i
  | work i =>
    rcases hstep with ⟨since, hphase, _, rfl⟩
    intro j since' hheld
    rcases heldSince_setPhase hheld with ⟨rfl, hsince⟩ | ⟨_, hsince⟩
    · cases hsince
      exact h j since (by rw [hphase]; rfl)
    · exact h j since' hsince
  | keyDelete i =>
    rcases hstep with ⟨⟨since, hphase⟩, rfl⟩
    have hi : (s.phase i).heldSince.isSome := by
      rw [hphase]
      rfl
    intro j since' hheld
    rcases heldSince_setPhase hheld with ⟨_, hsince⟩ | ⟨hne, hsince⟩
    · cases hsince
    · exact absurd (h.exclusive j i (by rw [hsince]; rfl) hi) hne
  | expire =>
    rcases hstep with ⟨key, hkey, hexpired, rfl⟩
    intro i since hheld
    obtain ⟨_, hlate, hset⟩ := h i since hheld
    rw [hkey] at hset
    cases hset
    have := hshort i
    -- the holder would have been done before the key could expire
    have hexpired : since + lockExpiry ≤ s.now := hexpired
    omega
  | advance ms =>
    rcases hstep with ⟨hwork, hrelease, _, rfl⟩
    exact h.advance hwork hrelease

/-- No run breaks the invariant when no work takes 20 seconds. -/
theorem jobInvariant_of_run (hshort : ∀ i, times.duration i < lockExpiry)
    {events : List (JobEvent π)}
    (hrun : (backgroundJob times).Run (.initial π) events s) :
    JobInvariant times s := by
  apply hrun.invariant
  · intro s event s' h hstep
    exact jobInvariant_step hshort h hstep
  · intro i since hheld
    cases hheld

/-! ## Work of 20 seconds and more -/

/-- The next invocation of a process. -/
def Invocation.next (i : Invocation π) : Invocation π :=
  { i with tick := i.tick + 1 }

omit [DecidableEq π] in
theorem Invocation.next_ne (i : Invocation π) : i.next ≠ i := by
  intro h
  have htick : i.tick + 1 = i.tick := congrArg Invocation.tick h
  omega

/-- Two invocations of a process have started. -/
def bothStarted (i : Invocation π) (now : Nat) : JobState π :=
  (({ JobState.initial π with now := now }).setPhase i .started).setPhase
    i.next .started

theorem run_bothStarted (times : JobTimes π) (i : Invocation π) :
    (backgroundJob times).Run (.initial π)
      [.advance (times.tickAt i.next), .timerTick i, .timerTick i.next]
      (bothStarted i (times.tickAt i.next)) := by
  have hticks : times.tickAt i ≤ times.tickAt i.next := by
    show times.startAsync i.process + timerPeriod * i.tick
      ≤ times.startAsync i.process + timerPeriod * (i.tick + 1)
    rw [Nat.mul_succ]
    omega
  have hadvance : (backgroundJob times).Step (.initial π)
      (.advance (times.tickAt i.next))
      { JobState.initial π with now := times.tickAt i.next } := by
    refine ⟨fun j since h => ?_, fun j since h => ?_, fun key h => ?_, ?_⟩
    · cases h
    · cases h
    · cases h
    · show _ = ({ JobState.initial π with now := 0 + _ } : JobState π)
      rw [Nat.zero_add]
  have htick : (backgroundJob times).Step
      { JobState.initial π with now := times.tickAt i.next } (.timerTick i)
      (({ JobState.initial π with now := times.tickAt i.next }).setPhase i
        .started) :=
    ⟨rfl, hticks, rfl⟩
  have hnext : (backgroundJob times).Step
      (({ JobState.initial π with now := times.tickAt i.next }).setPhase i
        .started) (.timerTick i.next)
      (bothStarted i (times.tickAt i.next)) := by
    refine ⟨?_, Nat.le_refl _, rfl⟩
    rw [JobState.setPhase_of_ne _ _ i.next_ne]
    rfl
  exact ((Run.single hadvance).snoc htick).snoc hnext

/-- When the first of the two has set the key, nobody else holds it. -/
theorem holder_of_stringSet {i j : Invocation π} {now since : Nat}
    (h : (((bothStarted i now).stringSet i).phase j).heldSince
      = some since) :
    j = i ∧ ((bothStarted i now).stringSet i).phase j = .working now := by
  by_cases hj : j = i
  · subst hj
    exact ⟨rfl, JobState.stringSet_self rfl j⟩
  · exfalso
    rw [JobState.stringSet_of_ne _ hj] at h
    by_cases hnext : j = i.next
    · rw [hnext, bothStarted, JobState.setPhase_self] at h
      cases h
    · rw [bothStarted, JobState.setPhase_of_ne _ _ hnext,
        JobState.setPhase_of_ne _ _ hj] at h
      cases h

/-- The first of the two sets the key, works on when it expires, and the
other one sets it again. -/
theorem run_overrun {i : Invocation π} (hlong : lockExpiry ≤ times.duration i)
    (now : Nat) :
    (backgroundJob times).Run (bothStarted i now)
      [.stringSet i, .advance lockExpiry, .expire, .stringSet i.next]
      (JobState.stringSet
        { (bothStarted i now).stringSet i with
          now := now + lockExpiry, key := none } i.next) := by
  have hset : (backgroundJob times).Step (bothStarted i now) (.stringSet i)
      ((bothStarted i now).stringSet i) := by
    refine ⟨?_, rfl⟩
    rw [bothStarted, JobState.setPhase_of_ne _ _ i.next_ne.symm,
      JobState.setPhase_self]
  have hadvance : (backgroundJob times).Step ((bothStarted i now).stringSet i)
      (.advance lockExpiry)
      { (bothStarted i now).stringSet i with now := now + lockExpiry } := by
    refine ⟨fun j since h => ?_, fun j since h => ?_, fun key h => ?_, rfl⟩
    · obtain ⟨rfl, hworking⟩ := holder_of_stringSet (by rw [h]; rfl)
      rw [hworking] at h
      cases h
      show now + lockExpiry ≤ now + times.duration j
      omega
    · obtain ⟨_, hworking⟩ := holder_of_stringSet (by rw [h]; rfl)
      rw [hworking] at h
      cases h
    · cases h
      exact Nat.le_refl _
  have hexpire : (backgroundJob times).Step
      { (bothStarted i now).stringSet i with now := now + lockExpiry }
      .expire
      { (bothStarted i now).stringSet i with
        now := now + lockExpiry, key := none } :=
    ⟨_, rfl, Nat.le_refl _, rfl⟩
  refine (((Run.single hset).snoc hadvance).snoc hexpire).snoc ⟨?_, rfl⟩
  show ((bothStarted i now).stringSet i).phase i.next = .started
  rw [JobState.stringSet_of_ne _ i.next_ne, bothStarted,
    JobState.setPhase_self]

/-- An invocation that works for 20 seconds does not work alone. -/
theorem overrun (times : JobTimes π) {i : Invocation π}
    (hlong : lockExpiry ≤ times.duration i) :
    ∃ events s, (backgroundJob times).Run (.initial π) events s ∧
      ¬ s.Exclusive := by
  refine ⟨_, _, (run_bothStarted times i).append (run_overrun hlong _),
    fun h => ?_⟩
  refine i.next_ne (h i.next i ?_ ?_)
  · rw [JobState.stringSet_self rfl]
    rfl
  · rw [JobState.stringSet_of_ne _ i.next_ne.symm]
    show (((bothStarted i _).stringSet i).phase i).heldSince.isSome
    rw [JobState.stringSet_self rfl]
    rfl

/-- The lock excludes, and every `KeyDelete` removes its own key, if and only
if no invocation works for 20 seconds. -/
theorem lock_exclusive_iff (times : JobTimes π) :
    (∀ events s, (backgroundJob times).Run (.initial π) events s →
        s.Exclusive ∧ DeletesOwnKey times s) ↔
      ∀ i, times.duration i < lockExpiry := by
  constructor
  · intro hsafe i
    by_contra hlong
    obtain ⟨events, s, hrun, hnot⟩ :=
      overrun times (Nat.le_of_not_lt hlong)
    exact hnot (hsafe events s hrun).1
  · intro hshort events s hrun
    have hinv := jobInvariant_of_run hshort hrun
    exact ⟨hinv.exclusive, hinv.deletesOwnKey⟩

end Job

/-! ### Work of 30 seconds -/

/-- One process whose invocations work for 30 seconds. -/
def slowJob : JobTimes Unit where
  startAsync _ := 0
  duration _ := 30000

/-- The invocations of the first and of the third tick. -/
def firstJob : Invocation Unit := { process := (), tick := 0 }

def thirdJob : Invocation Unit := { process := (), tick := 2 }

/-- The state in which only these two invocations have started. -/
def twoJobs (now : Nat) (key : Option (LockKey Unit)) (p q : JobPhase) :
    JobState Unit where
  now := now
  key := key
  phase i := if i = firstJob then p else if i = thirdJob then q else .idle

theorem twoJobs_setPhase_first (now : Nat) (key : Option (LockKey Unit))
    (p q p' : JobPhase) :
    (twoJobs now key p q).setPhase firstJob p' = twoJobs now key p' q := by
  unfold JobState.setPhase twoJobs
  congr 1
  funext i
  by_cases h : i = firstJob
  · subst h
    rw [Function.update_self, if_pos rfl]
  · rw [Function.update_of_ne h, if_neg h]
    exact if_neg h

theorem twoJobs_setPhase_third (now : Nat) (key : Option (LockKey Unit))
    (p q q' : JobPhase) :
    (twoJobs now key p q).setPhase thirdJob q' = twoJobs now key p q' := by
  unfold JobState.setPhase twoJobs
  congr 1
  funext i
  by_cases h : i = thirdJob
  · subst h
    rw [Function.update_self, if_neg (by decide), if_pos rfl]
  · rw [Function.update_of_ne h, if_neg h]
    show (if i = firstJob then p else if i = thirdJob then q else .idle) = _
    rw [if_neg h]

/-- Time passes while the two invocations work on and the key lasts. -/
theorem twoJobs_advance {now ms : Nat} {key : Option (LockKey Unit)}
    {p q : JobPhase}
    (hp : ∀ since, p = .working since → now + ms ≤ since + 30000)
    (hq : ∀ since, q = .working since → now + ms ≤ since + 30000)
    (hrelease : ∀ since, p ≠ .releasing since ∧ q ≠ .releasing since)
    (hkey : ∀ k, key = some k → now + ms ≤ k.expiresAt) :
    (backgroundJob slowJob).Step (twoJobs now key p q) (.advance ms)
      (twoJobs (now + ms) key p q) := by
  refine ⟨fun i since h => ?_, fun i since h => ?_, hkey, rfl⟩
  · replace h : (if i = firstJob then p else if i = thirdJob then q
      else .idle) = .working since := h
    split_ifs at h
    · exact hp since h
    · exact hq since h
  · replace h : (if i = firstJob then p else if i = thirdJob then q
      else .idle) = .releasing since := h
    split_ifs at h
    · exact (hrelease since).1 h
    · exact (hrelease since).2 h

/-- The first invocation works on when its key expires. -/
theorem run_firstJob :
    (backgroundJob slowJob).Run (.initial Unit)
      [.timerTick firstJob, .stringSet firstJob, .advance 20000, .expire]
      (twoJobs 20000 none (.working 0) .idle) := by
  have hstart : JobState.initial Unit = twoJobs 0 none .idle .idle := by
    unfold JobState.initial twoJobs
    congr 1
    funext i
    split_ifs <;> rfl
  have htick : (backgroundJob slowJob).Step (twoJobs 0 none .idle .idle)
      (.timerTick firstJob) (twoJobs 0 none .started .idle) :=
    ⟨rfl, by decide, (twoJobs_setPhase_first ..).symm⟩
  have hset : (backgroundJob slowJob).Step (twoJobs 0 none .started .idle)
      (.stringSet firstJob)
      (twoJobs 0 (some ⟨firstJob, 20000⟩) (.working 0) .idle) := by
    refine ⟨rfl, ?_⟩
    rw [← twoJobs_setPhase_first _ _ .started]
    rfl
  have hwork : (backgroundJob slowJob).Step
      (twoJobs 0 (some ⟨firstJob, 20000⟩) (.working 0) .idle)
      (.advance 20000)
      (twoJobs 20000 (some ⟨firstJob, 20000⟩) (.working 0) .idle) := by
    apply twoJobs_advance
    · intro since h
      cases h
      omega
    · intro since h
      cases h
    · exact fun since => ⟨nofun, nofun⟩
    · intro key h
      cases h
      exact Nat.le_refl 20000
  have hexpire : (backgroundJob slowJob).Step
      (twoJobs 20000 (some ⟨firstJob, 20000⟩) (.working 0) .idle) .expire
      (twoJobs 20000 none (.working 0) .idle) :=
    ⟨_, rfl, Nat.le_refl _, rfl⟩
  rw [hstart]
  exact .cons htick <| .cons hset <| .cons hwork <| .single hexpire

/-- The third tick comes, its invocation sets the key again, and the first
invocation ends its work. -/
theorem run_thirdJob :
    (backgroundJob slowJob).Run (twoJobs 20000 none (.working 0) .idle)
      [.advance 2000, .timerTick thirdJob, .stringSet thirdJob,
        .advance 8000, .work firstJob]
      (twoJobs 30000 (some ⟨thirdJob, 42000⟩) (.releasing 0)
        (.working 22000)) := by
  have hwait : (backgroundJob slowJob).Step
      (twoJobs 20000 none (.working 0) .idle) (.advance 2000)
      (twoJobs 22000 none (.working 0) .idle) := by
    apply twoJobs_advance
    · intro since h
      cases h
      omega
    · intro since h
      cases h
    · exact fun since => ⟨nofun, nofun⟩
    · intro key h
      cases h
  have hthird : (backgroundJob slowJob).Step
      (twoJobs 22000 none (.working 0) .idle) (.timerTick thirdJob)
      (twoJobs 22000 none (.working 0) .started) :=
    ⟨rfl, by decide, (twoJobs_setPhase_third ..).symm⟩
  have hagain : (backgroundJob slowJob).Step
      (twoJobs 22000 none (.working 0) .started) (.stringSet thirdJob)
      (twoJobs 22000 (some ⟨thirdJob, 42000⟩) (.working 0)
        (.working 22000)) := by
    refine ⟨rfl, ?_⟩
    rw [← twoJobs_setPhase_third _ _ _ .started]
    rfl
  have hboth : (backgroundJob slowJob).Step
      (twoJobs 22000 (some ⟨thirdJob, 42000⟩) (.working 0) (.working 22000))
      (.advance 8000)
      (twoJobs 30000 (some ⟨thirdJob, 42000⟩) (.working 0)
        (.working 22000)) := by
    apply twoJobs_advance
    · intro since h
      cases h
      omega
    · intro since h
      cases h
      omega
    · exact fun since => ⟨nofun, nofun⟩
    · intro key h
      cases h
      show 22000 + 8000 ≤ 42000
      omega
  have hend : (backgroundJob slowJob).Step
      (twoJobs 30000 (some ⟨thirdJob, 42000⟩) (.working 0) (.working 22000))
      (.work firstJob)
      (twoJobs 30000 (some ⟨thirdJob, 42000⟩) (.releasing 0)
        (.working 22000)) :=
    ⟨0, rfl, rfl, (twoJobs_setPhase_first ..).symm⟩
  exact .cons hwait <| .cons hthird <| .cons hagain <| .cons hboth <|
    .single hend

/-- The key of the first invocation expires after 20 seconds, the third tick
comes at 22 seconds, and 8 seconds later the first invocation is about to
delete the key of the third. -/
theorem lock_not_exclusive :
    ∃ s, (backgroundJob slowJob).Run (.initial Unit)
        [.timerTick firstJob, .stringSet firstJob, .advance 20000, .expire,
          .advance 2000, .timerTick thirdJob, .stringSet thirdJob,
          .advance 8000, .work firstJob] s ∧
      ¬ s.Exclusive ∧ ¬ DeletesOwnKey slowJob s := by
  refine ⟨_, run_firstJob.append run_thirdJob, ?_, ?_⟩
  · intro hexclusive
    have hsame := hexclusive firstJob thirdJob rfl rfl
    exact absurd hsame (by decide)
  · intro hown
    have hsame := hown firstJob _ ⟨⟨0, rfl⟩, rfl⟩ ⟨thirdJob, 42000⟩ rfl
    exact absurd hsame (by decide)

end TvMazeScraper
