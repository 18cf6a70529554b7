import TvMazeScraper.LockedCycles
import TvMazeScraper.Ticks

/-!
# How fast the queue is drained

The timer, the lock and the cycles of one process together.  Every invocation
is on time and shorter than the period, its cycle runs to the end, and every
request for a taken row is answered with a document.  Then no tick is lost,
and each of them takes 20 rows off the queue.

* `Punctual.done_of_passed`: an invocation is done when the next tick comes.
* `CyclePhase.Progress`: what the phase of a cycle says about the rows.
* `onSchedule_call` and `onSchedule_job`: the steps of the calls and of the
  lock keep the schedule.
* `rows_le_of_run`: the cycles that have run, and the rows that are left,
  after some periods.
-/

namespace TvMazeScraper

open Machine

/-- The process is on time, an invocation ends after its cycle, every request
for a taken row brings a document, and nothing is queued. -/
def Busy {ι : Type} (json : JsonConvert) (times : JobTimes Unit)
    (s : LockedService ι Unit) : LockedEvent ι Unit → Prop
  | .job (.work i) => ∃ responses lists,
      s.service.cycle i = .loaded responses lists
  | .job event => OnTime times s.job event
  | .call (.fetch c responses) => ∀ topTen, s.service.cycle c = .read topTen →
      ∀ doer ∈ topTen, (addedDocument json responses doer).isSome
  | .call (.insert _) => False
  | .call _ => True

/-! ## Invocations that are over -/

/-- An invocation that is shorter than the period is done when the next tick
comes. -/
theorem Punctual.done_of_passed {times : JobTimes Unit} {s : JobState Unit}
    (hshort : ∀ i, times.duration i < timerPeriod) (h : Punctual times s)
    {i : Invocation Unit} (hpassed : times.tickAt i + timerPeriod ≤ s.now) :
    s.phase i = .done := by
  have hperiod : timerPeriod = 11000 := rfl
  have hi := hshort i
  have hphase := h.phases i
  cases hp : s.phase i with
  | idle =>
    rw [hp] at hphase
    replace hphase : s.now ≤ times.tickAt i := hphase
    omega
  | started =>
    rw [hp] at hphase
    replace hphase : s.now = times.tickAt i := hphase
    omega
  | working since =>
    obtain ⟨_, _, hlate⟩ := h.of_held (by rw [hp]; rfl)
    omega
  | releasing since =>
    obtain ⟨_, _, hlate⟩ := h.of_held (by rw [hp]; rfl)
    omega
  | done => rfl

/-! ## The rows of a cycle -/

/-- A cycle that is under way has taken rows of the table, and one that has
removed them has left its share. -/
def CyclePhase.Progress (rows : List ConsumerQueueItem) (n tick : Nat) :
    CyclePhase → Prop
  | .idle => True
  | .read topTen => ∃ t : Take 20 rows, t.picked = topTen
  | .fetched _ lists => ∃ t : Take 20 rows,
      ∀ r, r ∈ lists.processedUrls ↔ r ∈ t.picked
  | .saved _ _ => rows.length ≤ n - 20 * (tick + 1)
  | .loaded _ _ => rows.length ≤ n - 20 * (tick + 1)
  | .failed => False

/-- The process keeps up with its ticks. -/
structure OnSchedule {ι : Type} (times : JobTimes Unit) (n : Nat)
    (s : LockedService ι Unit) : Prop where
  punctual : Punctual times s.job
  works : ∀ i, ¬ (s.service.cycle i).Ended →
    ∃ since, s.job.phase i = .working since
  ended : ∀ i, (∃ since, s.job.phase i = .releasing since) ∨
    s.job.phase i = .done →
      ∃ responses lists, s.service.cycle i = .loaded responses lists
  progress : ∀ i, (s.service.cycle i).Progress s.service.world.queue.rows n
    i.tick
  few : s.service.world.queue.rows.length ≤ n

section Throughput

variable {ι : Type} [DecidableEq ι] {times : JobTimes Unit}
  {json : JsonConvert} {config : ELKConfiguration} {n : Nat}
  {s s' : LockedService ι Unit}

omit [DecidableEq ι] in
/-- A tick whose period is over has run its cycle to the end. -/
theorem OnSchedule.loaded_of_passed
    (hshort : ∀ i, times.duration i < timerPeriod) (h : OnSchedule times n s)
    {tick : Nat}
    (hnow : times.startAsync () + timerPeriod * (tick + 1) ≤ s.job.now) :
    ∃ responses lists,
      s.service.cycle (invocation tick) = .loaded responses lists := by
  have hpassed : times.tickAt (invocation tick) + timerPeriod
      ≤ s.job.now := by
    rw [Nat.mul_succ, ← Nat.add_assoc] at hnow
    exact hnow
  exact h.ended (invocation tick)
    (.inr (h.punctual.done_of_passed hshort hpassed))

omit [DecidableEq ι] in
/-- The ticks before an invocation that works have left their share. -/
theorem OnSchedule.rows_le (hshort : ∀ i, times.duration i < timerPeriod)
    (h : OnSchedule times n s) {k : Nat}
    (hnow : times.startAsync () + timerPeriod * k ≤ s.job.now) :
    s.service.world.queue.rows.length ≤ n - 20 * k := by
  cases k with
  | zero => exact h.few
  | succ tick =>
    obtain ⟨responses, lists, hloaded⟩ := h.loaded_of_passed hshort hnow
    have hprogress := h.progress (invocation tick)
    rw [hloaded] at hprogress
    exact hprogress

omit [DecidableEq ι] in
/-- Two invocations that work are one. -/
theorem OnSchedule.eq_of_working (h : OnSchedule times n s)
    {i j : Invocation Unit} (hi : ¬ (s.service.cycle i).Ended)
    {since : Nat} (hj : s.job.phase j = .working since) : i = j := by
  obtain ⟨since', hworking⟩ := h.works i hi
  exact h.punctual.held.exclusive i j (by rw [hworking]; rfl)
    (by rw [hj]; rfl)

/-- The rows that are left when a cycle has removed what it took. -/
theorem length_without {queue : ConsumerQueue} (t : Take 20 queue.rows)
    {items : List ConsumerQueueItem} (hitems : ∀ r, r ∈ items ↔ r ∈ t.picked) :
    (queue.without items).rows.length = queue.rows.length - 20 := by
  have hsub : ∀ r ∈ items, r ∈ queue.rows := fun r hr =>
    t.mem_of_mem_picked ((hitems r).mp hr)
  have hperm : (queue.without items).rows.Perm
      (queue.rows.filter fun r => r ∉ t.picked) := by
    refine (List.perm_ext_iff_of_nodup (queue.without items).nodup
      (queue.nodup.filter _)).mpr fun r => ?_
    rw [ConsumerQueue.mem_without hsub, List.mem_filter, decide_eq_true_iff,
      hitems r]
  rw [hperm.length_eq, t.length_filter_not_mem queue.nodup]

/-- A cycle that is not under way does not mind that rows leave. -/
theorem CyclePhase.Progress.of_ended {rows rows' : List ConsumerQueueItem}
    {tick : Nat} {p : CyclePhase} (h : p.Progress rows n tick)
    (hended : p.Ended) (hle : rows'.length ≤ rows.length) :
    p.Progress rows' n tick := by
  cases p with
  | idle => trivial
  | loaded responses lists => exact Nat.le_trans hle h
  | failed => exact h
  | _ => exact hended.elim

omit [DecidableEq ι] in
/-- The cycle of the invocation that works takes a step. -/
theorem OnSchedule.move (h : OnSchedule times n s) {c : Invocation Unit}
    {since : Nat} (hc : s.job.phase c = .working since)
    {service : Service ι (Invocation Unit)}
    (hother : ∀ i, i ≠ c → service.cycle i = s.service.cycle i)
    (hle : service.world.queue.rows.length
      ≤ s.service.world.queue.rows.length)
    (hprogress : (service.cycle c).Progress service.world.queue.rows n
      c.tick) :
    OnSchedule times n ⟨s.job, service⟩ where
  punctual := h.punctual
  works := by
    intro i hi
    by_cases hic : i = c
    · exact ⟨since, hic ▸ hc⟩
    · rw [hother i hic] at hi
      exact h.works i hi
  ended := by
    intro i hi
    have hic : i ≠ c := by
      rintro rfl
      replace hi : (∃ since, s.job.phase i = .releasing since) ∨
        s.job.phase i = .done := hi
      rw [hc] at hi
      simp at hi
    rw [hother i hic]
    exact h.ended i hi
  progress := by
    intro i
    by_cases hic : i = c
    · rw [hic]
      exact hprogress
    · have hended : (s.service.cycle i).Ended := by
        by_contra hnot
        exact hic (h.eq_of_working hnot hc)
      rw [hother i hic]
      exact (h.progress i).of_ended hended hle
  few := Nat.le_trans hle h.few

/-- A cycle whose requests are all answered has its whole share to remove. -/
theorem OnSchedule.fetch (h : OnSchedule times n s) {c : Invocation Unit}
    {responses : ConsumerQueueItem → HttpOutcome} {since : Nat}
    (hc : s.job.phase c = .working since)
    (hadded : ∀ topTen, s.service.cycle c = .read topTen →
      ∀ doer ∈ topTen, (addedDocument json responses doer).isSome)
    {service : Service ι (Invocation Unit)}
    (hstep : (interleaving json config ι (Invocation Unit)).Step s.service
      (.fetch c responses) service) : OnSchedule times n ⟨s.job, service⟩ := by
  have hothers := fun i hi => other_of_step rfl hstep (i := i) hi
  rcases hstep with ⟨topTen, hread, completion, rfl⟩
  have hprogress := h.progress c
  rw [hread] at hprogress
  obtain ⟨t, rfl⟩ := hprogress
  have hadded := hadded _ hread
  have hfault : ¬ Faults json responses t.picked := by
    rintro ⟨doer, hdoer, e, he⟩
    have hdocument := hadded doer hdoer
    unfold addedDocument at hdocument
    rw [he] at hdocument
    cases hdocument
  unfold Service.fetch at hothers ⊢
  rw [whenAll_of_no_fault completion hfault] at hothers ⊢
  refine h.move hc hothers (Nat.le_refl _) ?_
  rw [Service.setCycle_self]
  refine ⟨t, fun r => ?_⟩
  rw [mem_processedUrls]
  exact and_iff_left_of_imp (hadded r)

/-- The removal succeeds and adds a share to those of the ticks before. -/
theorem OnSchedule.save (hshort : ∀ i, times.duration i < timerPeriod)
    (h : OnSchedule times n s) {c : Invocation Unit} {since : Nat}
    (hc : s.job.phase c = .working since)
    {service : Service ι (Invocation Unit)}
    (hstep : (interleaving json config ι (Invocation Unit)).Step s.service
      (.save c) service) : OnSchedule times n ⟨s.job, service⟩ := by
  have hothers := fun i hi => other_of_step rfl hstep (i := i) hi
  rcases hstep with ⟨responses, lists, hfetched, rfl⟩
  have hprogress := h.progress c
  rw [hfetched] at hprogress
  obtain ⟨t, ht⟩ := hprogress
  have hsub : ∀ r ∈ lists.processedUrls, r ∈ s.service.world.queue.rows :=
    fun r hr => t.mem_of_mem_picked ((ht r).mp hr)
  unfold Service.save at hothers ⊢
  rw [ConsumerQueue.removeRange_of_subset hsub] at hothers ⊢
  have hlength := length_without t ht
  refine h.move hc hothers ?_ ?_
  · show (s.service.world.queue.without _).rows.length ≤ _
    omega
  · show ((s.service.setCycle c _).cycle c).Progress _ n c.tick
    rw [Service.setCycle_self]
    show (s.service.world.queue.without _).rows.length ≤ _
    have hcome := (h.punctual.of_held (i := c) (by rw [hc]; rfl)).2.1
    have hrows := h.rows_le hshort (k := c.tick) hcome
    omega

/-- The steps of the loads that insert nothing. -/
theorem OnSchedule.load (h : OnSchedule times n s)
    {event : ServiceEvent ι (Invocation Unit)}
    {service : Service ι (Invocation Unit)}
    (hstep : (interleaving json config ι (Invocation Unit)).Step s.service
      event service) (hnone : event.cycle? = none)
    (hinsert : ∀ i, event ≠ .insert i) :
    OnSchedule times n ⟨s.job, service⟩ := by
  obtain ⟨hcycle, hworld⟩ := cycle_of_load_step hstep hnone
  have hworld := hworld hinsert
  refine ⟨h.punctual, ?_, ?_, ?_, ?_⟩
  · rw [hcycle]
    exact h.works
  · rw [hcycle]
    exact h.ended
  · rw [hcycle, hworld]
    exact h.progress
  · rw [hworld]
    exact h.few

/-- Every step of the calls while the process is busy. -/
theorem onSchedule_call (hshort : ∀ i, times.duration i < timerPeriod)
    (h : OnSchedule times n s)
    {event : ServiceEvent ι (Invocation Unit)}
    {service : Service ι (Invocation Unit)}
    (hbusy : Busy json times s (.call event))
    (hworks : ∀ i, event.cycle? = some i →
      ∃ since, s.job.phase i = .working since)
    (hstep : (interleaving json config ι (Invocation Unit)).Step s.service
      event service) : OnSchedule times n ⟨s.job, service⟩ := by
  cases event with
  | list i forceLoad listing => exact h.load hstep rfl nofun
  | findMissing i reads => exact h.load hstep rfl nofun
  | check i => exact h.load hstep rfl nofun
  | insert i => exact hbusy.elim
  | read c =>
    obtain ⟨since, hc⟩ := hworks c rfl
    have hothers := fun i hi => other_of_step rfl hstep (i := i) hi
    rcases hstep with ⟨_, topTen, rfl⟩
    refine h.move hc hothers (Nat.le_refl _) ?_
    rw [Service.setCycle_self]
    exact ⟨topTen, rfl⟩
  | fetch c responses =>
    obtain ⟨since, hc⟩ := hworks c rfl
    exact h.fetch hc hbusy hstep
  | save c =>
    obtain ⟨since, hc⟩ := hworks c rfl
    exact h.save hshort hc hstep
  | load c writes =>
    obtain ⟨since, hc⟩ := hworks c rfl
    have hothers := fun i hi => other_of_step rfl hstep (i := i) hi
    rcases hstep with ⟨responses, lists, hsaved, rfl⟩
    have hprogress := h.progress c
    rw [hsaved] at hprogress
    refine h.move hc hothers (Nat.le_refl _) ?_
    show ((s.service.setCycle c _).cycle c).Progress _ n c.tick
    rw [Service.setCycle_self]
    exact hprogress

omit [DecidableEq ι] in
/-- The cycle of an invocation that is over has run to its end, after the
invocation `j` moved. -/
theorem OnSchedule.ended_setPhase (h : OnSchedule times n s)
    {j : Invocation Unit} {p : JobPhase}
    (hj : (∃ since, p = .releasing since) ∨ p = .done →
      ∃ responses lists, s.service.cycle j = .loaded responses lists)
    (i : Invocation Unit)
    (hi : (∃ since, (s.job.setPhase j p).phase i = .releasing since) ∨
      (s.job.setPhase j p).phase i = .done) :
    ∃ responses lists, s.service.cycle i = .loaded responses lists := by
  by_cases hij : i = j
  · rw [hij, JobState.setPhase_self] at hi
    rw [hij]
    exact hj hi
  · rw [JobState.setPhase_of_ne _ _ hij] at hi
    exact h.ended i hi

omit [DecidableEq ι] in
/-- Every step of the lock while the process is busy. -/
theorem onSchedule_job (hshort : ∀ i, times.duration i < timerPeriod)
    (h : OnSchedule times n s) {event : JobEvent Unit} {job : JobState Unit}
    (hbusy : Busy json times s (.job event))
    (hends : ∀ i, event = .work i → (s.service.cycle i).Ended)
    (hstep : (backgroundJob times).Step s.job event job) :
    OnSchedule times n ⟨job, s.service⟩ := by
  have hperiod : ∀ i, times.duration i ≠ timerPeriod := fun i =>
    Nat.ne_of_lt (hshort i)
  have hlock : ∀ i, times.duration i < lockExpiry := by
    intro i
    have := hshort i
    have : timerPeriod < lockExpiry := by decide
    omega
  have honTime : OnTime times s.job event := by
    cases event with
    | advance ms => exact hbusy
    | _ => trivial
  refine ⟨punctual_step hlock hperiod h.punctual honTime hstep,
    fun i hi => ?_, ?_, h.progress, h.few⟩
  · obtain ⟨since, hsince⟩ := h.works i hi
    exact ⟨since, working_of_step hstep hsince fun he => hi (hends i he)⟩
  · show ∀ i, (∃ since, job.phase i = .releasing since) ∨
      job.phase i = .done →
        ∃ responses lists, s.service.cycle i = .loaded responses lists
    cases event with
    | timerTick j =>
      rcases hstep with ⟨_, _, rfl⟩
      exact h.ended_setPhase fun hj => by simp at hj
    | stringSet j =>
      rcases hstep with ⟨hstarted, rfl⟩
      -- no tick is lost
      have hfree := (h.punctual.key_none_iff hlock hperiod hstarted).mpr
        (getsLock_all_iff.mpr (fun i => Nat.le_of_lt (hshort i)) j.tick)
      unfold JobState.stringSet
      rw [hfree]
      exact h.ended_setPhase fun hj => by simp at hj
    | work j =>
      rcases hstep with ⟨since, _, _, rfl⟩
      exact h.ended_setPhase fun _ => hbusy
    | keyDelete j =>
      rcases hstep with ⟨hreleasing, rfl⟩
      exact h.ended_setPhase fun _ => h.ended j (.inl hreleasing)
    | expire =>
      rcases hstep with ⟨_, _, _, rfl⟩
      exact h.ended
    | advance ms =>
      rcases hstep with ⟨_, _, _, rfl⟩
      exact h.ended

theorem onSchedule_of_run (hshort : ∀ i, times.duration i < timerPeriod)
    {w : World} {events : List (LockedEvent ι Unit)}
    (hrun : ((lockedCycles times json config ι).restrict
      (Busy json times)).Run (.start ι Unit w) events s) :
    OnSchedule times w.queue.rows.length s := by
  apply hrun.invariant
  · rintro s event ⟨job, service⟩ h ⟨hstep, hbusy⟩
    cases event with
    | job event =>
      rcases hstep with ⟨hjob, rfl, hends⟩
      exact onSchedule_job hshort h hbusy hends hjob
    | call event =>
      rcases hstep with ⟨hcall, rfl, hworks⟩
      exact onSchedule_call hshort h hbusy hworks hcall
  · refine ⟨⟨nofun, fun i => Nat.zero_le _, nofun⟩,
      fun i hi => absurd trivial hi, fun i hi => ?_, fun i => trivial,
      Nat.le_refl _⟩
    rcases hi with ⟨since, hi⟩ | hi
    · cases hi
    · cases hi

/-- In every run of one process that is on time and busy, whose invocations
are shorter than the period, no cycle has failed, every tick whose period is
over has run its cycle to the end, and at least 20 rows for each of them have
left the queue.  So a queue of `n` rows is empty after `n / 20` periods,
rounded up. -/
theorem rows_le_of_run (hshort : ∀ i, times.duration i < timerPeriod)
    {w : World} {events : List (LockedEvent ι Unit)}
    (hrun : ((lockedCycles times json config ι).restrict
      (Busy json times)).Run (.start ι Unit w) events s)
    {k : Nat}
    (hnow : times.startAsync () + timerPeriod * k ≤ s.job.now) :
    (∀ i, s.service.cycle i ≠ .failed) ∧
      (∀ tick < k, ∃ responses lists,
        s.service.cycle (invocation tick) = .loaded responses lists) ∧
      s.service.world.queue.rows.length ≤ w.queue.rows.length - 20 * k := by
  have h := onSchedule_of_run hshort hrun
  refine ⟨fun i hfailed => ?_, fun tick htick => ?_, h.rows_le hshort hnow⟩
  · have hprogress := h.progress i
    rw [hfailed] at hprogress
    exact hprogress
  · refine h.loaded_of_passed hshort (Nat.le_trans ?_ hnow)
    exact Nat.add_le_add_left (Nat.mul_le_mul_left _ htick) _

end Throughput

/-! ### One row and one period -/

/-- Cycles of one second. -/
def oneSecond : JobTimes Unit where
  startAsync _ := 0
  duration _ := 1000

/-- The cycle of the first tick. -/
def firstCycle : List (ServiceEvent Unit (Invocation Unit)) :=
  [.read (invocation 0), .fetch (invocation 0) twoResponses,
    .save (invocation 0), .load (invocation 0) .accepting]

theorem run_firstCycle :
    ∃ t, (interleaving twoBodies { index := "tv" } Unit
        (Invocation Unit)).Run (.start _ _ sharedRow) firstCycle t ∧
      ∃ responses lists,
        t.cycle (invocation 0) = .loaded responses lists :=
  ⟨_, .cons ⟨rfl, .first 20 _, rfl⟩ <|
    .cons ⟨_, rfl, .inOrder _, rfl⟩ <| .cons ⟨_, _, rfl, rfl⟩ <|
    .single ⟨_, _, rfl, rfl⟩, _, _, rfl⟩

theorem addedDocument_twoResponses (doer : ConsumerQueueItem) :
    (addedDocument twoBodies twoResponses doer).isSome := by
  by_cases hurl : doer.UrlToProcess = showUrl "1"
  · have hresponse : twoResponses doer = .success "\x7b\"id\":1\x7d" :=
      if_pos hurl
    unfold addedDocument fetchTask doUrl
    rw [hresponse]
    rfl
  · have hresponse : twoResponses doer = .success "\x7b\"id\":2\x7d" :=
      if_neg hurl
    unfold addedDocument fetchTask doUrl
    rw [hresponse]
    rfl

/-- The invocation of the first tick is over, and the second tick comes. -/
def firstOver (now : Nat) : JobState Unit :=
  { (({ firstRuns with now := 1000 }).setPhase (invocation 0)
      (.releasing 0)).keyDelete (invocation 0) with now := now }

theorem firstOver_phase (now : Nat) (i : Invocation Unit) :
    (firstOver now).phase i = .done ∨
      11000 ≤ oneSecond.tickAt i ∧ (firstOver now).phase i = .idle := by
  by_cases hi : i = invocation 0
  · rw [hi]
    left
    exact JobState.setPhase_self
      (({ firstRuns with now := 1000 } : JobState Unit).setPhase
        (invocation 0) (.releasing 0)) (invocation 0) .done
  · rcases firstRuns_phase i with hworking | ⟨hcome, hidle⟩
    · rcases i with ⟨⟨⟩, _ | tick⟩
      · exact absurd rfl hi
      · cases hworking
    · refine .inr ⟨hcome, ?_⟩
      exact (JobState.setPhase_of_ne _ _ hi).trans
        ((JobState.setPhase_of_ne _ _ hi).trans hidle)

/-- The first invocation works, and the next tick is to come. -/
theorem step_works : ((backgroundJob oneSecond).restrict
    (OnTime oneSecond)).Step firstRuns (.advance 1000)
      { firstRuns with now := 1000 } := by
  refine ⟨⟨fun i since h => ?_, fun i since h => ?_, fun key h => ?_, rfl⟩,
    fun i h => ?_⟩
  · rcases firstRuns_phase i with hi | ⟨_, hi⟩
    · rw [hi] at h
      cases h
      exact Nat.le_refl 1000
    · rw [hi] at h
      cases h
  · rcases firstRuns_phase i with hi | ⟨_, hi⟩
    · rw [hi] at h
      cases h
    · rw [hi] at h
      cases h
  · cases h
    decide
  · rcases firstRuns_phase i with hi | ⟨hcome, _⟩
    · rw [hi] at h
      simp at h
    · replace hcome : 11000 ≤ oneSecond.tickAt i := hcome
      show 0 + 1000 ≤ _
      omega

/-- Nothing happens until the next tick. -/
theorem step_waits : ((backgroundJob oneSecond).restrict
    (OnTime oneSecond)).Step (firstOver 1000) (.advance 10000)
      (firstOver 11000) := by
  refine ⟨⟨fun i since h => ?_, fun i since h => ?_, fun key h => ?_, rfl⟩,
    fun i h => ?_⟩
  · rcases firstOver_phase 1000 i with hi | ⟨_, hi⟩
    · rw [hi] at h
      cases h
    · rw [hi] at h
      cases h
  · rcases firstOver_phase 1000 i with hi | ⟨_, hi⟩
    · rw [hi] at h
      cases h
    · rw [hi] at h
      cases h
  · cases h
  · rcases firstOver_phase 1000 i with hi | ⟨hcome, _⟩
    · rw [hi] at h
      simp at h
    · exact hcome

/-- The first cycle runs under the lock. -/
theorem run_busyCycle :
    ∃ t : Service Unit (Invocation Unit),
      ((lockedCycles oneSecond twoBodies { index := "tv" } Unit).restrict
        (Busy twoBodies oneSecond)).Run ⟨firstRuns, .start _ _ sharedRow⟩
        (firstCycle.map LockedEvent.call) ⟨firstRuns, t⟩ ∧
      ∃ responses lists,
        t.cycle (invocation 0) = .loaded responses lists := by
  obtain ⟨t, hcycle, hloaded⟩ := run_firstCycle
  refine ⟨t, ?_, hloaded⟩
  refine (run_of_calls (fun event hevent i hi => ?_) hcycle).restrict
    fun event hevent s => ?_
  · have hfirst : i = invocation 0 := by
      simp only [firstCycle, List.mem_cons, List.not_mem_nil, or_false]
        at hevent
      rcases hevent with rfl | rfl | rfl | rfl <;> cases hi <;> rfl
    rw [hfirst]
    exact ⟨0, JobState.stringSet_self rfl (invocation 0)⟩
  · simp only [firstCycle, List.map_cons, List.map_nil, List.mem_cons,
      List.not_mem_nil, or_false] at hevent
    rcases hevent with rfl | rfl | rfl | rfl
    · trivial
    · exact fun topTen _ doer _ => addedDocument_twoResponses doer
    · trivial
    · trivial

/-- The first cycle runs, and the next tick comes. -/
theorem run_onePeriod :
    ∃ events t, ((lockedCycles oneSecond twoBodies { index := "tv" }
        Unit).restrict (Busy twoBodies oneSecond)).Run
        (.start Unit Unit sharedRow) events ⟨firstOver 11000, t⟩ := by
  obtain ⟨t, hcalls, hloaded⟩ := run_busyCycle
  have hworking : firstRuns.phase (invocation 0) = .working 0 :=
    JobState.stringSet_self rfl (invocation 0)
  have hended : ∀ i, JobEvent.work (invocation 0) = .work i →
      (t.cycle i).Ended := by
    rintro i ⟨⟩
    obtain ⟨responses, lists, hphase⟩ := hloaded
    rw [hphase]
    trivial
  have hbegin : ((lockedCycles oneSecond twoBodies { index := "tv" }
      Unit).restrict (Busy twoBodies oneSecond)).Run
      (.start Unit Unit sharedRow)
      [.job (.timerTick (invocation 0)), .job (.stringSet (invocation 0))]
      ⟨firstRuns, .start _ _ sharedRow⟩ :=
    .cons (t := ⟨_, _⟩) ⟨⟨⟨rfl, Nat.le_refl 0, rfl⟩, rfl, nofun⟩, trivial⟩ <|
      .single ⟨⟨⟨JobState.setPhase_self .., rfl⟩, rfl, nofun⟩, trivial⟩
  have hend : ((lockedCycles oneSecond twoBodies { index := "tv" }
      Unit).restrict (Busy twoBodies oneSecond)).Run ⟨firstRuns, t⟩
      [.job (.advance 1000), .job (.work (invocation 0)),
        .job (.keyDelete (invocation 0)), .job (.advance 10000)]
      ⟨firstOver 11000, t⟩ :=
    .cons (t := ⟨_, _⟩) ⟨⟨step_works.1, rfl, nofun⟩, step_works.2⟩ <|
      .cons (t := ⟨_, _⟩) ⟨⟨⟨0, hworking, rfl, rfl⟩, rfl, hended⟩,
        hloaded⟩ <|
      .cons (t := ⟨firstOver 1000, _⟩) ⟨⟨⟨⟨0, JobState.setPhase_self ..⟩,
        rfl⟩, rfl, nofun⟩, trivial⟩ <|
      .single ⟨⟨step_waits.1, rfl, nofun⟩, step_waits.2⟩
  exact ⟨_, t, (hbegin.append hcalls).append hend⟩

/-- The cycle of the first tick has run, and the queue is empty after one
period. -/
theorem rows_le_of_run_onePeriod :
    ∃ events t, ((lockedCycles oneSecond twoBodies { index := "tv" }
        Unit).restrict (Busy twoBodies oneSecond)).Run
        (.start Unit Unit sharedRow) events ⟨firstOver 11000, t⟩ ∧
      (∃ responses lists,
        t.cycle (invocation 0) = .loaded responses lists) ∧
      t.world.queue.rows.length ≤ 0 := by
  obtain ⟨events, t, hrun⟩ := run_onePeriod
  have hshort : 1000 < timerPeriod := by decide
  obtain ⟨_, hloaded, hrows⟩ :=
    rows_le_of_run (fun _ => hshort) hrun (k := 1) (Nat.le_refl 11000)
  exact ⟨events, t, hrun, hloaded 0 Nat.zero_lt_one, hrows⟩

end TvMazeScraper
