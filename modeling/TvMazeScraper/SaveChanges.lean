import TvMazeScraper.SerialCycles

/-!
# `SaveChanges` under the lock

The removal of the processed rows is one transaction by primary key, and it
throws when a row is gone.  Under the lock no other cycle can have removed it.

* `save_succeeds`: a cycle under the lock removes its rows.
* `run_bothSave`: of two cycles with the same row, the second one fails.
* `save_succeeds_iff`: no removal ever fails, exactly when no work takes 20
  seconds.
-/

namespace TvMazeScraper

open Machine

section SaveChanges

variable {ι π : Type} [DecidableEq ι] [DecidableEq π] {times : JobTimes π}
  {json : JsonConvert} {config : ELKConfiguration} {w : World}
  {events : List (LockedEvent ι π)} {s s' : LockedService ι π}

/-- Both invocations work when the first one is late. -/
theorem run_bothWorking {i : Invocation π}
    (hlong : lockExpiry ≤ times.duration i) :
    ∃ events j since since', (backgroundJob times).Run (.initial π) events j ∧
      j.phase i = .working since ∧ j.phase i.next = .working since' := by
  refine ⟨_, _, times.tickAt i.next, _,
    (run_bothStarted times i).append (run_overrun hlong _), ?_,
    JobState.stringSet_self rfl i.next⟩
  rw [JobState.stringSet_of_ne _ i.next_ne.symm]
  show ((bothStarted i _).stringSet i).phase i = .working _
  exact JobState.stringSet_self rfl i

/-- Two cycles take the only row, both get its show, and the second removal
fails. -/
theorem run_bothSave {body : String} {d : Option ShowDetails}
    (hbody : json.deserializeShowDetails body = .ok d)
    (config : ELKConfiguration) {κ : Type} [DecidableEq κ] {c c' : κ}
    (hne : c ≠ c') (url : String) :
    ∃ s s', (interleaving json config ι κ).Run (.start ι κ (.queued [url]))
        [.read c, .read c', .fetch c fun _ => .success body,
          .fetch c' fun _ => .success body, .save c] s ∧
      (interleaving json config ι κ).Step s (.save c') s' ∧
      s'.cycle c' = .failed := by
  let responses : Responses := fun _ => .success body
  let rows := (World.queued [url]).queue.rows
  let lists := fetchedOf json responses (.inOrder rows)
  have htask : ∀ r, fetchTask json responses r = .ok (some d) := by
    intro r
    show doUrl (.success body) json.deserializeShowDetails = _
    simp only [doUrl, hbody]
  have hfault : ¬ Faults json responses rows := by
    intro h
    rcases h with ⟨r, _, e, he⟩
    rw [htask] at he
    cases he
  have hprocessed : lists.processedUrls = rows := by
    have hadded : ∀ r, (addedDocument json responses r).isSome = true := by
      intro r
      unfold addedDocument
      rw [htask]
      rfl
    exact List.filter_eq_self.mpr fun r _ => hadded r
  have hwhen : whenAll json responses (.inOrder rows) = .ok lists :=
    whenAll_of_no_fault _ hfault
  let s₀ : Service ι κ := .start ι κ (.queued [url])
  let s₁ := s₀.setCycle c (.read rows)
  let s₂ := s₁.setCycle c' (.read rows)
  let s₃ := s₂.setCycle c (.fetched responses lists)
  let s₄ := s₃.setCycle c' (.fetched responses lists)
  let s₅ := s₄.save c responses lists
  have h₁ : (interleaving json config ι κ).Step s₀ (.read c) s₁ :=
    ⟨rfl, .first 20 rows, rfl⟩
  have h₂ : (interleaving json config ι κ).Step s₁ (.read c') s₂ :=
    ⟨s₀.setCycle_of_ne _ hne.symm, .first 20 rows, rfl⟩
  have h₃ : (interleaving json config ι κ).Step s₂ (.fetch c responses)
      s₃ := by
    refine ⟨rows, ?_, .inOrder rows, ?_⟩
    · exact (s₁.setCycle_of_ne _ hne).trans (s₀.setCycle_self c _)
    · unfold Service.fetch
      rw [hwhen]
  have h₄ : (interleaving json config ι κ).Step s₃ (.fetch c' responses)
      s₄ := by
    refine ⟨rows, ?_, .inOrder rows, ?_⟩
    · exact (s₂.setCycle_of_ne _ hne.symm).trans (s₁.setCycle_self c' _)
    · unfold Service.fetch
      rw [hwhen]
  have h₅ : (interleaving json config ι κ).Step s₄ (.save c) s₅ :=
    ⟨responses, lists,
      (s₃.setCycle_of_ne _ hne).trans (s₂.setCycle_self c _), rfl⟩
  have hsaved : s₅ = { s₄.setCycle c (.saved responses lists) with
      world := { World.queued [url] with
        queue := (World.queued [url]).queue.without rows } } := by
    show s₄.save c responses lists = _
    unfold Service.save
    rw [hprocessed, ConsumerQueue.removeRange_of_subset]
    · rfl
    · exact fun r hr => hr
  refine ⟨s₅, s₅.save c' responses lists, ?_, ⟨responses, lists, ?_, rfl⟩, ?_⟩
  · exact .cons h₁ <| .cons h₂ <| .cons h₃ <| .cons h₄ <| .single h₅
  · rw [hsaved]
    exact (s₄.setCycle_of_ne _ hne.symm).trans (s₃.setCycle_self c' _)
  · have hgone : s₅.world.queue.removeRange lists.processedUrls
        = .error .dbUpdateConcurrency := by
      rw [hsaved, hprocessed]
      exact ConsumerQueue.removeRange_without (by simp [rows, World.queued,
        ConsumerQueue.addRange, ConsumerQueue.empty, ConsumerQueue.newRows])
    unfold Service.save
    rw [hgone]
    exact s₅.setCycle_self c' _

/-- A cycle under the lock removes its rows. -/
theorem save_succeeds (hshort : ∀ i, times.duration i < lockExpiry)
    (hrun : (lockedCycles times json config ι).Run (.start ι π w) events s)
    {c : Invocation π}
    (hstep : (lockedCycles times json config ι).Step s (.call (.save c))
      s') : s'.service.cycle c ≠ .failed := by
  rcases hstep with ⟨⟨responses, lists, hfetched, hservice⟩, _, hworks⟩
  obtain ⟨_, _, hserialized⟩ := serialized_of_run hshort hrun
  have hrows := hserialized.rows_of_fetched (locked_of_run hshort hrun)
    (hworks c rfl) hfetched
  unfold Service.save at hservice
  rw [ConsumerQueue.removeRange_of_subset hrows] at hservice
  rw [hservice]
  show (s.service.setCycle c _).cycle c ≠ .failed
  rw [s.service.setCycle_self]
  nofun

/-- `SaveChanges` never fails in a cycle, if and only if no invocation works
for 20 seconds. -/
theorem save_succeeds_iff (ι : Type) [DecidableEq ι] (times : JobTimes π)
    (config : ELKConfiguration) {body : String} {d : Option ShowDetails}
    (hbody : json.deserializeShowDetails body = .ok d) :
    (∀ w events s, (lockedCycles times json config ι).Run (.start ι π w)
        events s → ∀ c s', (lockedCycles times json config ι).Step s
          (.call (.save c)) s' → s'.service.cycle c ≠ .failed) ↔
      ∀ i, times.duration i < lockExpiry := by
  constructor
  · intro hsafe i
    by_contra hlong
    obtain ⟨events, j, since, since', hjob, hi, hnext⟩ :=
      run_bothWorking (Nat.le_of_not_lt hlong)
    obtain ⟨service, service', hcalls, hsave, hfailed⟩ :=
      run_bothSave (ι := ι) hbody config i.next_ne.symm ""
    have hworks : ∀ k, k = i ∨ k = i.next →
        ∃ since, j.phase k = .working since := by
      intro k hk
      rcases hk with rfl | rfl
      · exact ⟨since, hi⟩
      · exact ⟨since', hnext⟩
    have hidle : ∀ k, ((Service.start ι (Invocation π)
        (.queued [""])).cycle k).Ended := fun _ => trivial
    have hlock : (lockedCycles times json config ι).Run
        (.start ι π (.queued [""])) (events.map LockedEvent.job)
        ⟨j, .start ι (Invocation π) (.queued [""])⟩ :=
      run_of_job hidle hjob
    refine hsafe _ _ _ (hlock.append (run_of_calls ?_ hcalls)) i.next
      ⟨j, service'⟩ ⟨hsave, rfl, ?_⟩ hfailed
    · intro event hevent k hk
      apply hworks
      simp only [List.mem_cons, List.not_mem_nil, or_false] at hevent
      rcases hevent with rfl | rfl | rfl | rfl | rfl <;> cases hk <;> simp
    · intro k hk
      cases hk
      exact ⟨since', hnext⟩
  · intro hshort w events s hrun c s' hstep
    exact save_succeeds hshort hrun hstep

end SaveChanges

/-! ### Work of 5 seconds -/

/-- The first invocation has the lock, and its cycle has fetched the row. -/
def firstFetched : LockedService Unit Unit where
  job := firstLocked
  service :=
    ((Service.start Unit (Invocation Unit) sharedRow).setCycle firstJob
      (.read sharedRow.queue.rows)).setCycle firstJob
        (.fetched twoResponses sharedLists)

theorem run_firstFetched :
    ∃ events, (lockedCycles quickJob twoBodies { index := "tv" } Unit).Run
      (.start Unit Unit sharedRow) events firstFetched := by
  have hidle : ∀ i, ((Service.start Unit (Invocation Unit)
      sharedRow).cycle i).Ended := fun _ => trivial
  have hcalls : (interleaving twoBodies { index := "tv" } Unit
      (Invocation Unit)).Run (.start _ _ sharedRow)
      [.read firstJob, .fetch firstJob twoResponses] firstFetched.service :=
    .cons ⟨rfl, .first 20 _, rfl⟩ <| .single ⟨_, rfl, .inOrder _, rfl⟩
  refine ⟨_, (run_of_job hidle run_firstLocked).append
    (run_of_calls ?_ hcalls)⟩
  intro event hevent i hi
  have hfirst : i = firstJob := by
    simp only [List.mem_cons, List.not_mem_nil, or_false] at hevent
    rcases hevent with rfl | rfl <;> cases hi <;> rfl
  rw [hfirst]
  exact ⟨0, firstLocked_working⟩

/-- The row is removed. -/
theorem save_succeeds_iff_firstFetched :
    ((firstFetched.service.save firstJob twoResponses sharedLists).cycle
      firstJob) ≠ .failed := by
  obtain ⟨events, hrun⟩ := run_firstFetched
  have hbody : twoBodies.deserializeShowDetails "\x7b\"id\":1\x7d"
      = .ok (some { id := 1 }) := rfl
  have hstep : (lockedCycles quickJob twoBodies { index := "tv" } Unit).Step
      firstFetched (.call (.save firstJob))
      { firstFetched with
        service := firstFetched.service.save firstJob twoResponses
          sharedLists } := by
    refine ⟨⟨_, _, rfl, rfl⟩, rfl, fun i hi => ?_⟩
    cases hi
    exact ⟨0, firstLocked_working⟩
  exact (save_succeeds_iff Unit quickJob { index := "tv" } hbody).mpr
    quickJob_short sharedRow events firstFetched hrun firstJob _ hstep

end TvMazeScraper
