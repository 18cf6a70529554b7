import TvMazeScraper.HandOff

/-!
# No row is lost or removed twice

An account of the queue over a whole interleaving.  The rows that were there
at the start and the rows that the inserts added are, each once, still in the
table or in the rows that one cycle removed.  What the inserts added is read
off a log of them (`Service.inserts`).

* `saver?`: the cycles that came to their `SaveChanges`, read off the events.
* `Account`: the balance, and what a step needs for it.
* `account_step` and `conserved_of_run`: the balance in every reachable state.
-/

namespace TvMazeScraper

open Machine

/-- The cycle that comes to its `SaveChanges`. -/
def ServiceEvent.saver? {ι κ : Type} : ServiceEvent ι κ → Option κ
  | .save c => some c
  | _ => none

/-- A cycle whose `SaveChanges` lies behind it, or that failed before. -/
def CyclePhase.PastSave : CyclePhase → Prop
  | .saved _ _ => True
  | .loaded _ _ => True
  | .failed => True
  | _ => False

/-- The rows that the cycles of a list removed. -/
def removedBy {ι κ : Type} (s : Service ι κ) (savers : List κ) :
    List ConsumerQueueItem :=
  savers.flatMap fun c => (s.cycle c).removed

/-- The URLs of some inserts. -/
def insertedUrls {ι : Type} (inserts : List (ι × List String)) : List String :=
  inserts.flatMap Prod.snd

/-- The rows in the table and the rows that the cycles removed are the rows
at the start and those of the URLs that were inserted. -/
structure Balanced {ι κ : Type} (w : World) (urls : List String)
    (savers : List κ) (s : Service ι κ) : Prop where
  nextId : s.world.queue.nextId = w.queue.nextId + urls.length
  rows : (s.world.queue.rows ++ removedBy s savers).Perm
    (w.queue.rows ++ ConsumerQueue.newRows w.queue.nextId urls)

/-- The balance and what keeps it. -/
structure Account {ι κ : Type} (json : JsonConvert) (w : World)
    (events : List (ServiceEvent ι κ)) (s : Service ι κ)
    (inserts : List (ι × List String)) : Prop where
  handOff : HandOff json s
  nodup : ∀ c, (s.cycle c).rows.Nodup
  past : ∀ c ∈ events.filterMap ServiceEvent.saver?, (s.cycle c).PastSave
  once : (events.filterMap ServiceEvent.saver?).Nodup
  others : ∀ c ∉ events.filterMap ServiceEvent.saver?,
    (s.cycle c).removed = []
  balanced : Balanced w (insertedUrls inserts)
    (events.filterMap ServiceEvent.saver?) s

section Conservation

variable {json : JsonConvert} {config : ELKConfiguration} {ι κ : Type}
  {w : World} {events : List (ServiceEvent ι κ)} {s s' : Service ι κ}
  {urls : List String} {inserts : List (ι × List String)}

theorem account_start (json : JsonConvert) (w : World) :
    Account json w ([] : List (ServiceEvent ι κ)) (.start ι κ w) [] where
  handOff := handOff_start w
  nodup := fun _ => List.nodup_nil
  past := nofun
  once := List.nodup_nil
  others := fun _ _ => rfl
  balanced := ⟨rfl, .refl _⟩

/-- The processed rows of a cycle are distinct. -/
theorem nodup_processedUrls {responses : Responses}
    {topTen : List ConsumerQueueItem} (completion : Completion topTen)
    (h : topTen.Nodup) :
    (fetchedOf json responses completion).processedUrls.Nodup :=
  (completion.urlOrder_perm.nodup_iff.mpr h).filter _

theorem removedBy_congr {savers : List κ}
    (h : ∀ c ∈ savers, (s'.cycle c).removed = (s.cycle c).removed) :
    removedBy s' savers = removedBy s savers :=
  List.flatMap_congr h

/-- New rows balance. -/
theorem Balanced.insert {savers : List κ} (h : Balanced w urls savers s)
    {new : List String}
    (hqueue : s'.world.queue = s.world.queue.addRange new)
    (hcycle : s'.cycle = s.cycle) : Balanced w (urls ++ new) savers s' where
  nextId := by
    have hnext := h.nextId
    rw [hqueue, List.length_append]
    show s.world.queue.nextId + new.length = _
    omega
  rows := by
    rw [hqueue, removedBy_congr (s := s) fun c _ => by rw [hcycle],
      ConsumerQueue.newRows_append, ← h.nextId]
    show (s.world.queue.rows
      ++ ConsumerQueue.newRows s.world.queue.nextId new
      ++ removedBy s savers).Perm _
    rw [List.append_assoc]
    refine (List.perm_append_comm.append_left _).trans ?_
    rw [← List.append_assoc, ← List.append_assoc]
    exact h.rows.append_right _

/-- A removal balances. -/
theorem Balanced.save {savers : List κ} (h : Balanced w urls savers s) {c : κ}
    {items : List ConsumerQueueItem}
    (hitems : ∀ r ∈ items, r ∈ s.world.queue.rows) (hnodup : items.Nodup)
    (hqueue : s'.world.queue = s.world.queue.without items)
    (hsavers : ∀ e ∈ savers, (s'.cycle e).removed = (s.cycle e).removed)
    (hc : (s'.cycle c).removed = items) :
    Balanced w urls (savers ++ [c]) s' where
  nextId := by
    rw [hqueue]
    exact h.nextId
  rows := by
    have hsplit : removedBy s' (savers ++ [c])
        = removedBy s savers ++ items := by
      unfold removedBy
      rw [List.flatMap_append, List.flatMap_singleton, hc]
      congr 1
      exact removedBy_congr hsavers
    rw [hqueue, hsplit]
    refine List.Perm.trans ?_ h.rows
    refine (List.perm_append_comm.append_left _).trans ?_
    rw [← List.append_assoc]
    exact (ConsumerQueue.rows_perm_without hitems hnodup).symm.append_right _

/-- A removal that fails balances. -/
theorem Balanced.fail {savers : List κ} (h : Balanced w urls savers s) {c : κ}
    (hqueue : s'.world.queue = s.world.queue)
    (hsavers : ∀ e ∈ savers, (s'.cycle e).removed = (s.cycle e).removed)
    (hc : (s'.cycle c).removed = []) :
    Balanced w urls (savers ++ [c]) s' where
  nextId := by
    rw [hqueue]
    exact h.nextId
  rows := by
    have hsame : removedBy s' (savers ++ [c]) = removedBy s savers := by
      unfold removedBy
      rw [List.flatMap_append, List.flatMap_singleton, hc, List.append_nil]
      exact removedBy_congr hsavers
    rw [hqueue, hsame]
    exact h.rows

variable [DecidableEq ι] [DecidableEq κ]

omit [DecidableEq ι] [DecidableEq κ] in
theorem insertedUrls_append (inserts inserts' : List (ι × List String)) :
    insertedUrls (inserts ++ inserts')
      = insertedUrls inserts ++ insertedUrls inserts' :=
  List.flatMap_append

/-- A step that is no `SaveChanges` and leaves the rows of the cycles as they
are. -/
theorem Account.silent (h : Account json w events s inserts)
    {event : ServiceEvent ι κ} {new : List (ι × List String)}
    (hstep : (interleaving json config ι κ).Step s event s')
    (hsaver : event.saver? = none)
    (hbalanced : Balanced w (insertedUrls (inserts ++ new))
      (events.filterMap ServiceEvent.saver?) s')
    (hnodup : ∀ c, (s'.cycle c).rows.Nodup)
    (hpast : ∀ c, (s.cycle c).PastSave → (s'.cycle c).PastSave)
    (hremoved : ∀ c, (s'.cycle c).removed = (s.cycle c).removed) :
    Account json w (events ++ [event]) s' (inserts ++ new) := by
  have hsame : (events ++ [event]).filterMap ServiceEvent.saver?
      = events.filterMap ServiceEvent.saver? := by
    simp [hsaver]
  refine ⟨handOff_step h.handOff hstep, hnodup, ?_, ?_, ?_, ?_⟩
  · rw [hsame]
    exact fun c hc => hpast c (h.past c hc)
  · rw [hsame]
    exact h.once
  · rw [hsame]
    intro c hc
    rw [hremoved]
    exact h.others c hc
  · rw [hsame]
    exact hbalanced

/-- A step of a load. -/
theorem Account.load (h : Account json w events s inserts)
    {event : ServiceEvent ι κ} {new : List (ι × List String)}
    (hstep : (interleaving json config ι κ).Step s event s')
    (hcycle : event.cycle? = none) (hsaver : event.saver? = none)
    (hqueue : s'.world.queue = s.world.queue.addRange (insertedUrls new)) :
    Account json w (events ++ [event]) s' (inserts ++ new) := by
  obtain ⟨hsame, _⟩ := cycle_of_load_step hstep hcycle
  refine h.silent hstep hsaver ?_ ?_ ?_ ?_
  · rw [insertedUrls_append]
    exact h.balanced.insert hqueue hsame
  · rw [hsame]
    exact h.nodup
  · rw [hsame]
    exact fun _ hpast => hpast
  · rw [hsame]
    exact fun _ => rfl

/-- A cycle moves to another phase, and the table stays as it is. -/
theorem Account.move (h : Account json w events s inserts)
    {event : ServiceEvent ι κ}
    (hstep : (interleaving json config ι κ).Step s event s')
    (hsaver : event.saver? = none) {c : κ} {p : CyclePhase}
    (hcycle : s'.cycle = (s.setCycle c p).cycle)
    (hqueue : s'.world.queue = s.world.queue) (hrows : p.rows.Nodup)
    (hpast : (s.cycle c).PastSave → p.PastSave)
    (hremoved : p.removed = (s.cycle c).removed) :
    Account json w (events ++ [event]) s' inserts := by
  have hall : ∀ e, (s'.cycle e).removed = (s.cycle e).removed := by
    intro e
    rw [hcycle]
    by_cases he : e = c
    · rw [he, s.setCycle_self, hremoved]
    · rw [s.setCycle_of_ne p he]
  rw [← List.append_nil inserts]
  refine h.silent hstep hsaver ?_ ?_ ?_ hall
  · rw [List.append_nil]
    refine ⟨by rw [hqueue]; exact h.balanced.nextId, ?_⟩
    rw [hqueue, removedBy_congr fun e _ => hall e]
    exact h.balanced.rows
  · rw [hcycle]
    exact Service.forall_setCycle (P := fun p => p.rows.Nodup) hrows h.nodup
  · intro e he
    rw [hcycle]
    by_cases hc : e = c
    · rw [hc, s.setCycle_self]
      exact hpast (hc ▸ he)
    · rwa [s.setCycle_of_ne p hc]

/-- A cycle that comes to its `SaveChanges` is entered in the account. -/
theorem Account.enter (h : Account json w events s inserts) {c : κ}
    (hstep : (interleaving json config ι κ).Step s (.save c) s')
    (hnew : c ∉ events.filterMap ServiceEvent.saver?)
    (hpast : (s'.cycle c).PastSave) (hnodup : (s'.cycle c).rows.Nodup)
    (hbalanced : Balanced w (insertedUrls inserts)
      (events.filterMap ServiceEvent.saver? ++ [c]) s') :
    Account json w (events ++ [.save c]) s' inserts := by
  have hsavers : (events ++ [ServiceEvent.save c]).filterMap
      ServiceEvent.saver? = events.filterMap ServiceEvent.saver? ++ [c] := by
    simp [ServiceEvent.saver?]
  have hother := fun e he => other_of_step rfl hstep (i := e) he
  refine ⟨handOff_step h.handOff hstep, fun e => ?_, ?_, ?_, ?_, ?_⟩
  · by_cases he : e = c
    · rw [he]
      exact hnodup
    · rw [hother e he]
      exact h.nodup e
  · rw [hsavers]
    intro e he
    by_cases hc : e = c
    · rw [hc]
      exact hpast
    · rw [hother e hc]
      rcases List.mem_append.mp he with hmem | hlast
      · exact h.past e hmem
      · exact absurd (List.mem_singleton.mp hlast) hc
  · rw [hsavers, List.nodup_append]
    refine ⟨h.once, List.nodup_singleton c, fun e he e' he' hee => ?_⟩
    rw [hee, List.mem_singleton.mp he'] at he
    exact hnew he
  · rw [hsavers]
    intro e he
    rw [List.mem_append, not_or, List.mem_singleton] at he
    rw [hother e he.2]
    exact h.others e he.1
  · rw [hsavers]
    exact hbalanced

/-- A cycle comes to its `SaveChanges` once, and removes its rows or fails. -/
theorem Account.save (h : Account json w events s inserts) {c : κ}
    {responses : Responses} {lists : Fetched}
    (hstep : (interleaving json config ι κ).Step s (.save c) s')
    (hfetched : s.cycle c = .fetched responses lists) :
    Account json w (events ++ [.save c]) s' inserts := by
  have hnew : c ∉ events.filterMap ServiceEvent.saver? := by
    intro hc
    have hpast := h.past c hc
    rw [hfetched] at hpast
    exact hpast
  have hold : ∀ e ∈ events.filterMap ServiceEvent.saver?,
      (s'.cycle e).removed = (s.cycle e).removed := by
    intro e he
    rw [other_of_step rfl hstep fun hc => hnew (hc ▸ he)]
  have htied := h.handOff.tied c
  rw [hfetched] at htied
  have hnodup := h.nodup c
  rw [hfetched] at hnodup
  have hsave := hstep
  rcases hsave with ⟨responses', lists', hphase, rfl⟩
  rw [hfetched] at hphase
  cases hphase
  unfold Service.save at hold hstep ⊢
  cases hremove : s.world.queue.removeRange lists.processedUrls with
  | error e =>
    rw [hremove] at hold hstep
    have hc := s.setCycle_self c .failed
    refine h.enter hstep hnew ?_ ?_ (h.balanced.fail rfl hold ?_)
    · rw [hc]
      trivial
    · rw [hc]
      exact List.nodup_nil
    · rw [hc]
      rfl
  | ok queue =>
    rw [hremove] at hold hstep
    obtain ⟨hids, rfl⟩ := ConsumerQueue.removeRange_ok hremove
    have hc := s.setCycle_self c (.saved responses lists)
    refine h.enter hstep hnew ?_ ?_
      (h.balanced.save (htied.mem_rows hids) hnodup rfl hold ?_)
    · show ((s.setCycle c _).cycle c).PastSave
      rw [hc]
      trivial
    · show ((s.setCycle c _).cycle c).rows.Nodup
      rw [hc]
      exact hnodup
    · show ((s.setCycle c _).cycle c).removed = _
      rw [hc]
      rfl

/-- Every step keeps the account. -/
theorem account_step (h : Account json w events s inserts)
    {event : ServiceEvent ι κ}
    (hstep : (interleaving json config ι κ).Step s event s') :
    Account json w (events ++ [event]) s' (inserts ++ s.inserts event) := by
  -- the steps of a load that are no insert
  have hquiet : event.cycle? = none → event.saver? = none →
      (∀ i, event ≠ .insert i) →
      Account json w (events ++ [event]) s' (inserts ++ []) := by
    intro hcycle hsaver hinsert
    refine h.load hstep hcycle hsaver ?_
    rw [(cycle_of_load_step hstep hcycle).2 hinsert]
    exact (ConsumerQueue.addRange_nil _).symm
  cases event with
  | list i forceLoad listing => exact hquiet rfl rfl nofun
  | findMissing i reads => exact hquiet rfl rfl nofun
  | check i => exact hquiet rfl rfl nofun
  | insert i =>
    have hinserted := hstep
    rcases hinserted with ⟨forceLoad, urls, hchecked, rfl⟩
    refine h.load hstep rfl rfl ?_
    rw [inserts_of_checked hchecked, insertedUrls, List.flatMap_singleton]
    rfl
  | read c =>
    have hmoved := hstep
    rcases hmoved with ⟨hidle, topTen, rfl⟩
    show Account _ _ _ _ (inserts ++ [])
    rw [List.append_nil]
    refine h.move hstep rfl rfl rfl
      (topTen.nodup_picked s.world.queue.nodup) ?_ ?_
    · rw [hidle]
      exact id
    · rw [hidle]
      rfl
  | fetch c responses =>
    have hmoved := hstep
    rcases hmoved with ⟨topTen, hread, completion, rfl⟩
    have hnodup := h.nodup c
    have hpast : ¬ (s.cycle c).PastSave := by
      rw [hread]
      exact id
    have hremoved : (s.cycle c).removed = [] := by
      rw [hread]
      rfl
    rw [hread] at hnodup
    show Account _ _ _ _ (inserts ++ [])
    rw [List.append_nil]
    unfold Service.fetch at hstep ⊢
    by_cases hfault : Faults json responses topTen
    · obtain ⟨e, he⟩ := whenAll_of_fault completion hfault
      rw [he] at hstep ⊢
      exact h.move hstep rfl rfl rfl List.nodup_nil
        (fun hp => absurd hp hpast) hremoved.symm
    · rw [whenAll_of_no_fault completion hfault] at hstep ⊢
      exact h.move hstep rfl rfl rfl (nodup_processedUrls completion hnodup)
        (fun hp => absurd hp hpast) hremoved.symm
  | save c =>
    have hmoved := hstep
    rcases hmoved with ⟨responses, lists, hfetched, _⟩
    show Account _ _ _ _ (inserts ++ [])
    rw [List.append_nil]
    exact h.save hstep hfetched
  | load c writes =>
    have hmoved := hstep
    rcases hmoved with ⟨responses, lists, hsaved, rfl⟩
    have hnodup := h.nodup c
    rw [hsaved] at hnodup
    show Account _ _ _ _ (inserts ++ [])
    rw [List.append_nil]
    refine h.move hstep rfl rfl rfl hnodup (fun _ => trivial) ?_
    rw [hsaved]
    rfl

/-- In every reachable state of every interleaving, the rows that were queued
at the start and the rows that the steps of the run inserted are, each once,
still queued or in the rows that one cycle removed, and every cycle comes to
its `SaveChanges` at most once. -/
theorem conserved_of_run
    (hrun : (interleaving json config ι κ).Run (.start ι κ w) events s) :
    (events.filterMap ServiceEvent.saver?).Nodup ∧
      (∀ c ∉ events.filterMap ServiceEvent.saver?,
        (s.cycle c).removed = []) ∧
      ∃ inserts, ((interleaving json config ι κ).logging
          Service.inserts).Run (.start ι κ w, []) events (s, inserts) ∧
        Balanced w (insertedUrls inserts)
          (events.filterMap ServiceEvent.saver?) s := by
  obtain ⟨inserts, hlogged, h⟩ := hrun.logged
    (P := fun events s inserts => Account json w events s inserts)
    (fun _ _ _ _ _ h hstep => account_step h hstep) (account_start json w)
  exact ⟨h.once, h.others, inserts, hlogged, h.balanced⟩

end Conservation

/-! ### Two cycles with the same rows -/

/-- The URL of a queued row is queued again, and two cycles take both rows. -/
def insertedAgain : List (ServiceEvent Unit Bool) :=
  [.list () true (.success "\x7b\"1\":1\x7d"), .findMissing () answeredReads,
    .check (), .insert (), .read true, .read false,
    .fetch true twoResponses, .fetch false twoResponses, .save true,
    .save false]

theorem run_insertedAgain :
    ∃ s, (interleaving oneListed { index := "tv" } Unit Bool).Run
        (.start Unit Bool sharedRow) insertedAgain s ∧
      s.world.queue.nextId = sharedRow.queue.nextId + 1 ∧
      s.world.queue.rows = [] :=
  ⟨_, .cons (step_list rfl getAllShowsUrl_oneListed) <|
    .cons (step_findMissing rfl findMissingUrls_empty) <|
    .cons (step_check rfl rfl) <| .cons (step_insert rfl) <|
    .cons ⟨rfl, .first 20 _, rfl⟩ <| .cons ⟨rfl, .first 20 _, rfl⟩ <|
    .cons ⟨_, rfl, .inOrder _, rfl⟩ <| .cons ⟨_, rfl, .inOrder _, rfl⟩ <|
    .cons ⟨_, _, rfl, rfl⟩ <| .single ⟨_, _, rfl, rfl⟩, by rfl, by rfl⟩

/-- Both rows are in the rows of the cycle whose `SaveChanges` came first. -/
theorem conserved_of_run_two :
    ∃ (s : Service Unit Bool) (inserts : List (Unit × List String)),
      (insertedUrls inserts).length = 1 ∧
      (removedBy s [true, false]).Perm
        (sharedRow.queue.rows ++ ConsumerQueue.newRows
          sharedRow.queue.nextId (insertedUrls inserts)) := by
  obtain ⟨s, hrun, hnext, hrows⟩ := run_insertedAgain
  obtain ⟨_, _, inserts, _, hbalanced⟩ := conserved_of_run hrun
  refine ⟨s, inserts, ?_, ?_⟩
  · have hlength := hbalanced.nextId
    omega
  · have hperm := hbalanced.rows
    rw [hrows] at hperm
    exact hperm

end TvMazeScraper
