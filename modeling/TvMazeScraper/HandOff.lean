import TvMazeScraper.Interleaving

/-!
# Each row is handed over once

Overlapping cycles can take the same rows.  The removal of the processed rows
is what hands them over: it is one transaction by primary key, so of two
cycles with a common row only the first one gets through.

* `Tied`: what ties the table to the rows that one cycle works with.
* `handOff_step` and `handOff_of_run`: all cycles stay tied to the table, and
  no two of them remove one row.
* `leaves_by_save`: the only way for a row to leave the table.
* `failed_of_run`: a cycle whose removal fails does not go on.
* `handed_over_once`: the three together.
-/

namespace TvMazeScraper

open Machine

namespace CyclePhase

/-- The rows that a cycle works with. -/
def rows : CyclePhase → List ConsumerQueueItem
  | .read topTen => topTen
  | .fetched _ lists => lists.processedUrls
  | .saved _ lists => lists.processedUrls
  | .loaded _ lists => lists.processedUrls
  | _ => []

/-- The rows that a cycle has removed.  Only a cycle that has removed its rows
reaches `LoadData`. -/
def removed : CyclePhase → List ConsumerQueueItem
  | .saved _ lists => lists.processedUrls
  | .loaded _ lists => lists.processedUrls
  | _ => []

/-- The document of each processed row is one of the shows. -/
def Documented (json : JsonConvert) (responses : Responses)
    (lists : Fetched) : Prop :=
  ∀ r ∈ lists.processedUrls,
    ∃ d ∈ lists.shows, addedDocument json responses r = some d

/-- The document of each row that a cycle has processed is one of its
shows. -/
def HasDocuments (json : JsonConvert) : CyclePhase → Prop
  | .fetched responses lists => Documented json responses lists
  | .saved responses lists => Documented json responses lists
  | .loaded responses lists => Documented json responses lists
  | _ => True

theorem rows_of_removed {p : CyclePhase} {r : ConsumerQueueItem}
    (h : r ∈ p.removed) : r ∈ p.rows := by
  cases p with
  | saved responses lists => exact h
  | loaded responses lists => exact h
  | _ => cases h

end CyclePhase

/-! ## The table and one cycle -/

/-- The ids of the rows of a cycle were given out, a row of the table with
such an id is that row, the rows that the cycle removed are gone, and their
documents are in its shows. -/
structure Tied (json : JsonConvert) (queue : ConsumerQueue) (p : CyclePhase) :
    Prop where
  known : ∀ r ∈ p.rows, r.Id < queue.nextId
  same : ∀ r ∈ p.rows, ∀ r' ∈ queue.rows, r'.Id = r.Id → r' = r
  gone : ∀ r ∈ p.removed, r ∉ queue.rows
  documents : p.HasDocuments json

namespace Tied

variable {json : JsonConvert} {queue : ConsumerQueue} {p : CyclePhase}

theorem of_no_rows (hrows : p.rows = []) (hdocuments : p.HasDocuments json) :
    Tied json queue p where
  known := by
    rw [hrows]
    intro r hr
    cases hr
  same := by
    rw [hrows]
    intro r hr
    cases hr
  gone := by
    intro r hr
    have hmem := CyclePhase.rows_of_removed hr
    rw [hrows] at hmem
    cases hmem
  documents := hdocuments

/-- The rows that a cycle takes are rows of the table. -/
theorem read (topTen : Take 20 queue.rows) :
    Tied json queue (.read topTen.picked) where
  known := fun r hr => queue.lt_nextId r (topTen.mem_of_mem_picked hr)
  same := fun _ hr _ hr' hid =>
    queue.eq_of_Id_eq hr' (topTen.mem_of_mem_picked hr) hid
  gone := fun r hr => by cases hr
  documents := trivial

/-- When the tasks end, the processed rows are rows that the cycle took. -/
theorem fetch {topTen : List ConsumerQueueItem}
    (h : Tied json queue (.read topTen)) (responses : Responses)
    (completion : Completion topTen) :
    Tied json queue
      (.fetched responses (fetchedOf json responses completion)) where
  known := fun r hr => h.known r (mem_processedUrls.mp hr).1
  same := fun r hr => h.same r (mem_processedUrls.mp hr).1
  gone := fun r hr => by cases hr
  documents := by
    intro r hr
    obtain ⟨hmem, hsome⟩ := mem_processedUrls.mp hr
    obtain ⟨d, hd⟩ := Option.isSome_iff_exists.mp hsome
    exact ⟨d, mem_shows.mpr ⟨r, hmem, hd⟩, hd⟩

/-- New rows have new ids. -/
theorem addRange (h : Tied json queue p) (urls : List String) :
    Tied json (queue.addRange urls) p where
  known := fun r hr => Nat.lt_add_right _ (h.known r hr)
  same := by
    intro r hr r' hr' hid
    rcases List.mem_append.mp hr' with hold | hnew
    · exact h.same r hr r' hold hid
    · have hlt := h.known r hr
      have hle := (ConsumerQueue.newRows_Id hnew).1
      omega
  gone := by
    intro r hr hin
    rcases List.mem_append.mp hin with hold | hnew
    · exact h.gone r hr hold
    · have hlt := h.known r (CyclePhase.rows_of_removed hr)
      have hle := (ConsumerQueue.newRows_Id hnew).1
      omega
  documents := h.documents

/-- A removal by another cycle leaves fewer rows. -/
theorem without (h : Tied json queue p) (items : List ConsumerQueueItem) :
    Tied json (queue.without items) p where
  known := h.known
  same := fun r hr _ hr' => h.same r hr _ (List.mem_of_mem_filter hr')
  gone := fun _ hr hin => h.gone _ hr (List.mem_of_mem_filter hin)
  documents := h.documents

section Save

variable {responses : Responses} {lists : Fetched}

/-- The rows of a successful removal were in the table. -/
theorem mem_rows (h : Tied json queue (.fetched responses lists))
    (hids : ∀ r ∈ lists.processedUrls,
      r.Id ∈ queue.rows.map ConsumerQueueItem.Id) :
    ∀ r ∈ lists.processedUrls, r ∈ queue.rows := by
  intro r hr
  obtain ⟨r', hr', hid⟩ := List.mem_map.mp (hids r hr)
  rw [← h.same r hr r' hr' hid]
  exact hr'

/-- A cycle is tied to the table without its rows when it has removed
them. -/
theorem save (h : Tied json queue (.fetched responses lists))
    (hrows : ∀ r ∈ lists.processedUrls, r ∈ queue.rows) :
    Tied json (queue.without lists.processedUrls)
      (.saved responses lists) where
  known := h.known
  same := fun r hr _ hr' => h.same r hr _ (List.mem_of_mem_filter hr')
  gone := fun _ hr hin => ((ConsumerQueue.mem_without hrows).mp hin).2 hr
  documents := h.documents

end Save

/-- A row of the table is no row that a cycle removed. -/
theorem ne_of_mem (h : Tied json queue p) {r r' : ConsumerQueueItem}
    (hr : r ∈ p.removed) (hr' : r' ∈ queue.rows) : r.Id ≠ r'.Id := by
  intro hid
  have he := h.same r (CyclePhase.rows_of_removed hr) r' hr' hid.symm
  rw [he] at hr'
  exact h.gone r hr hr'

end Tied

/-! ## The table and all cycles -/

/-- Every cycle is tied to the table, and no two cycles removed one row. -/
structure HandOff {ι κ : Type} (json : JsonConvert) (s : Service ι κ) :
    Prop where
  tied : ∀ c, Tied json s.world.queue (s.cycle c)
  apart : ∀ c c', c ≠ c' → ∀ r ∈ (s.cycle c).removed,
    ∀ r' ∈ (s.cycle c').removed, r.Id ≠ r'.Id

section HandOff

variable {json : JsonConvert} {config : ELKConfiguration} {ι κ : Type}

theorem handOff_start (w : World) : HandOff json (.start ι κ w) where
  tied := fun _ => .of_no_rows rfl trivial
  apart := fun _ _ _ r hr => by cases hr

variable [DecidableEq ι] [DecidableEq κ] {s s' : Service ι κ}

omit [DecidableEq ι] in
/-- One cycle moves to another phase, and the table changes. -/
theorem HandOff.move (h : HandOff json s) {c : κ} {p : CyclePhase}
    (hcycle : s'.cycle = (s.setCycle c p).cycle)
    (hc : Tied json s'.world.queue p)
    (hother : ∀ e, e ≠ c → Tied json s'.world.queue (s.cycle e))
    (hremoved : ∀ e, e ≠ c → ∀ r ∈ (s.cycle e).removed,
      ∀ r' ∈ p.removed, r.Id ≠ r'.Id) : HandOff json s' where
  tied := by
    rw [hcycle]
    intro e
    by_cases he : e = c
    · subst he
      rw [Service.setCycle_self]
      exact hc
    · rw [Service.setCycle_of_ne s p he]
      exact hother e he
  apart := by
    rw [hcycle]
    intro e e' hne r hr r' hr'
    by_cases he : e = c
    · subst he
      rw [Service.setCycle_self] at hr
      rw [Service.setCycle_of_ne s p hne.symm] at hr'
      exact (hremoved e' hne.symm r' hr' r hr).symm
    · rw [Service.setCycle_of_ne s p he] at hr
      by_cases he' : e' = c
      · subst he'
        rw [Service.setCycle_self] at hr'
        exact hremoved e he r hr r' hr'
      · rw [Service.setCycle_of_ne s p he'] at hr'
        exact h.apart e e' hne r hr r' hr'

/-- Every step keeps the cycles tied to the table. -/
theorem handOff_step (h : HandOff json s) {event : ServiceEvent ι κ}
    (hstep : (interleaving json config ι κ).Step s event s') :
    HandOff json s' := by
  cases effect_of_step hstep with
  | returned i hevent => exact ⟨h.tied, h.apart⟩
  | listed i forceLoad hidle hurls => exact ⟨h.tied, h.apart⟩
  | found i hlisted hmissing => exact ⟨h.tied, h.apart⟩
  | checked i hfound hstill => exact ⟨h.tied, h.apart⟩
  | inserted i hchecked =>
    exact ⟨fun c => (h.tied c).addRange _, h.apart⟩
  | read c hidle topTen =>
    exact h.move rfl (.read topTen) (fun e _ => h.tied e)
      fun _ _ _ _ r' hr' => by cases hr'
  | failed c hcycle hevent =>
    exact h.move rfl (.of_no_rows rfl trivial) (fun e _ => h.tied e)
      fun _ _ _ _ r' hr' => by cases hr'
  | fetched c responses hread completion =>
    have htied := h.tied c
    rw [hread] at htied
    exact h.move rfl (htied.fetch responses completion)
      (fun e _ => h.tied e) fun _ _ _ _ r' hr' => by cases hr'
  | saved c hfetched hids =>
    have htied := h.tied c
    rw [hfetched] at htied
    have hrows := htied.mem_rows hids
    exact h.move rfl (htied.save hrows) (fun e _ => (h.tied e).without _)
      fun e _ r hr r' hr' => (h.tied e).ne_of_mem hr (hrows r' hr')
  | loaded c writes hsaved =>
    have htied := h.tied c
    rw [hsaved] at htied
    refine h.move rfl ⟨htied.known, htied.same, htied.gone, htied.documents⟩
      (fun e _ => h.tied e) fun e he r hr r' hr' => ?_
    apply h.apart e c he r hr r'
    rw [hsaved]
    exact hr'

theorem handOff_of_run {w : World} {events : List (ServiceEvent ι κ)}
    (hrun : (interleaving json config ι κ).Run (.start ι κ w) events s) :
    HandOff json s := by
  apply hrun.invariant
  · intro s event s' h hstep
    exact handOff_step h hstep
  · exact handOff_start w

/-! ## Leaving the table -/

/-- Only the removal of a cycle takes a row from the table, and the row is one
that the cycle processed. -/
theorem leaves_by_save (h : HandOff json s) {event : ServiceEvent ι κ}
    (hstep : (interleaving json config ι κ).Step s event s')
    {r : ConsumerQueueItem} (hr : r ∈ s.world.queue.rows)
    (hgone : r ∉ s'.world.queue.rows) :
    ∃ c responses lists, event = .save c ∧
      s'.cycle c = .saved responses lists ∧ r ∈ lists.processedUrls ∧
      ∃ d ∈ lists.shows, addedDocument json responses r = some d := by
  cases effect_of_step hstep with
  | inserted i hchecked => exact absurd (List.mem_append_left _ hr) hgone
  | @saved c responses lists hfetched hids =>
    have htied := h.tied c
    rw [hfetched] at htied
    have hrows := htied.mem_rows hids
    have hprocessed : r ∈ lists.processedUrls := by
      by_contra hnot
      exact hgone ((ConsumerQueue.mem_without hrows).mpr ⟨hr, hnot⟩)
    exact ⟨c, responses, lists, rfl, s.setCycle_self c _, hprocessed,
      htied.documents r hprocessed⟩
  -- the table is the same after every other step
  | _ => exact absurd hr hgone

/-- A removal that fails leaves the world as it is. -/
theorem world_of_failed {c : κ}
    (hstep : (interleaving json config ι κ).Step s (.save c) s')
    (hfailed : s'.cycle c = .failed) : s'.world = s.world := by
  cases effect_of_step hstep with
  | returned i hevent => rfl
  | failed e hcycle hevent => rfl
  | saved _ hfetched hids =>
    replace hfailed : (s.setCycle c (.saved _ _)).cycle c = .failed := hfailed
    rw [Service.setCycle_self] at hfailed
    cases hfailed

/-- A cycle that failed takes no further step. -/
theorem failed_of_step {c : κ} (hfailed : s.cycle c = .failed)
    {event : ServiceEvent ι κ}
    (hstep : (interleaving json config ι κ).Step s event s') :
    s'.cycle c = .failed ∧ ∀ writes, event ≠ .load c writes := by
  have hother : ∀ e p, s.cycle e ≠ .failed →
      (s.setCycle e p).cycle c = .failed := by
    intro e p he
    rw [s.setCycle_of_ne p fun hce => he (by rw [← hce]; exact hfailed)]
    exact hfailed
  cases effect_of_step hstep with
  | returned i hevent => exact ⟨hfailed, hevent c⟩
  | listed i forceLoad hidle hurls => exact ⟨hfailed, nofun⟩
  | found i hlisted hmissing => exact ⟨hfailed, nofun⟩
  | checked i hfound hstill => exact ⟨hfailed, nofun⟩
  | inserted i hchecked => exact ⟨hfailed, nofun⟩
  | read e hidle topTen => exact ⟨hother e _ (by rw [hidle]; nofun), nofun⟩
  | failed e hcycle hevent => exact ⟨hother e _ hcycle, hevent c⟩
  | fetched e responses hread completion =>
    exact ⟨hother e _ (by rw [hread]; nofun), nofun⟩
  | saved e hfetched hids =>
    exact ⟨hother e _ (by rw [hfetched]; nofun), nofun⟩
  | loaded e writes hsaved =>
    refine ⟨hother e _ (by rw [hsaved]; nofun), fun writes' he => ?_⟩
    cases he
    rw [hfailed] at hsaved
    cases hsaved

theorem failed_of_run {c : κ} (hfailed : s.cycle c = .failed)
    {events : List (ServiceEvent ι κ)}
    (hrun : (interleaving json config ι κ).Run s events s') :
    s'.cycle c = .failed ∧ ∀ writes, .load c writes ∉ events := by
  induction hrun with
  | nil => exact ⟨hfailed, fun writes h => by cases h⟩
  | snoc _ hstep ih =>
    rcases ih with ⟨hcycle, hevents⟩
    obtain ⟨hcycle', hevent⟩ := failed_of_step hcycle hstep
    refine ⟨hcycle', fun writes h => ?_⟩
    rcases List.mem_append.mp h with hold | hlast
    · exact hevents writes hold
    · exact hevent writes (List.mem_singleton.mp hlast).symm

/-- In every interleaving from a start: no row is processed by two cycles that
reach `LoadData`, a row leaves the table only by the removal of a cycle that
has its document in the shows, and a cycle whose removal fails changes nothing
and never reaches `LoadData`. -/
theorem handed_over_once {w : World} {events : List (ServiceEvent ι κ)}
    (hrun : (interleaving json config ι κ).Run (.start ι κ w) events s) :
    (∀ c c', c ≠ c' → ∀ r ∈ (s.cycle c).removed,
        ∀ r' ∈ (s.cycle c').removed, r.Id ≠ r'.Id) ∧
      (∀ event s', (interleaving json config ι κ).Step s event s' →
        ∀ r ∈ s.world.queue.rows, r ∉ s'.world.queue.rows →
          ∃ c responses lists, event = .save c ∧
            s'.cycle c = .saved responses lists ∧ r ∈ lists.processedUrls ∧
            ∃ d ∈ lists.shows, addedDocument json responses r = some d) ∧
      ∀ c s', (interleaving json config ι κ).Step s (.save c) s' →
        s'.cycle c = .failed → s'.world = s.world ∧
          ∀ later s'', (interleaving json config ι κ).Run s' later s'' →
            ∀ writes, .load c writes ∉ later := by
  have h := handOff_of_run hrun
  refine ⟨h.apart, fun event s' hstep r hr hgone => ?_,
    fun c s' hstep hfailed => ?_⟩
  · exact leaves_by_save h hstep hr hgone
  · refine ⟨world_of_failed hstep hfailed, fun later s'' hlater => ?_⟩
    exact (failed_of_run hfailed hlater).2

end HandOff

/-! ### Two cycles with one row -/

/-- One URL is queued. -/
def sharedRow : World := .queued [showUrl "1"]

def sharedLists : Fetched :=
  fetchedOf twoBodies twoResponses (.inOrder sharedRow.queue.rows)

/-- Both cycles have read and fetched the row. -/
def bothFetched : Service Unit Bool :=
  ((((Service.start Unit Bool sharedRow).setCycle true
    (.read sharedRow.queue.rows)).setCycle false
    (.read sharedRow.queue.rows)).setCycle true
    (.fetched twoResponses sharedLists)).setCycle false
    (.fetched twoResponses sharedLists)

/-- One cycle removes the row, and the removal of the other one fails. -/
theorem handed_over_once_two :
    (bothFetched.save true twoResponses sharedLists).world.queue.rows = [] ∧
      ((bothFetched.save true twoResponses sharedLists).save false
          twoResponses sharedLists).world
        = (bothFetched.save true twoResponses sharedLists).world := by
  have hfetched : (interleaving twoBodies { index := "tv" } Unit Bool).Run
      (.start Unit Bool sharedRow)
      [.read true, .read false, .fetch true twoResponses,
        .fetch false twoResponses] bothFetched := by
    refine .cons ⟨rfl, .first 20 _, rfl⟩ <| .cons ⟨rfl, .first 20 _, rfl⟩ ?_
    exact .cons ⟨_, rfl, .inOrder _, rfl⟩ <|
      .single ⟨_, rfl, .inOrder _, rfl⟩
  have hfirst : (interleaving twoBodies { index := "tv" } Unit Bool).Step
      bothFetched (.save true)
      (bothFetched.save true twoResponses sharedLists) :=
    ⟨_, _, rfl, rfl⟩
  have hsecond : (interleaving twoBodies { index := "tv" } Unit Bool).Step
      (bothFetched.save true twoResponses sharedLists) (.save false)
      ((bothFetched.save true twoResponses sharedLists).save false
        twoResponses sharedLists) :=
    ⟨_, _, rfl, rfl⟩
  obtain ⟨_, _, hfails⟩ := handed_over_once (hfetched.snoc hfirst)
  exact ⟨rfl, (hfails false _ hsecond rfl).1⟩

end TvMazeScraper
