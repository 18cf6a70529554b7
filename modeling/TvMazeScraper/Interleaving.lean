import TvMazeScraper.Lib.Machine
import TvMazeScraper.Consumer

/-!
# Calls that overlap

Any number of `LoadUrls` calls and of `ConsumeLogic` cycles, in any number of
processes.  Each call is split where another one can come in between: at the
requests and at the transactions.  The lock of the background job does not
cover `LoadUrls`, and it does not last as long as a cycle, so nothing orders
the steps of different calls.

* `interleaving`: the steps.
* `Effect` and `effect_of_step`: everything that a step can do.
* `load_step`: what a load keeps while other calls take steps.
* `cycle_of_step` and `cycle_of_run`: a cycle stays where it is while other
  calls take steps.
* `run_loadUrls` and `run_cycle`: a call whose steps follow each other does
  what `loadUrls` and `consumeLogic` say.
-/

namespace TvMazeScraper

open Machine

/-- Where a `LoadUrls` call is: `GetAllShowsUrl` has returned, then
`FindMissingUrls`, then the queue was counted, and the insert comes last. -/
inductive LoadPhase where
  | idle
  | listed (forceLoad : Bool) (urlsAll : List (Int32 × String))
  | found (forceLoad : Bool) (urlsMissing : List String)
  | checked (forceLoad : Bool) (urlsMissing : List String)
  | returned

/-- Where a cycle is: it has taken its rows, its tasks have ended, the removal
of the processed rows is saved, or `LoadData` has returned.  The responses
stay with the cycle for the sake of the statements. -/
inductive CyclePhase where
  | idle
  | read (topTen : List ConsumerQueueItem)
  | fetched (responses : Responses) (fetched : Fetched)
  | saved (responses : Responses) (fetched : Fetched)
  | loaded (responses : Responses) (fetched : Fetched)
  | failed

/-- The world and the calls that are under way. -/
structure Service (ι κ : Type) where
  world : World
  load : ι → LoadPhase
  cycle : κ → CyclePhase

/-- The steps of the calls, with what the external calls come to. -/
inductive ServiceEvent (ι κ : Type) where
  | list (i : ι) (forceLoad : Bool) (listing : HttpOutcome)
  | findMissing (i : ι) (reads : ReadOutcomes)
  | check (i : ι)
  | insert (i : ι)
  | read (c : κ)
  | fetch (c : κ) (responses : Responses)
  | save (c : κ)
  | load (c : κ) (writes : WriteOutcomes)

/-- The cycle that takes the step of an event. -/
def ServiceEvent.cycle? {ι κ : Type} : ServiceEvent ι κ → Option κ
  | .read c => some c
  | .fetch c _ => some c
  | .save c => some c
  | .load c _ => some c
  | _ => none

/-- The call whose insert an event is, with the URLs that it inserts. -/
def Service.inserts {ι κ : Type} (s : Service ι κ) :
    ServiceEvent ι κ → List (ι × List String)
  | .insert i =>
    match s.load i with
    | .checked _ urlsMissing => [(i, urlsMissing)]
    | _ => []
  | _ => []

/-- No call has begun. -/
def Service.start (ι κ : Type) (w : World) : Service ι κ where
  world := w
  load _ := .idle
  cycle _ := .idle

section Interleaving

variable {ι κ : Type} [DecidableEq ι] [DecidableEq κ]

def Service.setLoad (s : Service ι κ) (i : ι) (p : LoadPhase) :
    Service ι κ :=
  { s with load := Function.update s.load i p }

def Service.setCycle (s : Service ι κ) (c : κ) (p : CyclePhase) :
    Service ι κ :=
  { s with cycle := Function.update s.cycle c p }

/-- `GetAllShowsUrl`. -/
def Service.list (json : JsonConvert) (s : Service ι κ) (i : ι)
    (forceLoad : Bool) (listing : HttpOutcome) : Service ι κ :=
  match getAllShowsUrl json listing with
  | .error _ => s.setLoad i .returned
  | .ok urlsAll => s.setLoad i (.listed forceLoad urlsAll)

/-- `FindMissingUrls`, which reads the index at one point in time.  Its
searches are taken to see every write before them. -/
def Service.findMissing (s : Service ι κ) (i : ι) (reads : ReadOutcomes)
    (forceLoad : Bool) (urlsAll : List (Int32 × String)) : Service ι κ :=
  match findMissingUrls reads s.world.storage.shows urlsAll with
  | .error _ => s.setLoad i .returned
  | .ok urlsMissing => s.setLoad i (.found forceLoad urlsMissing)

/-- The test of `ConsumerQueue.Count()`. -/
def Service.check (s : Service ι κ) (i : ι) (forceLoad : Bool)
    (urlsMissing : List String) : Service ι κ :=
  if stillProcessing forceLoad s.world.queue then s.setLoad i .returned
  else s.setLoad i (.checked forceLoad urlsMissing)

/-- `AddRange` and `SaveChanges`. -/
def Service.insert (s : Service ι κ) (i : ι) (urlsMissing : List String) :
    Service ι κ :=
  { s.setLoad i .returned with
    world := { s.world with queue := s.world.queue.addRange urlsMissing } }

/-- The end of the tasks of a cycle. -/
def Service.fetch (json : JsonConvert) (s : Service ι κ) (c : κ)
    (responses : Responses) {topTen : List ConsumerQueueItem}
    (completion : Completion topTen) : Service ι κ :=
  match whenAll json responses completion with
  | .error _ => s.setCycle c .failed
  | .ok fetched => s.setCycle c (.fetched responses fetched)

/-- `RemoveRange` and `SaveChanges`. -/
def Service.save (s : Service ι κ) (c : κ) (responses : Responses)
    (fetched : Fetched) : Service ι κ :=
  match s.world.queue.removeRange fetched.processedUrls with
  | .error _ => s.setCycle c .failed
  | .ok queue =>
    { s.setCycle c (.saved responses fetched) with
      world := { s.world with queue := queue } }

/-- `LoadData`. -/
def Service.loadData (json : JsonConvert) (config : ELKConfiguration)
    (s : Service ι κ) (c : κ) (writes : WriteOutcomes)
    (responses : Responses) (fetched : Fetched) : Service ι κ :=
  { s.setCycle c (.loaded responses fetched) with
    world :=
      { s.world with
        storage := (TvMazeScraper.loadData json config writes fetched.shows
          s.world.storage).1 } }

/-- The steps of all calls, in any order. -/
def interleaving (json : JsonConvert) (config : ELKConfiguration)
    (ι κ : Type) [DecidableEq ι] [DecidableEq κ] :
    Machine (Service ι κ) (ServiceEvent ι κ) where
  Step s event s' :=
    match event with
    | .list i forceLoad listing => s.load i = .idle ∧
        s' = s.list json i forceLoad listing
    | .findMissing i reads => ∃ forceLoad urlsAll,
        s.load i = .listed forceLoad urlsAll ∧
          s' = s.findMissing i reads forceLoad urlsAll
    | .check i => ∃ forceLoad urlsMissing,
        s.load i = .found forceLoad urlsMissing ∧
          s' = s.check i forceLoad urlsMissing
    | .insert i => ∃ forceLoad urlsMissing,
        s.load i = .checked forceLoad urlsMissing ∧
          s' = s.insert i urlsMissing
    | .read c => s.cycle c = .idle ∧ ∃ topTen : Take 20 s.world.queue.rows,
        s' = s.setCycle c (.read topTen.picked)
    | .fetch c responses => ∃ topTen, s.cycle c = .read topTen ∧
        ∃ completion : Completion topTen,
          s' = s.fetch json c responses completion
    | .save c => ∃ responses fetched,
        s.cycle c = .fetched responses fetched ∧
          s' = s.save c responses fetched
    | .load c writes => ∃ responses fetched,
        s.cycle c = .saved responses fetched ∧
          s' = s.loadData json config c writes responses fetched

/-! ## Phases -/

omit [DecidableEq κ] in
@[simp] theorem Service.setLoad_self (s : Service ι κ) (i : ι)
    (p : LoadPhase) : (s.setLoad i p).load i = p := by
  show Function.update s.load i p i = p
  rw [Function.update_self]

omit [DecidableEq κ] in
theorem Service.setLoad_of_ne (s : Service ι κ) {i j : ι} (p : LoadPhase)
    (h : j ≠ i) : (s.setLoad i p).load j = s.load j := by
  show Function.update s.load i p j = s.load j
  rw [Function.update_of_ne h]

omit [DecidableEq ι] in
@[simp] theorem Service.setCycle_self (s : Service ι κ) (c : κ)
    (p : CyclePhase) : (s.setCycle c p).cycle c = p := by
  show Function.update s.cycle c p c = p
  rw [Function.update_self]

omit [DecidableEq ι] in
theorem Service.setCycle_of_ne (s : Service ι κ) {c e : κ} (p : CyclePhase)
    (h : e ≠ c) : (s.setCycle c p).cycle e = s.cycle e := by
  show Function.update s.cycle c p e = s.cycle e
  rw [Function.update_of_ne h]

omit [DecidableEq κ] in
/-- What holds of every load, after one of them moved. -/
theorem Service.forall_setLoad {s : Service ι κ} {i : ι} {p : LoadPhase}
    {P : LoadPhase → Prop} (hp : P p) (h : ∀ j, P (s.load j)) (j : ι) :
    P ((s.setLoad i p).load j) := by
  by_cases hj : j = i
  · rw [hj, s.setLoad_self]
    exact hp
  · rw [s.setLoad_of_ne p hj]
    exact h j

omit [DecidableEq κ] in
/-- A phase that only one load is in, after one of them moved. -/
theorem Service.alone_setLoad {s : Service ι κ} {i : ι} {p : LoadPhase}
    {P : LoadPhase → Prop}
    (h : ∀ j k, P (s.load j) → P (s.load k) → j = k)
    (hp : P p → P (s.load i) ∨ ∀ j, ¬ P (s.load j)) (j k : ι)
    (hj : P ((s.setLoad i p).load j)) (hk : P ((s.setLoad i p).load k)) :
    j = k := by
  have hother : ∀ j, j ≠ i → P ((s.setLoad i p).load j) → ¬ P p := by
    intro j hj hphase hnew
    rw [s.setLoad_of_ne p hj] at hphase
    rcases hp hnew with hi | hnone
    · exact hj (h j i hphase hi)
    · exact hnone j hphase
  by_cases hji : j = i
  · by_cases hki : k = i
    · rw [hji, hki]
    · rw [hji, s.setLoad_self] at hj
      exact absurd hj (hother k hki hk)
  · by_cases hki : k = i
    · rw [hki, s.setLoad_self] at hk
      exact absurd hk (hother j hji hj)
    · rw [s.setLoad_of_ne p hji] at hj
      rw [s.setLoad_of_ne p hki] at hk
      exact h j k hj hk

omit [DecidableEq ι] in
/-- What holds of every cycle, after one of them moved. -/
theorem Service.forall_setCycle {s : Service ι κ} {c : κ} {p : CyclePhase}
    {P : CyclePhase → Prop} (hp : P p) (h : ∀ e, P (s.cycle e)) (e : κ) :
    P ((s.setCycle c p).cycle e) := by
  by_cases he : e = c
  · rw [he, s.setCycle_self]
    exact hp
  · rw [s.setCycle_of_ne p he]
    exact h e

/-! ## The steps of a load that goes on -/

section Steps

variable {json : JsonConvert} {config : ELKConfiguration} {s : Service ι κ}
  {i : ι} {forceLoad : Bool} {urlsAll : List (Int32 × String)}
  {urlsMissing : List String}

theorem step_list {listing : HttpOutcome} (hidle : s.load i = .idle)
    (hurls : getAllShowsUrl json listing = .ok urlsAll) :
    (interleaving json config ι κ).Step s (.list i forceLoad listing)
      (s.setLoad i (.listed forceLoad urlsAll)) := by
  refine ⟨hidle, ?_⟩
  unfold Service.list
  rw [hurls]

theorem step_findMissing {reads : ReadOutcomes}
    (hlisted : s.load i = .listed forceLoad urlsAll)
    (hmissing : findMissingUrls reads s.world.storage.shows urlsAll
      = .ok urlsMissing) :
    (interleaving json config ι κ).Step s (.findMissing i reads)
      (s.setLoad i (.found forceLoad urlsMissing)) := by
  refine ⟨forceLoad, urlsAll, hlisted, ?_⟩
  unfold Service.findMissing
  rw [hmissing]

theorem step_check (hfound : s.load i = .found forceLoad urlsMissing)
    (hstill : stillProcessing forceLoad s.world.queue = false) :
    (interleaving json config ι κ).Step s (.check i)
      (s.setLoad i (.checked forceLoad urlsMissing)) := by
  refine ⟨forceLoad, urlsMissing, hfound, ?_⟩
  unfold Service.check
  rw [hstill]
  rfl

theorem step_insert (hchecked : s.load i = .checked forceLoad urlsMissing) :
    (interleaving json config ι κ).Step s (.insert i)
      (s.insert i urlsMissing) :=
  ⟨forceLoad, urlsMissing, hchecked, rfl⟩

omit [DecidableEq ι] [DecidableEq κ] in
theorem inserts_of_checked
    (hchecked : s.load i = .checked forceLoad urlsMissing) :
    s.inserts (.insert i) = [(i, urlsMissing)] := by
  simp only [Service.inserts, hchecked]

end Steps

/-! ## What a step can do -/

/-- The effects of the steps, with the branches of each function taken
apart. -/
inductive Effect (json : JsonConvert) (config : ELKConfiguration)
    (s : Service ι κ) : ServiceEvent ι κ → Service ι κ → Prop
  | returned {event : ServiceEvent ι κ} (i : ι)
      (hevent : ∀ c writes, event ≠ .load c writes) :
      Effect json config s event (s.setLoad i .returned)
  | listed (i : ι) (forceLoad : Bool) {listing : HttpOutcome}
      {urlsAll : List (Int32 × String)} (hidle : s.load i = .idle)
      (hurls : getAllShowsUrl json listing = .ok urlsAll) :
      Effect json config s (.list i forceLoad listing)
        (s.setLoad i (.listed forceLoad urlsAll))
  | found (i : ι) {reads : ReadOutcomes} {forceLoad : Bool}
      {urlsAll : List (Int32 × String)} {urlsMissing : List String}
      (hlisted : s.load i = .listed forceLoad urlsAll)
      (hmissing : findMissingUrls reads s.world.storage.shows urlsAll
        = .ok urlsMissing) :
      Effect json config s (.findMissing i reads)
        (s.setLoad i (.found forceLoad urlsMissing))
  | checked (i : ι) {forceLoad : Bool} {urlsMissing : List String}
      (hfound : s.load i = .found forceLoad urlsMissing)
      (hstill : stillProcessing forceLoad s.world.queue = false) :
      Effect json config s (.check i)
        (s.setLoad i (.checked forceLoad urlsMissing))
  | inserted (i : ι) {forceLoad : Bool} {urlsMissing : List String}
      (hchecked : s.load i = .checked forceLoad urlsMissing) :
      Effect json config s (.insert i) (s.insert i urlsMissing)
  | read (c : κ) (hidle : s.cycle c = .idle)
      (topTen : Take 20 s.world.queue.rows) :
      Effect json config s (.read c) (s.setCycle c (.read topTen.picked))
  | failed {event : ServiceEvent ι κ} (c : κ) (hcycle : s.cycle c ≠ .failed)
      (hevent : ∀ e writes, event ≠ .load e writes) :
      Effect json config s event (s.setCycle c .failed)
  | fetched (c : κ) (responses : Responses) {topTen : List ConsumerQueueItem}
      (hread : s.cycle c = .read topTen) (completion : Completion topTen) :
      Effect json config s (.fetch c responses)
        (s.setCycle c
          (.fetched responses (fetchedOf json responses completion)))
  | saved (c : κ) {responses : Responses} {lists : Fetched}
      (hfetched : s.cycle c = .fetched responses lists)
      (hrows : ∀ r ∈ lists.processedUrls,
        r.Id ∈ s.world.queue.rows.map ConsumerQueueItem.Id) :
      Effect json config s (.save c)
        { s.setCycle c (.saved responses lists) with
          world := { s.world with
            queue := s.world.queue.without lists.processedUrls } }
  | loaded (c : κ) (writes : WriteOutcomes) {responses : Responses}
      {lists : Fetched} (hsaved : s.cycle c = .saved responses lists) :
      Effect json config s (.load c writes)
        (s.loadData json config c writes responses lists)

/-- Everything that a step can do. -/
theorem effect_of_step {json : JsonConvert} {config : ELKConfiguration}
    {s s' : Service ι κ} {event : ServiceEvent ι κ}
    (hstep : (interleaving json config ι κ).Step s event s') :
    Effect json config s event s' := by
  cases event with
  | list i forceLoad listing =>
    rcases hstep with ⟨hidle, rfl⟩
    unfold Service.list
    cases hurls : getAllShowsUrl json listing with
    | error e => exact .returned i nofun
    | ok urlsAll => exact .listed i forceLoad hidle hurls
  | findMissing i reads =>
    rcases hstep with ⟨forceLoad, urlsAll, hlisted, rfl⟩
    unfold Service.findMissing
    cases hmissing : findMissingUrls reads s.world.storage.shows urlsAll with
    | error e => exact .returned i nofun
    | ok urlsMissing => exact .found i hlisted hmissing
  | check i =>
    rcases hstep with ⟨forceLoad, urlsMissing, hfound, rfl⟩
    unfold Service.check
    split_ifs with hstill
    · exact .returned i nofun
    · exact .checked i hfound (by simpa using hstill)
  | insert i =>
    rcases hstep with ⟨forceLoad, urlsMissing, hchecked, rfl⟩
    exact .inserted i hchecked
  | read c =>
    rcases hstep with ⟨hidle, topTen, rfl⟩
    exact .read c hidle topTen
  | fetch c responses =>
    rcases hstep with ⟨topTen, hread, completion, rfl⟩
    unfold Service.fetch
    by_cases hfault : Faults json responses topTen
    · obtain ⟨e, he⟩ := whenAll_of_fault completion hfault
      rw [he]
      exact .failed c (by rw [hread]; nofun) nofun
    · rw [whenAll_of_no_fault completion hfault]
      exact .fetched c responses hread completion
  | save c =>
    rcases hstep with ⟨responses, lists, hfetched, rfl⟩
    unfold Service.save
    cases hqueue : s.world.queue.removeRange lists.processedUrls with
    | error e => exact .failed c (by rw [hfetched]; nofun) nofun
    | ok queue =>
      obtain ⟨hrows, rfl⟩ := ConsumerQueue.removeRange_ok hqueue
      exact .saved c hfetched hrows
  | load c writes =>
    rcases hstep with ⟨responses, lists, hsaved, rfl⟩
    exact .loaded c writes hsaved

/-- What the phases of a load hand on, a load keeps through the steps of all
calls. -/
theorem load_step {json : JsonConvert} {config : ELKConfiguration}
    {s s' : Service ι κ} {event : ServiceEvent ι κ} {P : LoadPhase → Prop}
    (hreturned : P .returned)
    (hlisted : ∀ forceLoad urlsAll, P .idle → P (.listed forceLoad urlsAll))
    (hfound : ∀ forceLoad urlsAll urlsMissing,
      P (.listed forceLoad urlsAll) → P (.found forceLoad urlsMissing))
    (hchecked : ∀ forceLoad urlsMissing,
      P (.found forceLoad urlsMissing) → P (.checked forceLoad urlsMissing))
    (hstep : (interleaving json config ι κ).Step s event s') {i : ι}
    (h : P (s.load i)) : P (s'.load i) := by
  have hset : ∀ j p, (P (s.load j) → P p) → P ((s.setLoad j p).load i) := by
    intro j p hp
    by_cases hi : i = j
    · subst hi
      rw [Service.setLoad_self]
      exact hp h
    · rw [Service.setLoad_of_ne s p hi]
      exact h
  cases effect_of_step hstep with
  | returned j hevent => exact hset j _ fun _ => hreturned
  | listed j forceLoad hidle hurls =>
    apply hset
    rw [hidle]
    exact hlisted _ _
  | found j hphase hmissing =>
    apply hset
    rw [hphase]
    exact hfound _ _ _
  | checked j hphase hstill =>
    apply hset
    rw [hphase]
    exact hchecked _ _
  | inserted j hphase => exact hset j _ fun _ => hreturned
  -- the steps of a cycle leave the loads alone
  | _ => exact h

/-- A step of a `LoadUrls` call leaves the cycles where they are, and only its
insert changes the world. -/
theorem cycle_of_load_step {json : JsonConvert} {config : ELKConfiguration}
    {s s' : Service ι κ} {event : ServiceEvent ι κ}
    (hstep : (interleaving json config ι κ).Step s event s')
    (hevent : event.cycle? = none) :
    s'.cycle = s.cycle ∧ ((∀ i, event ≠ .insert i) → s'.world = s.world) := by
  cases event with
  | list i forceLoad listing =>
    rcases hstep with ⟨_, rfl⟩
    unfold Service.list
    split <;> exact ⟨rfl, fun _ => rfl⟩
  | findMissing i reads =>
    rcases hstep with ⟨_, _, _, rfl⟩
    unfold Service.findMissing
    split <;> exact ⟨rfl, fun _ => rfl⟩
  | check i =>
    rcases hstep with ⟨_, _, _, rfl⟩
    unfold Service.check
    split <;> exact ⟨rfl, fun _ => rfl⟩
  | insert i =>
    rcases hstep with ⟨_, _, _, rfl⟩
    exact ⟨rfl, fun h => absurd rfl (h i)⟩
  | _ => cases hevent

/-- A step of the calls leaves the other cycles where they are. -/
theorem cycle_of_step {json : JsonConvert} {config : ELKConfiguration}
    {s s' : Service ι κ} {event : ServiceEvent ι κ}
    (hstep : (interleaving json config ι κ).Step s event s') {c : κ}
    (hevent : event.cycle? ≠ some c) : s'.cycle c = s.cycle c := by
  have hset : ∀ e p, event.cycle? = some e →
      (s.setCycle e p).cycle c = s.cycle c := by
    intro e p he
    apply s.setCycle_of_ne
    intro hc
    exact hevent (by rw [he, hc])
  cases event with
  | read e =>
    rcases hstep with ⟨_, _, rfl⟩
    exact hset e _ rfl
  | fetch e responses =>
    rcases hstep with ⟨_, _, completion, rfl⟩
    unfold Service.fetch
    split
    · exact hset e _ rfl
    · exact hset e _ rfl
  | save e =>
    rcases hstep with ⟨_, _, _, rfl⟩
    unfold Service.save
    split
    · exact hset e _ rfl
    · exact hset e _ rfl
  | load e writes =>
    rcases hstep with ⟨_, _, _, rfl⟩
    exact hset e _ rfl
  | _ => exact congrFun (cycle_of_load_step hstep rfl).1 c

/-- The other cycles, when the cycle `c` takes a step. -/
theorem other_of_step {json : JsonConvert} {config : ELKConfiguration}
    {s s' : Service ι κ} {event : ServiceEvent ι κ} {c : κ}
    (hc : event.cycle? = some c)
    (hstep : (interleaving json config ι κ).Step s event s') {i : κ}
    (hi : i ≠ c) : s'.cycle i = s.cycle i := by
  refine cycle_of_step hstep fun he => hi ?_
  exact Option.some.inj (he.symm.trans hc)

theorem cycle_of_run {json : JsonConvert} {config : ELKConfiguration}
    {s s' : Service ι κ} {events : List (ServiceEvent ι κ)}
    (hrun : (interleaving json config ι κ).Run s events s') {c : κ}
    (hevents : ∀ event ∈ events, event.cycle? ≠ some c) :
    s'.cycle c = s.cycle c := by
  induction hrun with
  | nil => rfl
  | snoc _ hstep ih =>
    rw [cycle_of_step hstep (hevents _ (by simp))]
    exact ih fun event hmem => hevents event (List.mem_append_left _ hmem)

/-! ## One call by itself -/

section Solo

variable (json : JsonConvert) (config : ELKConfiguration) {s : Service ι κ}

/-- The rest of a `LoadUrls` that has found the missing URLs. -/
theorem run_check {i : ι} {forceLoad : Bool} {urlsMissing : List String}
    (hfound : s.load i = .found forceLoad urlsMissing) :
    ∃ events s', (interleaving json config ι κ).Run s events s' ∧
      s'.world = if stillProcessing forceLoad s.world.queue then s.world
        else { s.world with
          queue := s.world.queue.addRange urlsMissing } := by
  have hcheck : (interleaving json config ι κ).Step s (.check i)
      (s.check i forceLoad urlsMissing) :=
    ⟨forceLoad, urlsMissing, hfound, rfl⟩
  unfold Service.check at hcheck
  by_cases hstill : stillProcessing forceLoad s.world.queue = true
  · rw [if_pos hstill] at hcheck ⊢
    exact ⟨_, _, .single hcheck, rfl⟩
  · rw [if_neg hstill] at hcheck ⊢
    have hinsert : (interleaving json config ι κ).Step
        (s.setLoad i (.checked forceLoad urlsMissing)) (.insert i) _ :=
      ⟨forceLoad, urlsMissing, s.setLoad_self i _, rfl⟩
    exact ⟨_, _, (Run.single hcheck).snoc hinsert, rfl⟩

/-- The rest of a `LoadUrls` that has the listed URLs. -/
theorem run_findMissing {i : ι} {forceLoad : Bool}
    {urlsAll : List (Int32 × String)}
    (hlisted : s.load i = .listed forceLoad urlsAll) (reads : ReadOutcomes) :
    ∃ events s', (interleaving json config ι κ).Run s events s' ∧
      s'.world =
        match findMissingUrls reads s.world.storage.shows urlsAll with
        | .error _ => s.world
        | .ok urlsMissing =>
          if stillProcessing forceLoad s.world.queue then s.world
          else { s.world with
            queue := s.world.queue.addRange urlsMissing } := by
  have hfind : (interleaving json config ι κ).Step s (.findMissing i reads)
      (s.findMissing i reads forceLoad urlsAll) :=
    ⟨forceLoad, urlsAll, hlisted, rfl⟩
  unfold Service.findMissing at hfind
  cases hmissing : findMissingUrls reads s.world.storage.shows urlsAll with
  | error e =>
    rw [hmissing] at hfind
    exact ⟨_, _, .single hfind, rfl⟩
  | ok urlsMissing =>
    rw [hmissing] at hfind
    obtain ⟨events, s', hrun, hworld⟩ := run_check json config
      (s.setLoad_self i (.found forceLoad urlsMissing))
    exact ⟨_, s', hrun.cons hfind, hworld⟩

/-- The steps of a `LoadUrls` that follow each other do what `loadUrls`
does. -/
theorem run_loadUrls {i : ι} (hidle : s.load i = .idle) (forceLoad : Bool)
    (listing : HttpOutcome) (reads : ReadOutcomes) :
    ∃ events s', (interleaving json config ι κ).Run s events s' ∧
      s'.world = (loadUrls json forceLoad listing reads s.world).1 := by
  have hlist : (interleaving json config ι κ).Step s
      (.list i forceLoad listing) (s.list json i forceLoad listing) :=
    ⟨hidle, rfl⟩
  unfold Service.list at hlist
  unfold loadUrls missingUrls
  cases hurls : getAllShowsUrl json listing with
  | error e =>
    rw [hurls] at hlist
    exact ⟨_, _, .single hlist, rfl⟩
  | ok urlsAll =>
    rw [hurls] at hlist
    obtain ⟨events, s', hrun, hworld⟩ := run_findMissing json config
      (s.setLoad_self i (.listed forceLoad urlsAll)) reads
    refine ⟨_, s', hrun.cons hlist, ?_⟩
    rw [hworld]
    show (match findMissingUrls reads s.world.storage.shows urlsAll with
      | .error _ => s.world
      | .ok urlsMissing =>
        if stillProcessing forceLoad s.world.queue then s.world
        else { s.world with
          queue := s.world.queue.addRange urlsMissing }) =
      (match findMissingUrls reads s.world.storage.shows urlsAll with
      | .error e => (s.world, Except.error e)
      | .ok urlsMissing =>
        if stillProcessing forceLoad s.world.queue then (s.world, .ok ())
        else ({ s.world with
          queue := s.world.queue.addRange urlsMissing }, .ok ())).1
    cases findMissingUrls reads s.world.storage.shows urlsAll with
    | error e => rfl
    | ok urlsMissing => split_ifs <;> rfl

/-- The rest of a cycle whose tasks have ended. -/
theorem run_save {c : κ} {responses : Responses} {fetched : Fetched}
    (hfetched : s.cycle c = .fetched responses fetched)
    (writes : WriteOutcomes) :
    ∃ events s', (interleaving json config ι κ).Run s events s' ∧
      s'.world =
        match s.world.queue.removeRange fetched.processedUrls with
        | .error _ => s.world
        | .ok queue =>
          { queue := queue
            storage := (loadData json config writes fetched.shows
              s.world.storage).1 } := by
  have hsave : (interleaving json config ι κ).Step s (.save c)
      (s.save c responses fetched) :=
    ⟨responses, fetched, hfetched, rfl⟩
  unfold Service.save at hsave
  cases hqueue : s.world.queue.removeRange fetched.processedUrls with
  | error e =>
    rw [hqueue] at hsave
    exact ⟨_, _, .single hsave, rfl⟩
  | ok queue =>
    rw [hqueue] at hsave
    have hload : (interleaving json config ι κ).Step
        { s.setCycle c (.saved responses fetched) with
          world := { s.world with queue := queue } } (.load c writes) _ :=
      ⟨responses, fetched, s.setCycle_self c _, rfl⟩
    exact ⟨_, _, (Run.single hsave).snoc hload, rfl⟩

/-- The steps of a cycle that follow each other do what `consumeLogic`
does. -/
theorem run_cycle {c : κ} (hidle : s.cycle c = .idle)
    (input : CycleInput s.world.queue.rows) :
    ∃ events s', (interleaving json config ι κ).Run s events s' ∧
      s'.world = consumeLogic json config s.world input := by
  have hread : (interleaving json config ι κ).Step s (.read c)
      (s.setCycle c (.read input.topTen.picked)) :=
    ⟨hidle, input.topTen, rfl⟩
  have hfetch : (interleaving json config ι κ).Step
      (s.setCycle c (.read input.topTen.picked)) (.fetch c input.responses)
      (Service.fetch json (s.setCycle c (.read input.topTen.picked)) c
        input.responses input.completion) :=
    ⟨_, s.setCycle_self c _, input.completion, rfl⟩
  unfold Service.fetch at hfetch
  unfold consumeLogic consumeLogicOn
  cases hfetched : whenAll json input.responses input.completion with
  | error e =>
    rw [hfetched] at hfetch
    exact ⟨_, _, (Run.single hread).snoc hfetch, rfl⟩
  | ok fetched =>
    rw [hfetched] at hfetch
    obtain ⟨events, s', hrun, hworld⟩ := run_save json config
      (Service.setCycle_self (s.setCycle c (.read input.topTen.picked)) c
        (.fetched input.responses fetched)) input.writes
    refine ⟨_, s', (hrun.cons hfetch).cons hread, hworld.trans ?_⟩
    show (match s.world.queue.removeRange fetched.processedUrls with
      | .error _ => s.world
      | .ok queue => _) = _
    cases hremove : s.world.queue.removeRange fetched.processedUrls with
    | error e => simp only [hremove]
    | ok queue =>
      simp only [hremove]
      rfl

end Solo

end Interleaving

end TvMazeScraper
