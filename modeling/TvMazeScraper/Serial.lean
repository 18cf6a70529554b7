import TvMazeScraper.LockedCycles

/-!
# Cycles one after the other

`serial` is the plain machine of the service: a whole `ConsumeLogic` in one
step, and between two cycles the inserts of the `LoadUrls` calls.  A run of it
is compared with a run in which the calls overlap.

* `World.insertAll`: the inserts that come in while a cycle is under way.
  They can move behind it, because the cycle knows its rows by their ids and
  new rows have new ids (`World.insertAll_without`).
* `Serialization`: what ties the calls of a serial run to the events and to
  the inserts of the other run.
-/

namespace TvMazeScraper

open Machine

/-- A whole step of the serial machine: the insert of a `LoadUrls` call, or a
cycle. -/
inductive SerialCall (ι κ : Type) where
  | insert (i : ι) (urls : List String)
  | cycle (c : κ) (responses : Responses) (writes : WriteOutcomes)

/-- Inserts and whole cycles, one after the other. -/
def serial (json : JsonConvert) (config : ELKConfiguration) (ι κ : Type) :
    Machine World (SerialCall ι κ) where
  Step w call w' :=
    match call with
    | .insert _ urls => w' = { w with queue := w.queue.addRange urls }
    | .cycle _ responses writes => ∃ input : CycleInput w.queue.rows,
        input.responses = responses ∧ input.writes = writes ∧
          w' = consumeLogic json config w input

/-! ## The inserts that come behind a cycle -/

/-- The inserts of some calls. -/
def World.insertAll {ι : Type} (w : World) :
    List (ι × List String) → World
  | [] => w
  | (_, urls) :: inserts =>
    World.insertAll { w with queue := w.queue.addRange urls } inserts

/-- The steps of these inserts. -/
def insertCalls {ι κ : Type} (inserts : List (ι × List String)) :
    List (SerialCall ι κ) :=
  inserts.map fun insert => .insert insert.1 insert.2

section Inserts

variable {json : JsonConvert} {config : ELKConfiguration} {ι κ : Type}

theorem run_inserts (json : JsonConvert) (config : ELKConfiguration)
    (inserts : List (ι × List String)) : ∀ w : World,
    (serial json config ι κ).Run w (insertCalls inserts)
      (w.insertAll inserts) := by
  induction inserts with
  | nil =>
    intro w
    exact .nil w
  | cons insert inserts ih =>
    intro w
    exact (ih _).cons rfl

theorem World.insertAll_concat (i : ι) (urls : List String)
    (inserts : List (ι × List String)) : ∀ w : World,
    w.insertAll (inserts ++ [(i, urls)])
      = { w.insertAll inserts with
          queue := (w.insertAll inserts).queue.addRange urls } := by
  induction inserts with
  | nil =>
    intro w
    rfl
  | cons insert inserts ih =>
    intro w
    exact ih _

@[simp] theorem World.insertAll_storage (inserts : List (ι × List String)) :
    ∀ w : World, (w.insertAll inserts).storage = w.storage := by
  induction inserts with
  | nil =>
    intro w
    rfl
  | cons insert inserts ih =>
    intro w
    exact ih _

theorem World.rows_subset_insertAll (inserts : List (ι × List String)) :
    ∀ w : World, w.queue.rows ⊆ (w.insertAll inserts).queue.rows := by
  induction inserts with
  | nil =>
    intro w
    exact List.Subset.refl _
  | cons insert inserts ih =>
    intro w
    show w.queue.rows
      ⊆ (World.insertAll { w with queue := w.queue.addRange insert.2 }
        inserts).queue.rows
    have hrest := ih { w with queue := w.queue.addRange insert.2 }
    exact fun r hr => hrest (List.mem_append_left _ hr)

/-- A cycle that removes its rows after the inserts comes to the same as one
that removes them before. -/
theorem World.insertAll_without {items : List ConsumerQueueItem}
    (storage : Storage) (inserts : List (ι × List String)) : ∀ w : World,
    (∀ r ∈ items, r.Id < w.queue.nextId) →
    World.insertAll { queue := w.queue.without items, storage := storage }
        inserts
      = { queue := (w.insertAll inserts).queue.without items
          storage := storage } := by
  induction inserts with
  | nil =>
    intro w _
    rfl
  | cons insert inserts ih =>
    intro w hknown
    unfold World.insertAll
    rw [ConsumerQueue.without_addRange hknown]
    apply ih { w with queue := w.queue.addRange insert.2 }
    intro r hr
    have hlt := hknown r hr
    show r.Id < w.queue.nextId + insert.2.length
    omega

end Inserts

/-! ## The serial run of a run -/

namespace SerialCall

variable {ι κ : Type}

/-- The call that inserts, and its URLs. -/
def insert? : SerialCall ι κ → Option (ι × List String)
  | .insert i urls => some (i, urls)
  | .cycle _ _ _ => none

/-- The cycle that loads its shows, and the outcomes of its writes. -/
def loader? : SerialCall ι κ → Option (κ × WriteOutcomes)
  | .insert _ _ => none
  | .cycle c _ writes => some (c, writes)

@[simp] theorem filterMap_insert?_insertCalls
    (inserts : List (ι × List String)) :
    (insertCalls inserts : List (SerialCall ι κ)).filterMap insert?
      = inserts := by
  simp [insertCalls, insert?, List.filterMap_map, Function.comp_def]

@[simp] theorem filterMap_loader?_insertCalls
    (inserts : List (ι × List String)) :
    (insertCalls inserts : List (SerialCall ι κ)).filterMap loader? = [] := by
  simp [insertCalls, loader?, List.filterMap_map]

end SerialCall

/-- The cycle that loads its shows, and the outcomes of its writes. -/
def LockedEvent.loader? {ι π : Type} :
    LockedEvent ι π → Option (Invocation π × WriteOutcomes)
  | .call (.load c writes) => some (c, writes)
  | _ => none

/-- The call whose insert an event is, with the URLs that it inserts. -/
def LockedService.inserts {ι π : Type} (s : LockedService ι π) :
    LockedEvent ι π → List (ι × List String)
  | .call event => s.service.inserts event
  | .job _ => []

/-- The serial calls have the inserts of the steps and the cycles of the
events, each in their order.  Every cycle has the responses that it got. -/
structure Serialization {ι π : Type} (events : List (LockedEvent ι π))
    (inserted : List (ι × List String))
    (calls : List (SerialCall ι (Invocation π))) : Prop where
  inserts : calls.filterMap SerialCall.insert? = inserted
  loaders : calls.filterMap SerialCall.loader?
    = events.filterMap LockedEvent.loader?
  responses : ∀ c responses writes, .cycle c responses writes ∈ calls →
    .call (.fetch c responses) ∈ events

namespace Serialization

variable {ι π : Type} {events : List (LockedEvent ι π)}
  {inserted : List (ι × List String)}
  {calls before after : List (SerialCall ι (Invocation π))}

theorem nil : Serialization ([] : List (LockedEvent ι π)) [] [] where
  inserts := rfl
  loaders := rfl
  responses := by simp

/-- An event without a load.  What it inserts comes behind everything
else. -/
theorem insert (h : Serialization events inserted calls)
    {event : LockedEvent ι π} (hloader : event.loader? = none)
    (new : List (ι × List String)) :
    Serialization (events ++ [event]) (inserted ++ new)
      (calls ++ insertCalls new) where
  inserts := by
    rw [List.filterMap_append, h.inserts,
      SerialCall.filterMap_insert?_insertCalls]
  loaders := by
    rw [List.filterMap_append, List.filterMap_append, h.loaders,
      SerialCall.filterMap_loader?_insertCalls]
    simp [hloader]
  responses := by
    intro c responses writes hmem
    rcases List.mem_append.mp hmem with hold | hlast
    · exact List.mem_append_left _ (h.responses c responses writes hold)
    · obtain ⟨_, _, hcall⟩ := List.mem_map.mp hlast
      cases hcall

/-- An event without an insert and without a load. -/
theorem silent (h : Serialization events inserted calls)
    {event : LockedEvent ι π} (hloader : event.loader? = none) :
    Serialization (events ++ [event]) inserted calls := by
  simpa [insertCalls] using h.insert hloader []

/-- A cycle that loads its shows is put before the inserts that came in while
it was under way. -/
theorem load {inserts : List (ι × List String)}
    (h : Serialization events inserted (before ++ insertCalls inserts))
    {c : Invocation π} {responses : Responses}
    (hfetch : .call (.fetch c responses) ∈ events) (writes : WriteOutcomes) :
    Serialization (events ++ [.call (.load c writes)]) inserted
      (before ++ .cycle c responses writes :: insertCalls inserts) where
  inserts := by
    rw [← h.inserts, List.filterMap_append, List.filterMap_append]
    rfl
  loaders := by
    have hold := h.loaders
    rw [List.filterMap_append, SerialCall.filterMap_loader?_insertCalls,
      List.append_nil] at hold
    rw [List.filterMap_append, List.filterMap_append, ← hold]
    show List.filterMap SerialCall.loader? before ++
        (c, writes) :: (insertCalls inserts).filterMap SerialCall.loader?
      = List.filterMap SerialCall.loader? before ++ [(c, writes)]
    rw [SerialCall.filterMap_loader?_insertCalls]
  responses := by
    intro c' responses' writes' hmem
    refine List.mem_append_left _ ?_
    rcases List.mem_append.mp hmem with hold | hrest
    · exact h.responses c' responses' writes' (List.mem_append_left _ hold)
    · rcases List.mem_cons.mp hrest with hcycle | hinsert
      · cases hcycle
        exact hfetch
      · exact h.responses c' responses' writes'
          (List.mem_append_right _ hinsert)

end Serialization

end TvMazeScraper
