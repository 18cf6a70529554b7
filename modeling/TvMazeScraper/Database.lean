import Mathlib.Data.List.Nodup
import TvMazeScraper.Models

/-!
# The two tables

`RTLConsumerContext` holds the queue of URLs and the rejected documents.

* `ConsumerQueue` keeps its rows in the order of their ids, and every id is
  below the next one that the identity column gives out.  Both are fields, so
  a queue with two rows of one id can not be built.  `addRange` and
  `removeRange` stand for the calls of the same name followed by
  `SaveChanges`.
* `UnprocessedTable` is `UnprocessedEpisodesDetails` with its primary key as
  a field.  `DbContext` adds the keys that the context of one scope tracks.
-/

namespace TvMazeScraper

/-! ## The queue -/

structure ConsumerQueue where
  rows : List ConsumerQueueItem
  nextId : Nat
  sorted : rows.Pairwise (fun r r' => r.Id < r'.Id)
  lt_nextId : ∀ r ∈ rows, r.Id < nextId

namespace ConsumerQueue

/-- The URLs that wait in the queue. -/
def urls (q : ConsumerQueue) : List String :=
  q.rows.map ConsumerQueueItem.UrlToProcess

def empty : ConsumerQueue where
  rows := []
  nextId := 0
  sorted := List.Pairwise.nil
  lt_nextId := by simp

/-- Two rows with one id are one row. -/
theorem eq_of_Id_eq (q : ConsumerQueue) {r r' : ConsumerQueueItem}
    (hr : r ∈ q.rows) (hr' : r' ∈ q.rows) (h : r.Id = r'.Id) : r = r' := by
  have hids : (q.rows.map ConsumerQueueItem.Id).Nodup :=
    List.pairwise_map.mpr (q.sorted.imp Nat.ne_of_lt)
  exact List.inj_on_of_nodup_map hids hr hr' h

theorem nodup (q : ConsumerQueue) : q.rows.Nodup :=
  q.sorted.imp fun h he => absurd h (by rw [he]; exact Nat.lt_irrefl _)

/-- The rows that the identity column gives to a list of URLs. -/
def newRows (nextId : Nat) : List String → List ConsumerQueueItem
  | [] => []
  | url :: urls =>
    { Id := nextId, UrlToProcess := url } :: newRows (nextId + 1) urls

theorem newRows_append (urls urls' : List String) : ∀ nextId,
    newRows nextId (urls ++ urls')
      = newRows nextId urls ++ newRows (nextId + urls.length) urls' := by
  induction urls with
  | nil =>
    intro nextId
    rfl
  | cons url urls ih =>
    intro nextId
    rw [List.cons_append, newRows, newRows, ih, List.cons_append,
      List.length_cons]
    congr 3
    omega

theorem newRows_urls (urls : List String) : ∀ nextId,
    (newRows nextId urls).map ConsumerQueueItem.UrlToProcess = urls := by
  induction urls with
  | nil => intro nextId; rfl
  | cons url urls ih =>
    intro nextId
    rw [newRows, List.map_cons, ih]

theorem newRows_Id {urls : List String} : ∀ {nextId r},
    r ∈ newRows nextId urls → nextId ≤ r.Id ∧ r.Id < nextId + urls.length := by
  induction urls with
  | nil => intro nextId r h; cases h
  | cons url urls ih =>
    intro nextId r h
    rw [List.length_cons]
    rcases List.mem_cons.mp h with he | hmem
    · subst he
      show nextId ≤ nextId ∧ nextId < _
      omega
    · have := ih hmem
      omega

theorem newRows_sorted (urls : List String) : ∀ nextId,
    (newRows nextId urls).Pairwise (fun r r' => r.Id < r'.Id) := by
  induction urls with
  | nil => intro nextId; exact List.Pairwise.nil
  | cons url urls ih =>
    intro nextId
    refine List.Pairwise.cons ?_ (ih (nextId + 1))
    intro r hr
    have := newRows_Id hr
    show nextId < r.Id
    omega

/-- `ConsumerQueue.AddRange` of new items and `SaveChanges`. -/
def addRange (q : ConsumerQueue) (urls : List String) : ConsumerQueue where
  rows := q.rows ++ newRows q.nextId urls
  nextId := q.nextId + urls.length
  sorted := by
    refine List.pairwise_append.mpr
      ⟨q.sorted, newRows_sorted urls q.nextId, ?_⟩
    intro r hr r' hr'
    have h := q.lt_nextId r hr
    have h' := newRows_Id hr'
    omega
  lt_nextId := by
    intro r hr
    rcases List.mem_append.mp hr with hold | hnew
    · have := q.lt_nextId r hold
      omega
    · exact (newRows_Id hnew).2

@[simp] theorem addRange_urls (q : ConsumerQueue) (urls : List String) :
    (q.addRange urls).urls = q.urls ++ urls := by
  unfold ConsumerQueue.urls addRange
  rw [List.map_append, newRows_urls]

theorem addRange_nil (q : ConsumerQueue) : q.addRange [] = q := by
  cases q
  simp [addRange, newRows]

/-- The queue without the rows that have the id of one of `items`. -/
def without (q : ConsumerQueue) (items : List ConsumerQueueItem) :
    ConsumerQueue where
  rows := q.rows.filter fun r => r.Id ∉ items.map ConsumerQueueItem.Id
  nextId := q.nextId
  sorted := q.sorted.filter _
  lt_nextId := fun r hr => q.lt_nextId r (List.mem_of_mem_filter hr)

/-- Which rows stay, when the removed ones are rows of the queue. -/
theorem mem_without {q : ConsumerQueue} {items : List ConsumerQueueItem}
    (hsub : ∀ r ∈ items, r ∈ q.rows) {r : ConsumerQueueItem} :
    r ∈ (q.without items).rows ↔ r ∈ q.rows ∧ r ∉ items := by
  unfold without
  rw [List.mem_filter, decide_eq_true_iff]
  refine and_congr_right fun hr => not_congr ⟨fun h => ?_, fun h => ?_⟩
  · obtain ⟨r', hr', hid⟩ := List.mem_map.mp h
    rwa [q.eq_of_Id_eq hr (hsub r' hr') hid.symm]
  · exact List.mem_map_of_mem h

/-- The rows that stay and the rows that go. -/
theorem rows_perm_without {q : ConsumerQueue} {items : List ConsumerQueueItem}
    (hsub : ∀ r ∈ items, r ∈ q.rows) (hitems : items.Nodup) :
    q.rows.Perm ((q.without items).rows ++ items) := by
  have hdisjoint : ((q.without items).rows ++ items).Nodup := by
    refine List.nodup_append.mpr ⟨(q.without items).nodup, hitems, ?_⟩
    intro r hr r' hr' he
    rw [he] at hr
    exact ((mem_without hsub).mp hr).2 hr'
  refine (List.perm_ext_iff_of_nodup q.nodup hdisjoint).mpr fun r => ?_
  rw [List.mem_append, mem_without hsub]
  constructor
  · intro hr
    by_cases hitem : r ∈ items
    · exact .inr hitem
    · exact .inl ⟨hr, hitem⟩
  · intro hr
    rcases hr with ⟨hr, _⟩ | hr
    · exact hr
    · exact hsub r hr

theorem eq_of_rows_eq {q q' : ConsumerQueue} (hrows : q.rows = q'.rows)
    (hnext : q.nextId = q'.nextId) : q = q' := by
  cases q
  cases q'
  simp_all

/-- Rows that were given out earlier can be removed before or after new rows
come. -/
theorem without_addRange {q : ConsumerQueue} {items : List ConsumerQueueItem}
    (hknown : ∀ r ∈ items, r.Id < q.nextId) (urls : List String) :
    (q.without items).addRange urls = (q.addRange urls).without items := by
  refine eq_of_rows_eq ?_ rfl
  have hnew : (newRows q.nextId urls).filter
      (fun r => r.Id ∉ items.map ConsumerQueueItem.Id)
      = newRows q.nextId urls := by
    rw [List.filter_eq_self]
    intro r hr
    rw [decide_eq_true_iff]
    intro hmem
    obtain ⟨r', hr', hid⟩ := List.mem_map.mp hmem
    have hlt := hknown r' hr'
    have hle := (newRows_Id hr).1
    omega
  show (q.without items).rows ++ newRows q.nextId urls
    = (q.rows ++ newRows q.nextId urls).filter _
  rw [List.filter_append, hnew]
  rfl

/-- `ConsumerQueue.RemoveRange` and `SaveChanges`: one transaction that
deletes by primary key, and that throws without any effect when one of the
rows is already gone. -/
def removeRange (q : ConsumerQueue) (items : List ConsumerQueueItem) :
    Except Exn ConsumerQueue :=
  if ∀ r ∈ items, r.Id ∈ q.rows.map ConsumerQueueItem.Id then
    .ok (q.without items)
  else .error .dbUpdateConcurrency

/-- Rows that are in the queue can be removed. -/
theorem removeRange_of_subset {q : ConsumerQueue}
    {items : List ConsumerQueueItem} (h : ∀ r ∈ items, r ∈ q.rows) :
    q.removeRange items = .ok (q.without items) :=
  if_pos fun r hr => List.mem_map_of_mem (h r hr)

/-- What a successful removal says: the rows were there, and they are gone. -/
theorem removeRange_ok {q q' : ConsumerQueue}
    {items : List ConsumerQueueItem} (h : q.removeRange items = .ok q') :
    (∀ r ∈ items, r.Id ∈ q.rows.map ConsumerQueueItem.Id) ∧
      q' = q.without items := by
  unfold removeRange at h
  split_ifs at h with hall
  exact ⟨hall, (Except.ok.inj h).symm⟩

/-- The second removal of the same rows fails. -/
theorem removeRange_without {q : ConsumerQueue}
    {items : List ConsumerQueueItem} (hitems : items ≠ []) :
    (q.without items).removeRange items = .error .dbUpdateConcurrency := by
  refine if_neg fun hall => ?_
  obtain ⟨r, hr⟩ := List.exists_mem_of_ne_nil items hitems
  obtain ⟨r', hr', hid⟩ := List.mem_map.mp (hall r hr)
  replace hr' : r' ∈ (q.without items).rows := hr'
  unfold without at hr'
  rw [List.mem_filter, decide_eq_true_iff, hid] at hr'
  exact hr'.2 (List.mem_map_of_mem hr)

end ConsumerQueue

/-! ## The rejected documents -/

structure UnprocessedTable where
  rows : List UnprocessedEpisodeDetails
  primaryKey : (rows.map UnprocessedEpisodeDetails.Id).Nodup

namespace UnprocessedTable

def empty : UnprocessedTable where
  rows := []
  primaryKey := List.nodup_nil

/-- `SaveChanges` of added rows: one transaction that throws without any
effect when a key is taken. -/
def insertAll (table : UnprocessedTable)
    (added : List UnprocessedEpisodeDetails) : Except Exn UnprocessedTable :=
  if h : ((table.rows ++ added).map UnprocessedEpisodeDetails.Id).Nodup then
    .ok { rows := table.rows ++ added, primaryKey := h }
  else .error .dbUpdate

end UnprocessedTable

/-- The database as the context of one scope sees it: the table and the keys
of the entities that the context tracks. -/
structure DbContext where
  table : UnprocessedTable
  tracked : List String

namespace DbContext

/-- The context of a new scope tracks nothing. -/
def newScope (table : UnprocessedTable) : DbContext where
  table := table
  tracked := []

/-- Track the rows that `AddRange` adds, and throw at a key that is tracked
already. -/
def trackAll (tracked : List String) :
    List UnprocessedEpisodeDetails → Except Exn (List String)
  | [] => .ok tracked
  | row :: rows =>
    if row.Id ∈ tracked then .error .invalidOperation
    else trackAll (row.Id :: tracked) rows

/-- `UnprocessedEpisodesDetails.AddRange` and `SaveChanges`. -/
def addRange (context : DbContext) (rows : List UnprocessedEpisodeDetails) :
    Except Exn DbContext := do
  let tracked ← trackAll context.tracked rows
  let table ← context.table.insertAll rows
  return { table := table, tracked := tracked }

end DbContext

end TvMazeScraper
