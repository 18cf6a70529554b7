import Mathlib.Data.Finset.Sort
import TvMazeScraper.Lib.Paging
import TvMazeScraper.ElasticTvMaze.LoadData

/-!
# `GetAllShowsUrl` and `FindMissingUrls`

The read side of the synchronisation.  `getShowsId` reads the listing of
TVMaze, `getAllShowsUrl` turns it into pairs of an id and a URL, and
`findMissingUrls` reads the ids of the show index page by page and keeps the
URLs whose id is not indexed.

* `showUrl_injective`: two listed texts have two URLs.
* `getAllShowsUrl_nodup`: the URLs of a listing are pairwise distinct, since
  the listing is a dictionary.
* `findMissingUrls_eq`: the result is the URLs of exactly those pairs whose id
  the paging loop did not read.  The loop starts above 0 and ends at the first
  request that is not answered.
* `findMissingUrls_answered`: when every search is answered, these are the
  pairs whose id is not a positive id of the index.
* `findMissingUrls_sublist`: whatever is answered, the result is a sublist of
  the listed URLs.
-/

namespace TvMazeScraper

/-! ## The listing -/

/-- `GetShowsId`.  The keys of the listing, or nothing after a 422 or an
`HttpRequestException`; other exceptions escape. -/
def getShowsId (json : JsonConvert) (response : HttpOutcome) :
    Except Exn (List String) :=
  match response with
  | .success body =>
    match json.deserializeUpdates body with
    | .error e => .error e
    | .ok none => .error .nullReference
    | .ok (some dict) => .ok dict.keys
  | .unprocessableEntity => .ok []
  | .errorStatus => .ok []
  | .connectionFailure => .ok []
  | .timeout => .error .taskCanceled

/-- The URL of the show with that id text. -/
def showUrl (id : String) : String :=
  "https://api.tvmaze.com/shows/" ++ id ++ "?embed[]=cast"

/-- `GetAllShowsUrl`. -/
def getAllShowsUrl (json : JsonConvert) (response : HttpOutcome) :
    Except Exn (List (Int32 × String)) := do
  let showsId ← getShowsId json response
  showsId.mapM fun id => do
    let parsed ← int32Parse id
    return (parsed, showUrl id)

theorem showUrl_injective : Function.Injective showUrl := by
  intro a b h
  unfold showUrl at h
  have hlist := congrArg String.toList h
  simp only [String.toList_append, List.append_assoc,
    List.append_cancel_left_eq] at hlist
  exact String.toList_inj.mp (List.append_cancel_right hlist)

/-- The keys of a listing are pairwise distinct. -/
theorem getShowsId_nodup {json : JsonConvert} {response : HttpOutcome}
    {ids : List String} (h : getShowsId json response = .ok ids) :
    ids.Nodup := by
  unfold getShowsId at h
  cases response with
  | success body =>
    cases hdict : json.deserializeUpdates body with
    | error e => simp only [hdict] at h; cases h
    | ok dict =>
      cases dict with
      | none => simp only [hdict] at h; cases h
      | some dict => simp only [hdict] at h; cases h; exact dict.nodup
  | timeout => cases h
  | _ => cases h; exact List.nodup_nil

/-- What `GetAllShowsUrl` returns: the listed ids in order, each parsed and
with its URL. -/
theorem getAllShowsUrl_ok {json : JsonConvert} {response : HttpOutcome}
    {pairs : List (Int32 × String)}
    (h : getAllShowsUrl json response = .ok pairs) :
    ∃ ids, getShowsId json response = .ok ids ∧
      pairs.map Prod.snd = ids.map showUrl ∧
      ∀ p ∈ pairs, ∃ id ∈ ids, int32Parse id = .ok p.1 ∧
        p.2 = showUrl id := by
  unfold getAllShowsUrl at h
  obtain ⟨ids, hids, h⟩ := ExceptList.bind_ok h
  have hstep : ∀ id (p : Int32 × String),
      (do let parsed ← int32Parse id; return (parsed, showUrl id))
          = Except.ok p →
        int32Parse id = .ok p.1 ∧ p.2 = showUrl id := by
    intro id p hp
    obtain ⟨i, hparse, hp⟩ := ExceptList.bind_ok hp
    cases hp
    exact ⟨hparse, rfl⟩
  refine ⟨ids, hids, ?_, ?_⟩
  · exact ExceptList.map_of_mapM_ok (fun id p hp => (hstep id p hp).2) h
  · intro p hp
    obtain ⟨id, hid, hf⟩ := ExceptList.mem_of_mapM_ok h hp
    exact ⟨id, hid, hstep id p hf⟩

/-- The URLs of a listing are pairwise distinct. -/
theorem getAllShowsUrl_nodup {json : JsonConvert} {response : HttpOutcome}
    {pairs : List (Int32 × String)}
    (h : getAllShowsUrl json response = .ok pairs) :
    (pairs.map Prod.snd).Nodup := by
  obtain ⟨ids, hids, hurls, _⟩ := getAllShowsUrl_ok h
  rw [hurls]
  exact (getShowsId_nodup hids).map showUrl_injective

/-- A listing of positive ids in decimal. -/
theorem getAllShowsUrl_of_positive {json : JsonConvert}
    {response : HttpOutcome} {ids : List Int32} (hpos : ∀ i ∈ ids, 0 < i)
    (h : getShowsId json response = .ok (ids.map toString)) :
    getAllShowsUrl json response
      = .ok (ids.map fun i => (i, showUrl (toString i))) := by
  unfold getAllShowsUrl
  rw [h]
  show (ids.map toString).mapM _ = _
  rw [List.mapM_map]
  apply ExceptList.mapM_ok
  intro i hi
  show (do let parsed ← int32Parse (toString i); _) = _
  rw [int32Parse_toString (hpos i hi)]
  rfl

/-! ## The missing URLs -/

/-- What becomes of the requests of one `FindMissingUrls`: whether the point
in time is opened, and which of the searches are answered. -/
structure ReadOutcomes where
  openPit : Bool
  search : Nat → Bool

/-- Every request is answered. -/
def ReadOutcomes.Answered (reads : ReadOutcomes) : Prop :=
  reads.openPit = true ∧ ∀ n, reads.search n = true

/-- The ids of an index in ascending order. -/
def sortedIds (index : Index ShowDetails) : List Int32 := index.keys.sort

/-- The `while (true)` loop.  It reads pages of 10000 documents, of which
only the id is included, and starts above 0.  A search in a point in time
that was not opened is not answered. -/
def readIndex (reads : ReadOutcomes) (index : Index ShowDetails) :
    List ShowDetails :=
  (Paging.scroll 10000 (fun n => reads.openPit && reads.search n)
      (sortedIds index) 0 0).map fun id => { id := id }

/-- `ToDictionary(x => x)`, which throws at a repeated key. -/
def toDictionary (ids : List Int32) : Except Exn (List Int32) :=
  if ids.Nodup then .ok ids else .error .argument

/-- `FindMissingUrls`. -/
def findMissingUrls (reads : ReadOutcomes) (index : Index ShowDetails)
    (fetchedIds : List (Int32 × String)) : Except Exn (List String) := do
  let indexedShowDetailsIds ←
    toDictionary ((readIndex reads index).map ShowDetails.id)
  return fetchedIds.filterMap fun id =>
    if id.1 ∉ indexedShowDetailsIds then some id.2 else none

theorem sortedIds_sorted (index : Index ShowDetails) :
    (sortedIds index).Pairwise (· < ·) :=
  List.sortedLT_iff_pairwise.mp (Finset.sortedLT_sort index.keys)

/-- The ids that the loop reads, as a list. -/
theorem readIndex_map_id (reads : ReadOutcomes) (index : Index ShowDetails) :
    (readIndex reads index).map ShowDetails.id
      = Paging.scroll 10000 (fun n => reads.openPit && reads.search n)
          (sortedIds index) 0 0 := by
  unfold readIndex
  rw [List.map_map]
  exact List.map_id _

/-- When every search is answered, the loop reads the positive ids of the
index, each once. -/
theorem readIndex_ids {reads : ReadOutcomes} (h : reads.Answered)
    (index : Index ShowDetails) :
    (readIndex reads index).map ShowDetails.id
      = (sortedIds index).filter (0 < ·) := by
  rw [readIndex_map_id, Paging.scroll_eq_filter (by decide) ?_
    (sortedIds_sorted index)]
  intro n
  rw [h.1, h.2 n]
  rfl

/-- The loop reads no id twice, whichever searches are answered. -/
theorem readIndex_nodup (reads : ReadOutcomes) (index : Index ShowDetails) :
    ((readIndex reads index).map ShowDetails.id).Nodup := by
  have hnodup : ((sortedIds index).filter (0 < ·)).Nodup :=
    ((sortedIds_sorted index).imp (fun hlt => ne_of_lt hlt)).filter _
  rw [readIndex_map_id]
  exact hnodup.sublist (Paging.scroll_sublist (sortedIds_sorted index) 0 0)

/-- An id that the paging loop finds: it is in the index and positive. -/
def Readable (index : Index ShowDetails) (id : Int32) : Prop :=
  id ∈ index.keys ∧ 0 < id

instance (index : Index ShowDetails) (id : Int32) :
    Decidable (Readable index id) :=
  inferInstanceAs (Decidable (_ ∧ _))

private theorem filterMap_missing (ids : List Int32)
    (fetchedIds : List (Int32 × String)) :
    fetchedIds.filterMap (fun id => if id.1 ∉ ids then some id.2 else none)
      = (fetchedIds.filter fun p => p.1 ∉ ids).map Prod.snd := by
  induction fetchedIds with
  | nil => rfl
  | cons p fetchedIds ih =>
    by_cases hp : p.1 ∈ ids
    · rw [List.filterMap_cons_none (by simp [hp]), ih,
        List.filter_cons_of_neg (by simp [hp])]
    · rw [List.filterMap_cons_some (b := p.2) (by simp [hp]), ih,
        List.filter_cons_of_pos (by simp [hp]), List.map_cons]

theorem mem_sortedIds_filter {index : Index ShowDetails} {id : Int32} :
    id ∈ (sortedIds index).filter (0 < ·) ↔ Readable index id := by
  simp [Readable, sortedIds]

/-- The requests up to the page of an id are answered. -/
def Reached (reads : ReadOutcomes) (index : Index ShowDetails)
    (id : Int32) : Prop :=
  reads.openPit = true ∧
    ∀ n ≤ ((sortedIds index).filter (0 < ·)).idxOf id / 10000,
      reads.search n = true

/-- An id that the paging loop reads: the loop finds it, and its page is
reached. -/
def Found (reads : ReadOutcomes) (index : Index ShowDetails) (id : Int32) :
    Prop :=
  Readable index id ∧ Reached reads index id

instance (reads : ReadOutcomes) (index : Index ShowDetails) (id : Int32) :
    Decidable (Found reads index id) :=
  inferInstanceAs (Decidable (_ ∧ _ ∧ _))

/-- The ids that the loop reads, whichever requests are answered. -/
theorem mem_readIndex {reads : ReadOutcomes} {index : Index ShowDetails}
    {id : Int32} : id ∈ (readIndex reads index).map ShowDetails.id ↔
      Found reads index id := by
  rw [readIndex_map_id, Paging.mem_scroll (by decide)
    (sortedIds_sorted index), mem_sortedIds_filter]
  apply and_congr_right
  intro _
  constructor
  · intro h
    refine ⟨?_, fun n hn => ?_⟩
    · exact (Bool.and_eq_true_iff.mp (h 0 (Nat.zero_le _))).1
    · have hn := (Bool.and_eq_true_iff.mp (h n hn)).2
      rwa [Nat.zero_add] at hn
  · intro h n hn
    rw [Nat.zero_add, h.1, h.2 n hn]
    rfl

/-- `ToDictionary` does not throw. -/
theorem toDictionary_readIndex (reads : ReadOutcomes)
    (index : Index ShowDetails) :
    toDictionary ((readIndex reads index).map ShowDetails.id)
      = .ok ((readIndex reads index).map ShowDetails.id) :=
  if_pos (readIndex_nodup reads index)

/-- `FindMissingUrls` does not throw.  It returns the URLs of exactly those
pairs whose id the loop does not read, in the order of the list and as often
as they stand in it. -/
theorem findMissingUrls_eq (reads : ReadOutcomes) (index : Index ShowDetails)
    (fetchedIds : List (Int32 × String)) :
    findMissingUrls reads index fetchedIds
      = .ok ((fetchedIds.filter fun p => ¬ Found reads index p.1).map
          Prod.snd) := by
  unfold findMissingUrls
  rw [toDictionary_readIndex]
  show Except.ok _ = _
  rw [filterMap_missing]
  congr 2
  apply List.filter_congr
  intro p _
  exact decide_eq_decide.mpr (not_congr mem_readIndex)

theorem reached_of_answered {reads : ReadOutcomes} (h : reads.Answered)
    (index : Index ShowDetails) (id : Int32) : Reached reads index id :=
  ⟨h.1, fun n _ => h.2 n⟩

/-- When every search is answered, `FindMissingUrls` returns the URLs of
exactly those pairs whose id the loop can find. -/
theorem findMissingUrls_answered {reads : ReadOutcomes} (h : reads.Answered)
    (index : Index ShowDetails) (fetchedIds : List (Int32 × String)) :
    findMissingUrls reads index fetchedIds
      = .ok ((fetchedIds.filter fun p => ¬ Readable index p.1).map
          Prod.snd) := by
  rw [findMissingUrls_eq]
  congr 2
  apply List.filter_congr
  intro p _
  simp [Found, reached_of_answered h index p.1]

/-- Whatever is answered, the result is a sublist of the listed URLs. -/
theorem findMissingUrls_sublist {reads : ReadOutcomes}
    {index : Index ShowDetails} {fetchedIds : List (Int32 × String)}
    {urls : List String}
    (h : findMissingUrls reads index fetchedIds = .ok urls) :
    urls.Sublist (fetchedIds.map Prod.snd) := by
  unfold findMissingUrls at h
  obtain ⟨ids, _, h⟩ := ExceptList.bind_ok h
  cases h
  rw [filterMap_missing]
  exact List.filter_sublist.map Prod.snd

end TvMazeScraper
