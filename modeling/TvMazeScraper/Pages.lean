import TvMazeScraper.Lib.Batching
import TvMazeScraper.Serving

/-!
# The pages of the shows endpoint

Elasticsearch ranks the documents of an index that does not change, and it
answers a request with a window of that ranking.  The window starts at
`(pageNumber - 1) * pageSize`, which is computed in unchecked 32-bit
arithmetic, and it is rejected behind `max_result_window`.

* `hits_of_inside` and `hits_of_outside`: the hits of a page, by its offset.
* `page_empty_iff`: which of the 32-bit page numbers have no shows.
* `card_le_of_listsAll`: the pages can not list more than 10000 shows.
* `listsAll_iff`: when the pages list every show.
-/

namespace TvMazeScraper

open Batching

/-! ## Elasticsearch -/

/-- The default of `max_result_window`.  `CreateIndex` gives the index no
other value. -/
def maxResultWindow : Int := 10000

/-- The order in which Elasticsearch has the matches of each query.  A query
matches stored documents, each at most once, and match-all matches every
document. -/
structure Ranking (index : Index ShowDetails) where
  matching : QueryContainer → List ShowDetails
  stored : ∀ query, ∀ d ∈ matching query, index.get? d.id = some d
  nodup : ∀ query, ((matching query).map ShowDetails.id).Nodup
  complete : ∀ id d, index.get? id = some d → d ∈ matching .matchAll

/-- Every index has a ranking, in which the order of the ids is any. -/
theorem exists_ranking (index : Index ShowDetails) :
    Nonempty (Ranking index) := by
  let documents := index.keys.toList.filterMap index.get?
  have hstored : ∀ d ∈ documents, index.get? d.id = some d := by
    intro d hd
    obtain ⟨id, _, hget⟩ := List.mem_filterMap.mp hd
    have hid : d.id = id := KeyedStore.key_of_get? hget
    rw [hid]
    exact hget
  have hinj : ∀ d ∈ documents, ∀ e ∈ documents, d.id = e.id → d = e := by
    intro d hd e he hid
    have hget := hstored d hd
    rw [hid, hstored e he] at hget
    exact (Option.some.inj hget).symm
  have hnodup : documents.Nodup := by
    refine index.keys.nodup_toList.filterMap fun id id' d hd hd' => ?_
    have hid : d.id = id := KeyedStore.key_of_get? hd
    exact hid.symm.trans (KeyedStore.key_of_get? hd')
  refine ⟨⟨fun _ => documents, fun _ => hstored,
    fun _ => hnodup.map_on hinj, fun id d hd => ?_⟩⟩
  refine List.mem_filterMap.mpr ⟨id, ?_, hd⟩
  exact Finset.mem_toList.mpr (KeyedStore.mem_keys.mpr ⟨d, hd⟩)

/-- The window of the ranking that a request asks for.  A negative number and
a window behind `max_result_window` are rejected, and the response has no
hits. -/
def Ranking.searchAsync {index : Index ShowDetails} (ranking : Ranking index)
    (request : SearchRequest) : SearchResponse where
  Hits :=
    if request.From < 0 ∨ request.Size < 0 ∨
      maxResultWindow < request.From.toInt + request.Size.toInt then []
    else
      (((ranking.matching request.Query).drop
        request.From.toInt.toNat).take request.Size.toInt.toNat).map
          fun d => { Source := d }

/-- The request of the endpoint. -/
def endpointRequest (page : Int32) (q : Option String) : SearchRequest :=
  searchRequest q 2 page defaultPageSize

/-- The matches of the query of the endpoint. -/
def Ranking.found {index : Index ShowDetails} (ranking : Ranking index)
    (q : Option String) : List ShowDetails :=
  ranking.matching (endpointRequest 1 q).Query

section Window

variable {index : Index ShowDetails} {ranking : Ranking index} {page : Int32}
  {q : Option String}

/-- The offset of a page. -/
theorem toInt_From (page : Int32) (q : Option String) :
    (endpointRequest page q).From.toInt
      = ((page.toInt - 1) * 10).bmod 4294967296 := by
  have hsize : defaultPageSize.toInt = 10 := by rfl
  have hone : (1 : Int32).toInt = 1 := by rfl
  show ((page - 1) * defaultPageSize).toInt = _
  rw [Int32.toInt_mul, Int32.toInt_sub, hsize, hone]
  exact Int.bmod_mul_bmod

/-- A window inside `max_result_window` is answered. -/
theorem hits_of_inside (h0 : 0 ≤ (endpointRequest page q).From.toInt)
    (h : (endpointRequest page q).From.toInt ≤ 9990) :
    (ranking.searchAsync (endpointRequest page q)).Hits
      = (((ranking.found q).drop (endpointRequest page q).From.toInt.toNat).take
          10).map fun d => { Source := d } := by
  have hfrom : ¬ (endpointRequest page q).From < 0 := by
    rw [Int32.lt_iff_toInt_lt]
    exact not_lt.mpr h0
  have hsize : (endpointRequest page q).Size.toInt = 10 := by rfl
  have hpositive : ¬ (endpointRequest page q).Size < 0 := by
    show ¬ defaultPageSize < 0
    decide
  have hwindow : ¬ maxResultWindow < (endpointRequest page q).From.toInt
      + (endpointRequest page q).Size.toInt := by
    rw [hsize]
    unfold maxResultWindow
    omega
  unfold Ranking.searchAsync
  simp only [hfrom, hpositive, hwindow, or_self, if_false]
  rfl

/-- A window that starts below 0 or ends behind `max_result_window` is
rejected. -/
theorem hits_of_outside (h : (endpointRequest page q).From.toInt < 0 ∨
    9990 < (endpointRequest page q).From.toInt) :
    (ranking.searchAsync (endpointRequest page q)).Hits = [] := by
  have hsize : (endpointRequest page q).Size.toInt = 10 := by rfl
  unfold Ranking.searchAsync
  apply if_pos
  rcases h with hnegative | hbehind
  · exact .inl (Int32.lt_iff_toInt_lt.mpr hnegative)
  · refine .inr (.inr ?_)
    rw [hsize]
    unfold maxResultWindow
    omega

/-- A page has hits exactly when its offset is the place of a match inside
`max_result_window`. -/
theorem hits_eq_nil_iff :
    (ranking.searchAsync (endpointRequest page q)).Hits = [] ↔
      ¬ (0 ≤ (endpointRequest page q).From.toInt ∧
        (endpointRequest page q).From.toInt
          < min 9991 ((ranking.found q).length : Int)) := by
  by_cases h : 0 ≤ (endpointRequest page q).From.toInt ∧
      (endpointRequest page q).From.toInt ≤ 9990
  · rw [hits_of_inside h.1 h.2, List.map_eq_nil_iff, List.take_eq_nil_iff,
      List.drop_eq_nil_iff]
    omega
  · rw [hits_of_outside (by omega)]
    refine iff_of_true rfl ?_
    omega

/-- The endpoint serves a page without nulls. -/
theorem searchShows_of_servable {searchAsync : SearchRequest → SearchResponse}
    (h : ∀ hit ∈ (searchAsync (endpointRequest page q)).Hits,
      hit.Source.Servable) :
    searchShows searchAsync (some page) q
      = .ok ((searchAsync (endpointRequest page q)).Hits.map
          fun hit => hit.Source.served) :=
  search_of_servable h

/-- What the endpoint returns is the served hits. -/
theorem searchShows_ok {searchAsync : SearchRequest → SearchResponse}
    {shows : List ShowDetails}
    (h : searchShows searchAsync (some page) q = .ok shows) :
    (∀ hit ∈ (searchAsync (endpointRequest page q)).Hits,
        hit.Source.Servable) ∧
      shows = (searchAsync (endpointRequest page q)).Hits.map
        fun hit => hit.Source.served := by
  have hservable : ∀ hit ∈ (searchAsync (endpointRequest page q)).Hits,
      hit.Source.Servable := servable_of_search h
  refine ⟨hservable, ?_⟩
  rw [searchShows_of_servable hservable] at h
  exact (Except.ok.inj h).symm

/-- The endpoint returns the empty list for a page without hits only. -/
theorem searchShows_eq_nil_iff {searchAsync : SearchRequest → SearchResponse} :
    searchShows searchAsync (some page) q = .ok [] ↔
      (searchAsync (endpointRequest page q)).Hits = [] := by
  constructor
  · intro h
    exact List.map_eq_nil_iff.mp (searchShows_ok h).2.symm
  · intro h
    rw [searchShows_of_servable (by rw [h]; exact List.forall_mem_nil _), h]
    rfl

end Window

/-! ## Pages outside the catalogue -/

/-- The multiples of ten that wrap into a window.  5 is invertible modulo
2 ^ 31, and 1288490189 is its inverse. -/
theorem wrapped_iff {x limit : Int} (hlimit : limit ≤ 2147483648) :
    (0 ≤ (x * 10).bmod 4294967296 ∧ (x * 10).bmod 4294967296 < limit) ↔
      ∃ j : Nat, 2 * (j : Int) < limit ∧
        2147483648 ∣ x - 1288490189 * j := by
  have hdiv := Int.mul_ediv_add_emod (x * 10) 4294967296
  have hnonneg : 0 ≤ x * 10 % 4294967296 := Int.emod_nonneg _ (by decide)
  have hlt : x * 10 % 4294967296 < 4294967296 :=
    Int.emod_lt_of_pos _ (by decide)
  have hdef : (x * 10).bmod 4294967296
      = if x * 10 % 4294967296 < 2147483648 then x * 10 % 4294967296
        else x * 10 % 4294967296 - 4294967296 := Int.bmod_def _ _
  generalize x * 10 / 4294967296 = s at hdiv
  generalize x * 10 % 4294967296 = r at hdef hdiv hnonneg hlt
  generalize (x * 10).bmod 4294967296 = f at hdef ⊢
  constructor
  · intro h
    have hr : f = r := by split_ifs at hdef <;> omega
    obtain ⟨j, hj⟩ : ∃ j : Nat, (j : Int) = 5 * x - 2147483648 * s :=
      ⟨_, Int.toNat_of_nonneg (by omega)⟩
    exact ⟨j, by omega, by omega⟩
  · intro h
    rcases h with ⟨j, hj, t, ht⟩
    obtain ⟨k, hk⟩ : ∃ k : Int, k = 3 * j + 5 * t - s := ⟨_, rfl⟩
    have hr : r = 2 * j + 4294967296 * k := by omega
    split_ifs at hdef <;> omega

/-- Page number `page` has no shows if and only if its offset does not wrap to
the place `2 * j` of a match inside `max_result_window`. -/
theorem page_empty_iff {index : Index ShowDetails} (ranking : Ranking index)
    (page : Int32) (q : Option String) :
    searchShows ranking.searchAsync (some page) q = .ok [] ↔
      ¬ ∃ j : Nat, 2 * (j : Int) < min 9991 ((ranking.found q).length : Int) ∧
        2147483648 ∣ page.toInt - 1 - 1288490189 * j := by
  rw [searchShows_eq_nil_iff, hits_eq_nil_iff, toInt_From]
  exact not_congr (wrapped_iff (by omega))

/-- The index of documents with distinct ids, all of which match every query
in the order of the list. -/
def Ranking.ofDistinct (documents : List ShowDetails)
    (hids : (documents.map ShowDetails.id).Nodup) :
    Ranking (KeyedStore.empty.putAll documents) where
  matching _ := documents
  stored := by
    intro _ d hd
    refine KeyedStore.get?_putAll_of_consistent hd ?_ _
    intro c hc hkey
    exact List.inj_on_of_nodup_map hids hc hd hkey
  nodup _ := hids
  complete := by
    intro id d hd
    refine (KeyedStore.mem_or_of_get?_putAll hd).resolve_right ?_
    rw [KeyedStore.get?_empty]
    intro hnone
    cases hnone

theorem found_ofDistinct {documents : List ShowDetails}
    {hids : (documents.map ShowDetails.id).Nodup} {q : Option String} :
    (Ranking.ofDistinct documents hids).found q = documents := rfl

def oneRanked : Ranking (KeyedStore.empty.putAll [showWithCast 1]) :=
  .ofDistinct [showWithCast 1] (List.nodup_singleton _)

/-- The offset of page -2147483647 wraps to 0, so that page has the shows of
page 1. -/
theorem negative_page_not_empty :
    (-2147483647 : Int32) < 1 ∧
      searchShows oneRanked.searchAsync (some (-2147483647)) (some "")
        = .ok [(showWithCast 1).served] ∧
      searchShows oneRanked.searchAsync (some (-2147483647)) (some "")
        ≠ .ok [] := by
  have hserved : searchShows oneRanked.searchAsync (some (-2147483647))
      (some "") = .ok [(showWithCast 1).served] := by
    rw [searchShows_of_servable]
    · rfl
    · intro hit hhit
      have hhit : hit ∈ [{ Source := showWithCast 1 }] := hhit
      rw [List.mem_singleton.mp hhit]
      decide
  refine ⟨by decide, hserved, ?_⟩
  rw [hserved]
  intro h
  cases h

/-! ## All pages -/

/-- The pages 1 to `⌈N / 10⌉` of the endpoint, for an index of `N` shows. -/
def allPages {index : Index ShowDetails} (ranking : Ranking index)
    (q : Option String) : Except Exn (List (List ShowDetails)) :=
  (List.range ((index.keys.card + 9) / 10)).mapM fun i =>
    searchShows ranking.searchAsync (some (.ofNat (i + 1))) q

/-- The pages list every show of the index once and nothing else, and each of
them but the last has ten shows. -/
structure PagesList (index : Index ShowDetails)
    (pages : List (List ShowDetails)) : Prop where
  once : (pages.flatten.map ShowDetails.id).Nodup
  all : ∀ id, id ∈ pages.flatten.map ShowDetails.id ↔ id ∈ index.keys
  full : ∀ i page, pages[i]? = some page → i + 1 < pages.length →
    page.length = 10

/-- All pages are served, and they list the index. -/
def ListsAll {index : Index ShowDetails} (ranking : Ranking index)
    (q : Option String) : Prop :=
  ∃ pages, allPages ranking q = .ok pages ∧ PagesList index pages

section AllPages

variable {index : Index ShowDetails} {ranking : Ranking index}
  {q : Option String}

theorem found_of_empty (ranking : Ranking index)
    (hq : isNullOrEmpty q = true) :
    ranking.found q = ranking.matching .matchAll := by
  unfold Ranking.found endpointRequest searchRequest
  simp only [hq, if_true]

/-- Match-all finds the ids of the index. -/
theorem mem_found (hq : isNullOrEmpty q = true) {id : Int32} :
    id ∈ (ranking.found q).map ShowDetails.id ↔ id ∈ index.keys := by
  rw [found_of_empty ranking hq, KeyedStore.mem_keys, List.mem_map]
  constructor
  · intro h
    rcases h with ⟨d, hd, rfl⟩
    exact ⟨d, ranking.stored _ d hd⟩
  · intro h
    rcases h with ⟨d, hd⟩
    exact ⟨d, ranking.complete id d hd, KeyedStore.key_of_get? hd⟩

/-- Ids that are those of the index, each once, are as many as the index
has. -/
theorem length_eq_card {ids : List Int32} (hnodup : ids.Nodup)
    (hmem : ∀ id, id ∈ ids ↔ id ∈ index.keys) :
    ids.length = index.keys.card := by
  rw [← List.toFinset_card_of_nodup hnodup]
  congr 1
  ext id
  rw [List.mem_toFinset, hmem]

theorem length_found (hq : isNullOrEmpty q = true) :
    (ranking.found q).length = index.keys.card := by
  rw [← List.length_map (f := ShowDetails.id)]
  exact length_eq_card (ranking.nodup _) fun _ => mem_found hq

/-- The offset of page `i + 1`, as long as it does not wrap. -/
theorem toInt_From_ofNat {i : Nat} (hi : i ≤ 1000) (q : Option String) :
    (endpointRequest (.ofNat (i + 1)) q).From.toInt = 10 * i := by
  rw [toInt_From, Int32.toInt_ofNat_of_lt (by omega),
    Int.bmod_eq_of_le (by omega) (by omega)]
  omega

/-- Page `i + 1` is window `i`, up to page 1000. -/
theorem hits_of_lt {i : Nat} (hi : i < 1000) (q : Option String) :
    (ranking.searchAsync (endpointRequest (.ofNat (i + 1)) q)).Hits
      = (chunk 10 i (ranking.found q)).map fun d => { Source := d } := by
  have hfrom := toInt_From_ofNat hi.le q
  rw [hits_of_inside (by omega) (by omega), hfrom]
  rfl

/-- Page 1001 has no hits. -/
theorem hits_of_1001 (q : Option String) :
    (ranking.searchAsync (endpointRequest (.ofNat (1000 + 1)) q)).Hits
      = [] := by
  have hfrom := toInt_From_ofNat le_rfl q
  exact hits_of_outside (by omega)

/-- No page has more than ten hits. -/
theorem length_hits_le (page : Int32) (q : Option String) :
    (ranking.searchAsync (endpointRequest page q)).Hits.length ≤ 10 := by
  by_cases h : 0 ≤ (endpointRequest page q).From.toInt ∧
      (endpointRequest page q).From.toInt ≤ 9990
  · rw [hits_of_inside h.1 h.2, List.length_map, List.length_take]
    omega
  · rw [hits_of_outside (by omega)]
    exact Nat.zero_le _

/-- The pages can not list more than 10000 shows: page 1001 is empty, and the
pages before it have at most ten shows each. -/
theorem card_le_of_listsAll (h : ListsAll ranking q) :
    index.keys.card ≤ 10000 := by
  rcases h with ⟨pages, hpages, hlists⟩
  by_contra hmany
  have hcount := ExceptList.length_of_mapM_ok hpages
  rw [List.length_range] at hcount
  have hshort : ∀ page ∈ pages, page.length ≤ 10 := by
    intro page hpage
    obtain ⟨i, _, hserved⟩ := ExceptList.mem_of_mapM_ok hpages hpage
    rw [(searchShows_ok hserved).2, List.length_map]
    exact length_hits_le _ _
  obtain ⟨page, hget, hserved⟩ := ExceptList.getElem?_of_mapM_ok hpages
    (List.getElem?_range (show 1000 < _ by omega))
  have hempty : page = [] := by
    rw [(searchShows_ok hserved).2, hits_of_1001, List.map_nil]
  by_cases hnext : 1000 + 1 < pages.length
  · have hfull := hlists.full 1000 page hget hnext
    rw [hempty] at hfull
    cases hfull
  · have hlast : pages = pages.take 1000 ++ [page] := by
      have hdrop : pages.drop 1000 = [page] := by
        obtain ⟨hlt, hpage⟩ := List.getElem?_eq_some_iff.mp hget
        rw [List.drop_eq_getElem_cons hlt, hpage, List.drop_of_length_le
          (by omega)]
      rw [← hdrop, List.take_append_drop]
    have hlength := length_eq_card hlists.once hlists.all
    rw [List.length_map, hlast, hempty, List.flatten_append,
      List.length_append] at hlength
    have htake := length_flatten_le fun page hpage =>
      hshort page (List.mem_of_mem_take (i := 1000) hpage)
    rw [List.length_take] at htake
    have hnil : ([[]] : List (List ShowDetails)).flatten.length = 0 := rfl
    omega

/-- Up to 10000 shows, the pages are the windows of the ranking, if their
shows can be served. -/
theorem allPages_of_le (hq : isNullOrEmpty q = true)
    (hcard : index.keys.card ≤ 10000) (hservable : AllServable index) :
    allPages ranking q = .ok ((batchesOf 10 (ranking.found q)).map
      (List.map ShowDetails.served)) := by
  rw [batchesOf_eq_chunks (by decide), List.map_map, length_found hq]
  unfold allPages
  apply ExceptList.mapM_ok
  intro i hi
  have hlt : i < 1000 := by
    rw [List.mem_range] at hi
    omega
  rw [searchShows_of_servable]
  · rw [hits_of_lt hlt, List.map_map]
    rfl
  · intro hit hhit
    rw [hits_of_lt hlt] at hhit
    obtain ⟨d, hd, rfl⟩ := List.mem_map.mp hhit
    have hfound : d ∈ ranking.found q :=
      List.mem_of_mem_drop (List.mem_of_mem_take hd)
    exact hservable _ d (ranking.stored _ d hfound)

/-- Pages that are all served have no show with a null. -/
theorem allServable_of_allPages (hq : isNullOrEmpty q = true)
    (hcard : index.keys.card ≤ 10000) {pages : List (List ShowDetails)}
    (hpages : allPages ranking q = .ok pages) : AllServable index := by
  intro id d hd
  have hfound : d ∈ ranking.found q := by
    rw [found_of_empty ranking hq]
    exact ranking.complete id d hd
  rw [← flatten_batchesOf (n := 10) (by decide) (ranking.found q)] at hfound
  obtain ⟨batch, hbatch, hmem⟩ := List.mem_flatten.mp hfound
  obtain ⟨i, hi⟩ := List.mem_iff_getElem?.mp hbatch
  obtain ⟨hlt, hchunk⟩ := (getElem?_batchesOf (by decide)).mp hi
  rw [length_found hq] at hlt
  obtain ⟨shows, hserved⟩ := ExceptList.ok_of_mapM_ok hpages
    (List.mem_range.mpr hlt)
  have hlt : i < 1000 := by
    unfold chunkCount at hlt
    omega
  refine (searchShows_ok hserved).1 { Source := d } ?_
  rw [hits_of_lt hlt, ← hchunk]
  exact List.mem_map_of_mem hmem

/-- With an empty query, the pages list all shows if and only if there are at
most 10000 of them and each can be served. -/
theorem listsAll_iff (ranking : Ranking index)
    (hq : isNullOrEmpty q = true) :
    ListsAll ranking q ↔ index.keys.card ≤ 10000 ∧ AllServable index := by
  constructor
  · intro h
    have hcard := card_le_of_listsAll h
    rcases h with ⟨pages, hpages, _⟩
    exact ⟨hcard, allServable_of_allPages hq hcard hpages⟩
  · intro h
    rcases h with ⟨hcard, hservable⟩
    refine ⟨_, allPages_of_le hq hcard hservable, ?_⟩
    have hids : ((batchesOf 10 (ranking.found q)).map
        (List.map ShowDetails.served)).flatten.map ShowDetails.id
          = (ranking.found q).map ShowDetails.id := by
      rw [← List.map_flatten, flatten_batchesOf (by decide), List.map_map]
      rfl
    constructor
    · rw [hids]
      exact ranking.nodup _
    · intro id
      rw [hids]
      exact mem_found hq
    · intro i page hpage hnext
      rw [List.getElem?_map, Option.map_eq_some_iff] at hpage
      rcases hpage with ⟨batch, hbatch, rfl⟩
      rw [List.length_map] at hnext ⊢
      exact length_of_not_last (by decide) hbatch hnext

end AllPages

/-! ### One show, and one show too many -/

/-- Documents that can be served make an index whose shows can be served. -/
theorem allServable_putAll {documents : List ShowDetails}
    (h : ∀ d ∈ documents, d.Servable) :
    AllServable (KeyedStore.empty.putAll documents) := by
  intro id d hd
  rcases KeyedStore.mem_or_of_get?_putAll hd with hmem | hold
  · exact h d hmem
  · exact allServable_empty id d hold

theorem listsAll_iff_one : ListsAll oneRanked (some "") := by
  have hcard : (oneRanked.found (some "")).length = _ := length_found rfl
  refine (listsAll_iff oneRanked rfl).mpr ⟨?_, allServable_putAll ?_⟩
  · rw [← hcard]
    decide
  · intro d hd
    rw [List.mem_singleton.mp hd]
    decide

/-- The shows 0 to 10000, each with an empty cast. -/
def manyShows : List ShowDetails :=
  (List.range 10001).map fun i =>
    { id := .ofNat i, _embedded := some { cast := some [] } }

theorem manyShows_nodup : (manyShows.map ShowDetails.id).Nodup := by
  unfold manyShows
  rw [List.map_map]
  refine List.Nodup.map_on ?_ List.nodup_range
  intro i hi k hk hik
  rw [List.mem_range] at hi hk
  have hint : (Int32.ofNat i).toInt = (Int32.ofNat k).toInt :=
    congrArg Int32.toInt hik
  rw [Int32.toInt_ofNat_of_lt (by omega), Int32.toInt_ofNat_of_lt (by omega)]
    at hint
  omega

def manyRanked : Ranking (KeyedStore.empty.putAll manyShows) :=
  .ofDistinct manyShows manyShows_nodup

/-- Each of the 10001 shows can be served, and the pages do not list them. -/
theorem many_not_listed :
    (KeyedStore.empty.putAll manyShows : Index ShowDetails).keys.card = 10001 ∧
      AllServable (KeyedStore.empty.putAll manyShows) ∧
      ¬ ListsAll manyRanked (some "") := by
  have hcard : (manyRanked.found (some "")).length = _ := length_found rfl
  have hlength : (manyRanked.found (some "")).length = 10001 := by
    unfold manyRanked
    rw [found_ofDistinct]
    unfold manyShows
    rw [List.length_map, List.length_range]
  rw [hlength] at hcard
  refine ⟨hcard.symm, allServable_putAll ?_, fun h => ?_⟩
  · intro d hd
    obtain ⟨i, _, rfl⟩ := List.mem_map.mp hd
    exact ⟨rfl, fun c hc => absurd hc List.not_mem_nil⟩
  · have hle := card_le_of_listsAll h
    omega

end TvMazeScraper
