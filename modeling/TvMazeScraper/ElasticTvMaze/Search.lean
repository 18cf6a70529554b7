import Mathlib.Order.WithBot
import TvMazeScraper.Lib.ExceptList
import TvMazeScraper.Lib.StableSort
import TvMazeScraper.Models

/-!
# `Search` and the shows endpoint

`Search` asks Elasticsearch for one page and puts the cast of each show that
comes back in the order of the birthdays, the youngest first.
`elasticClient.SearchAsync` is a parameter: a function from the request to the
response.

* `withSortedCast_iff`: a show can be served exactly when `_embedded`, the
  cast, its entries and their persons are not null.
* `search_of_servable`: a page of such shows is served in the order of its
  hits.
* `cast_perm`, `cast_descending`, `cast_noneLast`, `cast_stable` and
  `withSortedCast_served`: what the served cast is.
* `search_sorts_casts`: all of it for a whole page.
-/

namespace TvMazeScraper

/-! ## Requests and responses -/

/-- `Fuzziness` of NEST. -/
inductive Fuzziness where
  | auto
  | editDistance (distance : Int32)
  deriving DecidableEq, Repr

structure MultiMatchQuery where
  FuzzyTranspositions : Bool
  Fuzziness : Fuzziness
  Lenient : Bool
  Fields : List String
  Query : Option String
  deriving DecidableEq, Repr

inductive QueryContainer where
  | matchAll
  | multiMatch (query : MultiMatchQuery)
  deriving DecidableEq, Repr

structure SearchRequest where
  From : Int32
  Size : Int32
  Query : QueryContainer
  deriving DecidableEq, Repr

structure Hit where
  Source : ShowDetails
  deriving DecidableEq, Repr

structure SearchResponse where
  Hits : List Hit
  deriving DecidableEq, Repr

/-- `String.IsNullOrEmpty`. -/
def isNullOrEmpty (query : Option String) : Bool :=
  match query with
  | none => true
  | some query => query.isEmpty

/-- The request of `Search`.  `From` is computed in unchecked 32-bit
arithmetic. -/
def searchRequest (query : Option String)
    (fuzziness pageNumber pageSize : Int32) : SearchRequest where
  From := (pageNumber - 1) * pageSize
  Size := pageSize
  Query :=
    if isNullOrEmpty query then .matchAll
    else .multiMatch
      { FuzzyTranspositions := true
        Fuzziness :=
          if fuzziness = 1 then .auto else .editDistance fuzziness
        Lenient := true
        Fields := ["summary"]
        Query := query }

/-! ## The result -/

/-- `AllResultingSources`. -/
def allResultingSources (response : SearchResponse) : List ShowDetails :=
  response.Hits.map Hit.Source

/-- `c.person.birthday`. -/
def birthdayOf (c : Option Cast) : Except Exn (Option DateTime) :=
  match c with
  | none => .error .nullReference
  | some c =>
    match c.person with
    | none => .error .nullReference
    | some person => .ok person.birthday

/-- The default comparer of `DateTime?` puts null below every date. -/
def comparable (birthday : Option DateTime) : WithBot DateTime :=
  match birthday with
  | none => ⊥
  | some date => (date : WithBot DateTime)

/-- `OrderByDescending(...).ToList()`.  The keys of all elements are computed
before anything is sorted. -/
def orderByDescending {α : Type}
    (keySelector : α → Except Exn (Option DateTime)) (source : List α) :
    Except Exn (List α) := do
  let keys ← source.mapM keySelector
  return (StableSort.descending (fun p => comparable p.2)
    (source.zip keys)).map Prod.fst

/-- The lambda of `Search`.  A null `cast` is the null source of
`OrderByDescending`, an `ArgumentNullException`. -/
def withSortedCast (p : ShowDetails) : Except Exn ShowDetails :=
  match p._embedded with
  | none => .error .nullReference
  | some _embedded =>
    match _embedded.cast with
    | none => .error .argument
    | some cast => do
      let sorted ← orderByDescending birthdayOf cast
      return { p with _embedded := some { _embedded with cast := sorted } }

/-- `Search`. -/
def search (searchAsync : SearchRequest → SearchResponse)
    (query : Option String) (fuzziness pageNumber pageSize : Int32) :
    Except Exn (List ShowDetails) :=
  (allResultingSources
    (searchAsync (searchRequest query fuzziness pageNumber pageSize))).mapM
      withSortedCast

/-- The default page size of `Search`. -/
def defaultPageSize : Int32 := 10

/-- The endpoint `search/shows`. -/
def searchShows (searchAsync : SearchRequest → SearchResponse)
    (page : Option Int32) (q : Option String) :
    Except Exn (List ShowDetails) :=
  search searchAsync q 2 (page.getD 1) defaultPageSize

/-! ## One show -/

/-- Nothing that `Search` reads of a show is null. -/
def ShowDetails.Servable (d : ShowDetails) : Prop :=
  (d._embedded.bind Embedded.cast).isSome ∧
    ∀ c ∈ d.castEntries, (c.bind Cast.person).isSome

instance (d : ShowDetails) : Decidable d.Servable :=
  inferInstanceAs (Decidable (_ ∧ _))

/-- The birthday of the person of an entry. -/
def birthday (c : Option Cast) : Option DateTime :=
  (c.bind Cast.person).bind Person.birthday

/-- The cast in the order in which it is served. -/
def ShowDetails.sortedCast (d : ShowDetails) : List (Option Cast) :=
  StableSort.descending (fun c => comparable (birthday c)) d.castEntries

/-- The show as it is served. -/
def ShowDetails.served (d : ShowDetails) : ShowDetails :=
  { d with _embedded := some { cast := some d.sortedCast } }

theorem birthdayOf_of_isSome {c : Option Cast}
    (h : (c.bind Cast.person).isSome) : birthdayOf c = .ok (birthday c) := by
  cases c with
  | none => cases h
  | some c =>
    cases hperson : c.person with
    | none => simp [hperson] at h
    | some person => simp [birthdayOf, birthday, hperson]

theorem isSome_of_birthdayOf {c : Option Cast} {b : Option DateTime}
    (h : birthdayOf c = .ok b) : (c.bind Cast.person).isSome := by
  cases c with
  | none => cases h
  | some c =>
    cases hperson : c.person with
    | none => simp [birthdayOf, hperson] at h
    | some person => simp [hperson]

/-- Keys that can all be computed sort the list by these keys. -/
theorem orderByDescending_ok {α : Type}
    {keySelector : α → Except Exn (Option DateTime)}
    {key : α → Option DateTime} {source : List α}
    (h : ∀ a ∈ source, keySelector a = .ok (key a)) :
    orderByDescending keySelector source
      = .ok (StableSort.descending (fun a => comparable (key a)) source) := by
  unfold orderByDescending
  rw [ExceptList.mapM_ok h]
  show Except.ok _ = _
  rw [← List.map_prod_left_eq_zip, StableSort.descending_map, List.map_map]
  exact congrArg Except.ok (List.map_id _)

theorem withSortedCast_of_servable {d : ShowDetails} (h : d.Servable) :
    withSortedCast d = .ok d.served := by
  rcases h with ⟨hcast, hpersons⟩
  unfold withSortedCast ShowDetails.served ShowDetails.sortedCast
  unfold ShowDetails.castEntries at hpersons ⊢
  cases hembedded : d._embedded with
  | none => simp [hembedded] at hcast
  | some e =>
    cases hentries : e.cast with
    | none => simp [hembedded, hentries] at hcast
    | some cast =>
      simp only [hembedded, hentries, Option.bind_some, Option.getD_some]
        at hpersons ⊢
      rw [orderByDescending_ok fun c hc => birthdayOf_of_isSome (hpersons c hc)]
      rfl

/-- A show can be served if and only if nothing that `Search` reads of it is
null. -/
theorem withSortedCast_iff {d s : ShowDetails} :
    withSortedCast d = .ok s ↔ d.Servable ∧ s = d.served := by
  constructor
  · intro h
    have hservable : d.Servable := by
      unfold withSortedCast at h
      cases hembedded : d._embedded with
      | none => simp [hembedded] at h
      | some e =>
        cases hentries : e.cast with
        | none => simp [hembedded, hentries] at h
        | some cast =>
          simp only [hembedded, hentries] at h
          obtain ⟨sorted, hsorted, _⟩ := ExceptList.bind_ok h
          obtain ⟨keys, hkeys, _⟩ := ExceptList.bind_ok hsorted
          constructor
          · simp [hembedded, hentries]
          · intro c hc
            simp only [ShowDetails.castEntries, hembedded, hentries,
              Option.bind_some, Option.getD_some] at hc
            obtain ⟨b, hb⟩ := ExceptList.ok_of_mapM_ok hkeys hc
            exact isSome_of_birthdayOf hb
    refine ⟨hservable, ?_⟩
    rw [withSortedCast_of_servable hservable] at h
    exact (Except.ok.inj h).symm
  · rintro ⟨hservable, rfl⟩
    exact withSortedCast_of_servable hservable

/-! ## The served cast -/

theorem cast_perm (d : ShowDetails) : d.sortedCast.Perm d.castEntries :=
  StableSort.perm_descending _ _

/-- Birthdays do not increase. -/
theorem cast_descending (d : ShowDetails) : d.sortedCast.Pairwise
    fun c c' => ∀ b b', birthday c = some b → birthday c' = some b' →
      b' ≤ b := by
  refine (StableSort.pairwise_descending _ _).imp ?_
  intro c c' h b b' hb hb'
  rw [hb, hb'] at h
  exact WithBot.coe_le_coe.mp h

/-- Behind an entry without a birthday there are only such entries. -/
theorem cast_noneLast (d : ShowDetails) : d.sortedCast.Pairwise
    fun c c' => birthday c = none → birthday c' = none := by
  refine (StableSort.pairwise_descending _ _).imp ?_
  intro c c' h hc
  rw [hc] at h
  cases hc' : birthday c' with
  | none => rfl
  | some b' =>
    rw [hc'] at h
    exact absurd h (WithBot.not_coe_le_bot b')

theorem comparable_inj {b b' : Option DateTime} :
    comparable b = comparable b' ↔ b = b' := by
  cases b with
  | none => cases b' <;> simp [comparable]
  | some d => cases b' <;> simp [comparable]

/-- Entries with one birthday, or with none, keep their order. -/
theorem cast_stable (d : ShowDetails) (b : Option DateTime) :
    d.sortedCast.filter (birthday · = b)
      = d.castEntries.filter (birthday · = b) := by
  have h := StableSort.filter_descending
    (fun c => comparable (birthday c)) (comparable b) d.castEntries
  simp only [comparable_inj] at h
  exact h

/-- A served show can be served again, and nothing changes. -/
theorem withSortedCast_served {d : ShowDetails} (h : d.Servable) :
    withSortedCast d.served = .ok d.served := by
  have hagain : d.served.Servable := by
    refine ⟨rfl, fun c hc => h.2 c ?_⟩
    exact (cast_perm d).mem_iff.mp hc
  have hsorted : d.served.sortedCast = d.sortedCast :=
    StableSort.descending_descending _ _
  rw [withSortedCast_of_servable hagain]
  unfold ShowDetails.served at hsorted ⊢
  rw [hsorted]

/-- What `Search` makes of a stored show: its cast is in the order of the
birthdays, and everything else is as it was. -/
structure CastSorted (stored served : ShowDetails) : Prop where
  others : served = { stored with _embedded := served._embedded }
  hasCast : (served._embedded.bind Embedded.cast).isSome
  perm : served.castEntries.Perm stored.castEntries
  descending : served.castEntries.Pairwise fun c c' =>
    ∀ b b', birthday c = some b → birthday c' = some b' → b' ≤ b
  noneLast : served.castEntries.Pairwise fun c c' =>
    birthday c = none → birthday c' = none
  stable : ∀ b, served.castEntries.filter (birthday · = b)
    = stored.castEntries.filter (birthday · = b)
  again : withSortedCast served = .ok served

theorem castSorted_served {d : ShowDetails} (h : d.Servable) :
    CastSorted d d.served where
  others := rfl
  hasCast := rfl
  perm := cast_perm d
  descending := cast_descending d
  noneLast := cast_noneLast d
  stable := cast_stable d
  again := withSortedCast_served h

/-! ## One page -/

section Page

variable {searchAsync : SearchRequest → SearchResponse}
  {query : Option String} {fuzziness pageNumber pageSize : Int32}

/-- A page without nulls is served in the order of its hits. -/
theorem search_of_servable
    (h : ∀ hit ∈ (searchAsync
      (searchRequest query fuzziness pageNumber pageSize)).Hits,
        hit.Source.Servable) :
    search searchAsync query fuzziness pageNumber pageSize
      = .ok ((searchAsync (searchRequest query fuzziness pageNumber
          pageSize)).Hits.map fun hit => hit.Source.served) := by
  unfold search allResultingSources
  rw [List.mapM_map]
  apply ExceptList.mapM_ok
  intro hit hhit
  exact withSortedCast_of_servable (h hit hhit)

/-- A page that is served had no nulls. -/
theorem servable_of_search {shows : List ShowDetails}
    (h : search searchAsync query fuzziness pageNumber pageSize = .ok shows) :
    ∀ hit ∈ (searchAsync
      (searchRequest query fuzziness pageNumber pageSize)).Hits,
        hit.Source.Servable := by
  intro hit hhit
  have hmem : hit.Source ∈ allResultingSources
      (searchAsync (searchRequest query fuzziness pageNumber pageSize)) :=
    List.mem_map_of_mem hhit
  obtain ⟨s, hs⟩ := ExceptList.ok_of_mapM_ok h hmem
  exact (withSortedCast_iff.mp hs).1

end Page

/-- For every response whose shows have a cast with persons, `Search` returns
these shows in the order of the hits, each with its cast sorted. -/
theorem search_sorts_casts (searchAsync : SearchRequest → SearchResponse)
    (query : Option String) (fuzziness pageNumber pageSize : Int32)
    (h : ∀ hit ∈ (searchAsync
      (searchRequest query fuzziness pageNumber pageSize)).Hits,
        hit.Source.Servable) :
    ∃ shows, search searchAsync query fuzziness pageNumber pageSize
        = .ok shows ∧
      List.Forall₂ (fun hit served => CastSorted hit.Source served)
        (searchAsync (searchRequest query fuzziness pageNumber
          pageSize)).Hits shows := by
  refine ⟨_, search_of_servable h, ?_⟩
  rw [List.forall₂_map_right_iff, List.forall₂_same]
  intro hit hhit
  exact castSorted_served (h hit hhit)

/-- A cast with a missing birthday in front of two birthdays. -/
def threeCast : List (Option Cast) :=
  [some { person := some { id := 1 } },
    some { person := some { id := 2, birthday := some 5 } },
    some { person := some { id := 3, birthday := some 7 } }]

def threeCastHit : Hit where
  Source := { id := 1, _embedded := some { cast := some threeCast } }

theorem search_sorts_casts_three :
    ∃ shows, search (fun _ => { Hits := [threeCastHit] }) none 2 1 10
        = .ok shows ∧
      List.Forall₂ (fun hit served => CastSorted hit.Source served)
        [threeCastHit] shows := by
  refine search_sorts_casts (fun _ => { Hits := [threeCastHit] }) none 2 1 10
    ?_
  intro hit hhit
  rw [List.mem_singleton.mp hhit]
  decide

end TvMazeScraper
