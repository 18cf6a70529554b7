import TvMazeScraper.Cycles

/-!
# Draining the queue

Every fetch succeeds and every write is accepted.  Then each cycle removes 20
rows, or all of them when there are fewer, and the final index is the initial
one overridden by the shows of the queued URLs.

* `exists_draining`: cycles like that go on as long as one likes.
* `drain_length`: the number of rows after some cycles.
* `overridden_of_drained`: the index of a run that empties the queue.
* `OverriddenBy.unique`: the override depends on the set of the URLs only.
* `drain_exact`: the number of cycles, the final index, and its independence
  of everything but the set of URLs and the initial index.
-/

namespace TvMazeScraper

open Machine

/-- Cycles in which every fetch succeeds and every write of a show is
accepted. -/
def draining (json : JsonConvert) (config : ELKConfiguration)
    (resp : String → ShowDetails) : Machine World (List ConsumerQueueItem) :=
  consuming json config fun _ input =>
    input.Settled json fun url => some (resp url)

/-- `index'` is `index` overridden, at the id of the show of each URL, by
that show. -/
structure OverriddenBy (resp : String → ShowDetails) (urls : List String)
    (index index' : Index ShowDetails) : Prop where
  stored : ∀ u ∈ urls, index'.get? (resp u).id = some (resp u)
  untouched : ∀ id, (∀ u ∈ urls, (resp u).id ≠ id) →
    index'.get? id = index.get? id

/-- Two indexes that override one index by the same set of URLs are equal. -/
theorem OverriddenBy.unique {resp : String → ShowDetails}
    {urls urls' : List String} {index index' index'' : Index ShowDetails}
    (h : OverriddenBy resp urls index index')
    (h' : OverriddenBy resp urls' index index'')
    (hurls : ∀ u, u ∈ urls ↔ u ∈ urls') : index' = index'' := by
  apply KeyedStore.ext_get?
  intro id
  by_cases hid : ∃ u ∈ urls, (resp u).id = id
  · rcases hid with ⟨u, hu, rfl⟩
    rw [h.stored u hu, h'.stored u ((hurls u).mp hu)]
  · have hnot : ∀ u ∈ urls, (resp u).id ≠ id :=
      fun u hu he => hid ⟨u, hu, he⟩
    rw [h.untouched id hnot,
      h'.untouched id fun u hu => hnot u ((hurls u).mpr hu)]

/-- The ids of an overridden index. -/
theorem OverriddenBy.mem_keys {resp : String → ShowDetails}
    {urls : List String} {index index' : Index ShowDetails}
    (h : OverriddenBy resp urls index index') {id : Int32} :
    id ∈ index'.keys ↔ id ∈ index.keys ∨ ∃ u ∈ urls, (resp u).id = id := by
  by_cases hid : ∃ u ∈ urls, (resp u).id = id
  · rcases hid with ⟨u, hu, hresp⟩
    have hget := h.stored u hu
    rw [hresp] at hget
    have hmem : id ∈ index'.keys := KeyedStore.mem_keys.mpr ⟨_, hget⟩
    exact ⟨fun _ => .inr ⟨u, hu, hresp⟩, fun _ => hmem⟩
  · have hget := h.untouched id fun u hu he => hid ⟨u, hu, he⟩
    rw [KeyedStore.mem_keys, KeyedStore.mem_keys, hget]
    exact ⟨.inl, fun hor => hor.resolve_right hid⟩

section Drain

variable {json : JsonConvert} {config : ELKConfiguration}
  {resp : String → ShowDetails} {w w' : World}
  {taken : List (List ConsumerQueueItem)}

/-- When the queued URLs have bodies, there is a cycle that fetches them. -/
theorem exists_draining_step (config : ELKConfiguration)
    (hbodies : ∀ r ∈ w.queue.rows, ∃ body,
      json.deserializeShowDetails body = .ok (some (resp r.UrlToProcess))) :
    ∃ picked w', (draining json config resp).Step w picked w' := by
  choose! body hbody using hbodies
  let input : CycleInput w.queue.rows :=
    .first _ (fun r => .success (body r)) .accepting
  refine ⟨_, _, input, ⟨?_, WriteOutcomes.accepting_shows _⟩, rfl, rfl⟩
  intro r hr
  exact ⟨body r, rfl, hbody r (input.topTen.mem_of_mem_picked hr)⟩

/-- There are runs of any number of cycles. -/
theorem exists_draining (config : ELKConfiguration)
    (hbodies : ∀ r ∈ w.queue.rows, ∃ body,
      json.deserializeShowDetails body = .ok (some (resp r.UrlToProcess)))
    (n : Nat) :
    ∃ taken w', (draining json config resp).Run w taken w' ∧
      taken.length = n := by
  induction n with
  | zero => exact ⟨[], w, .nil w, rfl⟩
  | succ n ih =>
    obtain ⟨taken, w', hrun, hlength⟩ := ih
    -- the rows that are left are rows of the first queue
    have hrows : w'.queue.rows.Sublist w.queue.rows :=
      (ingested_of_run (fun _ _ h => h) hrun).sublist
    obtain ⟨picked, w'', hstep⟩ := exists_draining_step config
      fun r hr => hbodies r (hrows.subset hr)
    refine ⟨taken ++ [picked], w'', hrun.snoc hstep, ?_⟩
    rw [List.length_append, List.length_singleton, hlength]

/-- The rows after one cycle are those that it did not take. -/
theorem drain_step_rows {input : CycleInput w.queue.rows}
    (h : input.Settled json fun url => some (resp url)) :
    (consumeLogic json config w input).queue.rows.length
      = w.queue.rows.length - 20 := by
  have hnodup : (consumeLogic json config w input).queue.rows.Nodup :=
    (consumeLogic json config w input).queue.nodup
  have hperm : (consumeLogic json config w input).queue.rows.Perm
      (w.queue.rows.filter fun r => r ∉ input.topTen.picked) := by
    refine (List.perm_ext_iff_of_nodup hnodup
      (w.queue.nodup.filter _)).mpr fun r => ?_
    rw [h.rows_iff, List.mem_filter, decide_eq_true_iff]
    simp
  rw [hperm.length_eq, input.topTen.length_filter_not_mem w.queue.nodup]

/-- Each cycle takes 20 rows as long as there are 20. -/
theorem drain_length (hrun : (draining json config resp).Run w taken w') :
    w'.queue.rows.length = w.queue.rows.length - 20 * taken.length := by
  induction hrun with
  | nil => rw [List.length_nil, Nat.mul_zero, Nat.sub_zero]
  | snoc _ hstep ih =>
    rcases hstep with ⟨input, hinput, _, rfl⟩
    rw [drain_step_rows hinput, ih, List.length_append, List.length_singleton]
    omega

/-- The index of a run that empties the queue. -/
theorem overridden_of_drained
    (hinj : ∀ u ∈ w.queue.urls, ∀ v ∈ w.queue.urls,
      (resp u).id = (resp v).id → u = v)
    (hrun : (draining json config resp).Run w taken w')
    (hempty : w'.queue.rows = []) :
    OverriddenBy resp w.queue.urls w.storage.shows w'.storage.shows := by
  have hingested := ingested_of_run (fun _ _ h => h) hrun
  obtain ⟨stored, hstored, hmem⟩ := hingested.stored_of_drained (by
    rw [hempty]
    intro r hr
    cases hr)
  have hof : ∀ d ∈ stored, ∃ u ∈ w.queue.urls, resp u = d := by
    intro d hd
    obtain ⟨u, hu, hresp⟩ := (hmem d).mp hd
    exact ⟨u, hu, Option.some.inj hresp⟩
  rw [hstored]
  constructor
  · intro u hu
    refine KeyedStore.get?_putAll_of_consistent
      ((hmem (resp u)).mpr ⟨u, hu, rfl⟩) ?_ w.storage.shows
    intro d hd hid
    obtain ⟨v, hv, rfl⟩ := hof d hd
    rw [hinj v hv u hu hid]
  · intro id hid
    refine KeyedStore.get?_putAll_of_not_mem ?_ w.storage.shows
    intro d hd
    obtain ⟨u, hu, rfl⟩ := hof d hd
    exact hid u hu

/-- The queue is empty after `⌈n / 20⌉` cycles and not earlier.  The index
is then the initial one overridden by the shows of the queued URLs, and it is
the index of every other run that empties a queue with the same set of URLs
from the same index. -/
theorem drain_exact
    (hinj : ∀ u ∈ w.queue.urls, ∀ v ∈ w.queue.urls,
      (resp u).id = (resp v).id → u = v)
    (hrun : (draining json config resp).Run w taken w') :
    (w'.queue.rows = [] ↔ (w.queue.rows.length + 19) / 20 ≤ taken.length) ∧
      (w'.queue.rows = [] →
        OverriddenBy resp w.queue.urls w.storage.shows w'.storage.shows ∧
        ∀ (v v' : World) (taken' : List (List ConsumerQueueItem)),
          (draining json config resp).Run v taken' v' →
          v'.queue.rows = [] → v.storage.shows = w.storage.shows →
          (∀ u, u ∈ v.queue.urls ↔ u ∈ w.queue.urls) →
          v'.storage.shows = w'.storage.shows) := by
  constructor
  · rw [← List.length_eq_zero_iff, drain_length hrun]
    omega
  · intro hempty
    have hindex := overridden_of_drained hinj hrun hempty
    refine ⟨hindex, fun v v' taken' hrun' hempty' hshows hurls => ?_⟩
    have hinj' : ∀ u ∈ v.queue.urls, ∀ u' ∈ v.queue.urls,
        (resp u).id = (resp u').id → u = u' :=
      fun u hu u' hu' => hinj u ((hurls u).mp hu) u' ((hurls u').mp hu')
    have hindex' := overridden_of_drained hinj' hrun' hempty'
    rw [hshows] at hindex'
    exact hindex'.unique hindex hurls

end Drain

/-! ### A run of one cycle -/

/-- The URLs of both shows, the first of them twice. -/
def twoQueued : World := .queued [showUrl "1", showUrl "2", showUrl "1"]

def twoCycle : CycleInput twoQueued.queue.rows :=
  .first _ twoResponses .accepting

theorem twoCycle_settled :
    twoCycle.Settled twoBodies fun url => some (twoShows url) where
  follows := twoResponses_follow _
  accepts := WriteOutcomes.accepting_shows _

theorem drain_exact_two :
    (consumeLogic twoBodies { index := "tv" } twoQueued twoCycle).queue.rows
        = [] ∧
      OverriddenBy twoShows twoQueued.queue.urls twoQueued.storage.shows
        (consumeLogic twoBodies { index := "tv" } twoQueued twoCycle
          ).storage.shows := by
  have hrun : (draining twoBodies { index := "tv" } twoShows).Run twoQueued
      [twoCycle.topTen.picked]
      (consumeLogic twoBodies { index := "tv" } twoQueued twoCycle) :=
    .single ⟨twoCycle, twoCycle_settled, rfl, rfl⟩
  have hinj : ∀ u ∈ twoQueued.queue.urls, ∀ v ∈ twoQueued.queue.urls,
      (twoShows u).id = (twoShows v).id → u = v := by
    decide
  have hempty := (drain_exact hinj hrun).1.mpr (by decide)
  exact ⟨hempty, ((drain_exact hinj hrun).2 hempty).1⟩

end TvMazeScraper
