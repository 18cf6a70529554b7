import Mathlib.Data.List.Sort

/-!
# Reading a sorted snapshot page by page

A client reads an ascending list of keys in pages.  Each request asks for the
first `size` keys above a cursor, the cursor moves to the last key of the
page, and an empty page ends the loop.  A request that is not answered looks
to the client like an empty page.

The key type is an arbitrary linear order, and the page size is a parameter.

* `filter_lt_length_lt`: a key above the cursor leaves fewer keys above it,
  which is why the loop ends.
* `scroll_eq_filter`: when every request is answered, the pages joined are
  the keys above the first cursor, each once.
* `scrollWithin_eq`: one request more than there are keys above the cursor is
  enough, whichever requests are answered.
* `mem_scroll`: a key is read exactly when its page and all pages before it
  are answered.
-/

namespace Paging

variable {κ : Type*} [LinearOrder κ]

/-- The first `size` keys above the cursor. -/
def searchAfter (size : Nat) (ids : List κ) (cursor : κ) : List κ :=
  (ids.filter (cursor < ·)).take size

/-- The keys above a key that is above the cursor are above the cursor. -/
theorem filter_lt_filter_lt (ids : List κ) {cursor last : κ}
    (hlt : cursor < last) :
    (ids.filter (cursor < ·)).filter (last < ·) = ids.filter (last < ·) := by
  rw [List.filter_filter]
  apply List.filter_congr
  intro k _
  by_cases hk : last < k
  · simp [hk, hlt.trans hk]
  · simp [hk]

/-- A key above the cursor that the list holds leaves fewer keys above it. -/
theorem filter_lt_length_lt {ids : List κ} {cursor last : κ}
    (hmem : last ∈ ids) (hlt : cursor < last) :
    (ids.filter (last < ·)).length < (ids.filter (cursor < ·)).length := by
  rw [← filter_lt_filter_lt ids hlt]
  refine List.length_filter_lt_length_iff_exists.mpr ⟨last, ?_, ?_⟩
  · simp [hmem, hlt]
  · simp

theorem mem_searchAfter {size : Nat} {ids : List κ} {cursor k : κ}
    (h : k ∈ searchAfter size ids cursor) : k ∈ ids ∧ cursor < k := by
  simpa using List.mem_of_mem_take h

/-- The page of request `n`, empty when the request is not answered. -/
def page (size : Nat) (answered : Nat → Bool) (ids : List κ) (n : Nat)
    (cursor : κ) : List κ :=
  if answered n then searchAfter size ids cursor else []

theorem mem_page {size : Nat} {answered : Nat → Bool} {ids : List κ}
    {n : Nat} {cursor k : κ} (h : k ∈ page size answered ids n cursor) :
    k ∈ ids ∧ cursor < k := by
  rw [page] at h
  split_ifs at h with ha
  · exact mem_searchAfter h
  · cases h

/-- The reading loop.  It starts with request `n` above `cursor` and returns
the pages joined. -/
def scroll (size : Nat) (answered : Nat → Bool) (ids : List κ) (n : Nat)
    (cursor : κ) : List κ :=
  match _h : (page size answered ids n cursor).getLast? with
  | none => []
  | some last =>
    page size answered ids n cursor ++ scroll size answered ids (n + 1) last
termination_by (ids.filter (cursor < ·)).length
decreasing_by
  obtain ⟨hmem, hlt⟩ := mem_page (List.mem_of_getLast? _h)
  exact filter_lt_length_lt hmem hlt

/-- An empty page ends the loop. -/
theorem scroll_of_none {size : Nat} {answered : Nat → Bool} {ids : List κ}
    {n : Nat} {cursor : κ}
    (h : (page size answered ids n cursor).getLast? = none) :
    scroll size answered ids n cursor = [] := by
  rw [scroll]
  split
  · rfl
  · rename_i hsome
    rw [h] at hsome
    cases hsome

/-- A page that is not empty is read, and the loop goes on behind it. -/
theorem scroll_of_some {size : Nat} {answered : Nat → Bool} {ids : List κ}
    {n : Nat} {cursor last : κ}
    (h : (page size answered ids n cursor).getLast? = some last) :
    scroll size answered ids n cursor
      = page size answered ids n cursor
        ++ scroll size answered ids (n + 1) last := by
  rw [scroll]
  split
  · rename_i hnone
    rw [h] at hnone
    cases hnone
  · rename_i hsome
    rw [h] at hsome
    rw [Option.some.inj hsome]

/-- The keys above the last key of a page are the keys behind the page. -/
theorem filter_last_eq_drop {size : Nat} {ids : List κ} {cursor last : κ}
    (hsorted : ids.Pairwise (· < ·))
    (hlast : (searchAfter size ids cursor).getLast? = some last) :
    ids.filter (last < ·) = (ids.filter (cursor < ·)).drop size := by
  obtain ⟨_, hlt⟩ := mem_searchAfter (List.mem_of_getLast? hlast)
  have habove : (ids.filter (cursor < ·)).Pairwise (· < ·) :=
    hsorted.filter _
  rw [searchAfter] at hlast
  rw [← filter_lt_filter_lt ids hlt]
  generalize ids.filter (cursor < ·) = above at habove hlast ⊢
  obtain ⟨init, hinit⟩ := List.getLast?_eq_some_iff.mp hlast
  have hjoin := List.take_append_drop size above
  rw [hinit] at hjoin
  rw [← hjoin, List.pairwise_append, List.pairwise_append] at habove
  rcases habove with ⟨⟨_, _, hbelow⟩, _, hbehind⟩
  have hpage : (init ++ [last]).filter (last < ·) = [] := by
    rw [List.filter_eq_nil_iff]
    intro k hk
    rcases List.mem_append.mp hk with hk | hk
    · simpa using (hbelow k hk last (List.mem_singleton_self last)).le
    · rw [List.mem_singleton] at hk
      simp [hk]
  have hrest : (above.drop size).filter (last < ·) = above.drop size := by
    rw [List.filter_eq_self]
    intro k hk
    simpa using hbehind last (by simp) k hk
  conv_lhs => rw [← hjoin]
  rw [List.filter_append, hpage, hrest, List.nil_append]

/-- When every request is answered, the loop reads each key above the first
cursor once, in order.  The induction is the recursion of the loop, and the
cursor invariant is that the keys above the cursor are the keys not read. -/
theorem scroll_eq_filter {size : Nat} (hsize : 0 < size)
    {answered : Nat → Bool} (hanswered : ∀ n, answered n = true)
    {ids : List κ} (hsorted : ids.Pairwise (· < ·)) (n : Nat) (cursor : κ) :
    scroll size answered ids n cursor = ids.filter (cursor < ·) := by
  have hpage (n : Nat) (cursor : κ) :
      page size answered ids n cursor = searchAfter size ids cursor := by
    rw [page, if_pos (hanswered n)]
  induction n, cursor using scroll.induct size answered ids with
  | case1 n cursor hlast =>
    rw [scroll_of_none hlast]
    rw [hpage, List.getLast?_eq_none_iff, searchAfter,
      List.take_eq_nil_iff] at hlast
    rcases hlast with h0 | hnil
    · omega
    · exact hnil.symm
  | case2 n cursor last hlast ih =>
    rw [scroll_of_some hlast, ih]
    rw [hpage] at hlast ⊢
    rw [filter_last_eq_drop hsorted hlast, searchAfter,
      List.take_append_drop]

/-! ## The number of requests -/

/-- The reading loop with a bound on the number of requests.  There is no
result when the bound is too small. -/
def scrollWithin (size : Nat) (answered : Nat → Bool) (ids : List κ) :
    Nat → Nat → κ → Option (List κ)
  | 0, _, _ => none
  | requests + 1, n, cursor =>
    match (page size answered ids n cursor).getLast? with
    | none => some []
    | some last =>
      (scrollWithin size answered ids requests (n + 1) last).map
        (page size answered ids n cursor ++ ·)

/-- The loop ends: each page that is not empty leaves fewer keys above the
cursor. -/
theorem scrollWithin_eq {size : Nat} {answered : Nat → Bool} {ids : List κ}
    {requests : Nat} : ∀ {n : Nat} {cursor : κ},
      (ids.filter (cursor < ·)).length < requests →
      scrollWithin size answered ids requests n cursor
        = some (scroll size answered ids n cursor) := by
  induction requests with
  | zero => intro n cursor h; omega
  | succ requests ih =>
    intro n cursor h
    unfold scrollWithin
    cases hlast : (page size answered ids n cursor).getLast? with
    | none => rw [scroll_of_none hlast]
    | some last =>
      obtain ⟨hmem, hlt⟩ := mem_page (List.mem_of_getLast? hlast)
      have hfewer := filter_lt_length_lt hmem hlt
      rw [scroll_of_some hlast]
      simp only
      rw [ih (by omega), Option.map_some]

/-! ## Requests that are not answered -/

/-- A page that is not empty was answered. -/
theorem answered_of_getLast? {size : Nat} {answered : Nat → Bool}
    {ids : List κ} {n : Nat} {cursor last : κ}
    (h : (page size answered ids n cursor).getLast? = some last) :
    answered n = true := by
  by_contra hnot
  rw [page, if_neg hnot] at h
  cases h

/-- The loop reads some of the keys above the cursor, in order. -/
theorem scroll_sublist {size : Nat} {answered : Nat → Bool} {ids : List κ}
    (hsorted : ids.Pairwise (· < ·)) (n : Nat) (cursor : κ) :
    (scroll size answered ids n cursor).Sublist
      (ids.filter (cursor < ·)) := by
  induction n, cursor using scroll.induct size answered ids with
  | case1 n cursor hlast =>
    rw [scroll_of_none hlast]
    exact List.nil_sublist _
  | case2 n cursor last hlast ih =>
    have hanswered := answered_of_getLast? hlast
    rw [scroll_of_some hlast]
    rw [page, if_pos hanswered] at hlast ⊢
    rw [filter_last_eq_drop hsorted hlast] at ih
    rw [← List.take_append_drop size (ids.filter (cursor < ·))]
    exact (List.Sublist.refl _).append ih

/-- The page number of a key on the first page. -/
theorem idxOf_div_of_mem_take {size : Nat} {above : List κ} {k : κ}
    (h : k ∈ above.take size) : above.idxOf k / size = 0 := by
  have hlt := List.idxOf_lt_length_of_mem h
  rw [List.length_take] at hlt
  rw [← List.take_append_drop size above, List.idxOf_append_of_mem h]
  exact Nat.div_eq_of_lt (by omega)

/-- The page number of a key behind the first page, which is full then. -/
theorem idxOf_div_of_mem_drop {size : Nat} (hsize : 0 < size)
    {above : List κ} {k : κ} (hnot : k ∉ above.take size)
    (h : k ∈ above.drop size) :
    above.idxOf k / size = (above.drop size).idxOf k / size + 1 := by
  have hfull : (above.take size).length = size := by
    have hpos := List.length_pos_of_mem h
    rw [List.length_drop] at hpos
    rw [List.length_take]
    omega
  conv_lhs => rw [← List.take_append_drop size above]
  rw [List.idxOf_append_of_notMem hnot, hfull]
  exact Nat.add_div_left _ hsize

/-- All requests up to one more are answered when the first and those behind
it are. -/
theorem answered_succ_iff {answered : Nat → Bool} {n p : Nat}
    (hanswered : answered n = true) :
    (∀ m ≤ p + 1, answered (n + m) = true) ↔
      ∀ m ≤ p, answered (n + 1 + m) = true := by
  constructor
  · intro h m hm
    rw [show n + 1 + m = n + (m + 1) by omega]
    exact h (m + 1) (by omega)
  · intro h m hm
    cases m with
    | zero => exact hanswered
    | succ m =>
      rw [show n + (m + 1) = n + 1 + m by omega]
      exact h m (by omega)

/-- A key is read if and only if the request for its page and all requests
before it are answered.  The induction is the recursion of the loop. -/
theorem mem_scroll {size : Nat} (hsize : 0 < size) {answered : Nat → Bool}
    {ids : List κ} (hsorted : ids.Pairwise (· < ·)) {k : κ} (n : Nat)
    (cursor : κ) :
    k ∈ scroll size answered ids n cursor ↔
      k ∈ ids.filter (cursor < ·) ∧
        ∀ m ≤ (ids.filter (cursor < ·)).idxOf k / size,
          answered (n + m) = true := by
  induction n, cursor using scroll.induct size answered ids with
  | case1 n cursor hlast =>
    rw [scroll_of_none hlast]
    refine iff_of_false List.not_mem_nil ?_
    rintro ⟨hk, hall⟩
    have hanswered : answered n = true := hall 0 (Nat.zero_le _)
    rw [page, if_pos hanswered, searchAfter, List.getLast?_eq_none_iff,
      List.take_eq_nil_iff] at hlast
    rcases hlast with h0 | hnil
    · omega
    · rw [hnil] at hk
      cases hk
  | case2 n cursor last hlast ih =>
    have hanswered := answered_of_getLast? hlast
    rw [scroll_of_some hlast, List.mem_append, ih]
    rw [page, if_pos hanswered] at hlast ⊢
    rw [filter_last_eq_drop hsorted hlast, searchAfter]
    generalize ids.filter (cursor < ·) = above
    by_cases hpage : k ∈ above.take size
    · refine iff_of_true (.inl hpage) ⟨List.mem_of_mem_take hpage, ?_⟩
      intro m hm
      rw [idxOf_div_of_mem_take hpage] at hm
      obtain rfl : m = 0 := by omega
      exact hanswered
    · have hmem : k ∈ above ↔ k ∈ above.drop size := by
        conv_lhs => rw [← List.take_append_drop size above]
        rw [List.mem_append]
        exact or_iff_right hpage
      rw [or_iff_right hpage, hmem]
      apply and_congr_right
      intro hrest
      rw [idxOf_div_of_mem_drop hsize hpage hrest]
      exact (answered_succ_iff hanswered).symm

end Paging
