import Mathlib.Data.List.Induction
import Mathlib.Tactic.SplitIfs
import Mathlib.Algebra.Order.Group.Nat

/-!
# Grouping by key and batches of a fixed size

`groupBy` collects the elements of a list under their keys.  The groups come
in the order in which their keys first appear, and a group keeps the order of
its elements.  `batchesOf n` numbers a list from zero and groups it by
`index / n`, and `chunk n b` is the window that batch `b` has to be.

* `groupBy_snoc`: grouping one more element at the end touches one group.
* `batchesOf_eq_chunks`: the batches are the windows `chunk n 0`,
  `chunk n 1`, and so on, as many as it takes to cover the list.
* `getElem?_batchesOf`, `length_of_not_last` and `exists_batch`: a batch, an
  element of it and their places in the list.
* `flatten_batchesOf`: the batches joined are the list.
* `batchesOf_of_ne_nil`: the first batch, for a recursion over the batches.
-/

namespace Batching

variable {α : Type*} {κ : Type*} [DecidableEq κ]

/-! ## Groups in the order of their first element -/

/-- Add `a` to the group of `k`, or open that group at the end. -/
def insertGroup (k : κ) (a : α) : List (κ × List α) → List (κ × List α)
  | [] => [(k, [a])]
  | (k', group) :: rest =>
    if k' = k then (k', group ++ [a]) :: rest
    else (k', group) :: insertGroup k a rest

/-- The elements of a list under their keys, in order of first appearance. -/
def groupBy (key : α → κ) (as : List α) : List (κ × List α) :=
  as.foldl (fun groups a => insertGroup (key a) a groups) []

theorem groupBy_snoc (key : α → κ) (as : List α) (a : α) :
    groupBy key (as ++ [a]) = insertGroup (key a) a (groupBy key as) := by
  rw [groupBy, List.foldl_append]
  rfl

/-- A key that has no group yet opens one at the end. -/
theorem insertGroup_of_not_mem {k : κ} {a : α} {groups : List (κ × List α)}
    (h : k ∉ groups.map Prod.fst) :
    insertGroup k a groups = groups ++ [(k, [a])] := by
  induction groups with
  | nil => rfl
  | cons g groups ih =>
    rcases g with ⟨k', group⟩
    rw [List.map_cons, List.mem_cons, not_or] at h
    rw [insertGroup, if_neg (Ne.symm h.1), ih h.2]
    rfl

/-- A key whose only group is the last one extends that group. -/
theorem insertGroup_last {k : κ} {a : α} {groups : List (κ × List α)}
    {group : List α} (h : k ∉ groups.map Prod.fst) :
    insertGroup k a (groups ++ [(k, group)])
      = groups ++ [(k, group ++ [a])] := by
  induction groups with
  | nil => rw [List.nil_append, insertGroup, if_pos rfl, List.nil_append]
  | cons g groups ih =>
    rcases g with ⟨k', group'⟩
    rw [List.map_cons, List.mem_cons, not_or] at h
    rw [List.cons_append, insertGroup, if_neg (Ne.symm h.1), ih h.2]
    rfl

/-! ## Windows of a list -/

/-- The window of `n` elements with number `b`. -/
def chunk (n b : Nat) (as : List α) : List α := (as.drop (n * b)).take n

/-- The number of windows of `n` elements that cover `len` elements. -/
def chunkCount (n len : Nat) : Nat := (len + n - 1) / n

theorem length_chunk (n b : Nat) (as : List α) :
    (chunk n b as).length = min n (as.length - n * b) := by
  rw [chunk, List.length_take, List.length_drop]

/-- An element of a window, by its place in the list. -/
theorem getElem?_chunk {n b i : Nat} (hi : i < n) (as : List α) :
    (chunk n b as)[i]? = as[n * b + i]? := by
  rw [chunk, List.getElem?_take_of_lt hi, List.getElem?_drop]

/-- The windows up to `m` joined are a prefix of the list. -/
theorem flatten_chunks (n : Nat) (as : List α) (m : Nat) :
    ((List.range m).map (chunk n · as)).flatten = as.take (n * m) := by
  induction m with
  | zero => simp
  | succ m ih =>
    rw [List.range_succ, List.map_append, List.flatten_append, ih,
      Nat.mul_succ, List.take_add]
    simp [chunk]

theorem le_mul_chunkCount {n : Nat} (hn : 0 < n) (len : Nat) :
    len ≤ n * chunkCount n len := by
  have h := Nat.lt_mul_div_succ (len + n - 1) hn
  rw [Nat.mul_add, Nat.mul_one] at h
  rw [chunkCount]
  omega

/-- A window that is counted has an element. -/
theorem mul_lt_of_lt_chunkCount {n len b : Nat} (hn : 0 < n)
    (h : b < chunkCount n len) : n * b < len := by
  have hdiv : (b + 1) * n ≤ len + n - 1 := (Nat.le_div_iff_mul_le hn).mp h
  rw [Nat.add_mul, Nat.one_mul, Nat.mul_comm b n] at hdiv
  omega

/-- The window of an element is counted. -/
theorem div_lt_chunkCount {n len i : Nat} (hn : 0 < n) (h : i < len) :
    i / n < chunkCount n len := by
  apply (Nat.le_div_iff_mul_le hn).mpr
  have hdiv := Nat.div_mul_le_self i n
  rw [Nat.succ_mul]
  omega

/-- One more element always lands in window `len / n`. -/
theorem chunkCount_succ {n : Nat} (hn : 0 < n) (len : Nat) :
    chunkCount n (len + 1) = len / n + 1 := by
  rw [chunkCount, show len + 1 + n - 1 = len + n by omega,
    Nat.add_div_right _ hn]

/-- A list of full windows only has `len / n` of them. -/
theorem chunkCount_of_full {n len : Nat} (hn : 0 < n) (h : len % n = 0) :
    chunkCount n len = len / n := by
  have hdm := Nat.div_add_mod' len n
  apply Nat.div_eq_of_lt_le (by omega)
  rw [Nat.add_mul, Nat.one_mul]
  omega

/-- A list whose last window is not full has one window more. -/
theorem chunkCount_of_partial {n len : Nat} (hn : 0 < n) (h : 0 < len % n) :
    chunkCount n len = len / n + 1 := by
  have hdm := Nat.div_add_mod' len n
  have hmod := Nat.mod_lt len hn
  apply Nat.div_eq_of_lt_le
  · rw [Nat.add_mul, Nat.one_mul]
    omega
  · rw [Nat.add_mul, Nat.add_mul, Nat.one_mul]
    omega

/-! ## Batches -/

/-- The numbered elements grouped by `index / n`. -/
def indexGroups (n : Nat) (as : List α) : List (Nat × List (α × Nat)) :=
  groupBy (fun p => p.2 / n) as.zipIdx

/-- The batches of `n` elements: number the list, group it by `index / n`,
and drop the numbers. -/
def batchesOf (n : Nat) (as : List α) : List (List α) :=
  (indexGroups n as).map fun g => g.2.map Prod.fst

/-- What the groups of the numbered list have to be. -/
def chunkGroups (n : Nat) (as : List α) : List (Nat × List (α × Nat)) :=
  (List.range (chunkCount n as.length)).map
    fun b => (b, chunk n b as.zipIdx)

/-- A window that the list covers does not see an element behind it. -/
theorem chunk_append_of_le {n b : Nat} {as bs : List α}
    (h : n * (b + 1) ≤ as.length) : chunk n b (as ++ bs) = chunk n b as := by
  rw [Nat.mul_succ] at h
  rw [chunk, chunk, List.drop_append_of_le_length (by omega),
    List.take_append_of_le_length]
  rw [List.length_drop]
  omega

/-- The windows below the last one do not see an element behind the list. -/
theorem chunks_append_of_le {n m : Nat} {as bs : List α}
    (h : n * m ≤ as.length) :
    (List.range m).map (fun b => (b, chunk n b (as ++ bs)))
      = (List.range m).map fun b => (b, chunk n b as) := by
  apply List.map_congr_left
  intro b hb
  rw [List.mem_range] at hb
  have hle : n * (b + 1) ≤ n * m := Nat.mul_le_mul_left n hb
  rw [chunk_append_of_le (by omega)]

/-- The windows of a list with one more element: the full ones stay, and the
element stands at the end of window `length / n`. -/
theorem chunkGroups_snoc {n : Nat} (hn : 0 < n) (as : List α) (a : α) :
    chunkGroups n (as ++ [a])
      = (List.range (as.length / n)).map (fun b => (b, chunk n b as.zipIdx))
        ++ [(as.length / n, chunk n (as.length / n) as.zipIdx
              ++ [(a, as.length)])] := by
  have hzip : (as ++ [a]).zipIdx = as.zipIdx ++ [(a, as.length)] := by
    rw [List.zipIdx_append, Nat.zero_add]
    rfl
  have hlen : as.zipIdx.length = as.length := List.length_zipIdx
  have hdm := Nat.div_add_mod as.length n
  have hmod := Nat.mod_lt as.length hn
  rw [chunkGroups, List.length_append, List.length_singleton,
    chunkCount_succ hn, hzip, List.range_succ, List.map_append,
    chunks_append_of_le (by omega), List.map_singleton]
  congr 4
  rw [chunk, chunk, List.drop_append_of_le_length (by omega),
    List.take_of_length_le, List.take_of_length_le]
  · rw [List.length_drop]
    omega
  · rw [List.length_append, List.length_drop, List.length_singleton]
    omega

/-- Grouping by `index / n` makes the windows.  The induction is on the list
from its end: the new element opens a group when the last window is full, and
extends the last group otherwise. -/
theorem indexGroups_eq_chunkGroups {n : Nat} (hn : 0 < n) (as : List α) :
    indexGroups n as = chunkGroups n as := by
  induction as using List.reverseRecOn with
  | nil =>
    have h0 : chunkCount n 0 = 0 := Nat.div_eq_of_lt (by omega)
    rw [chunkGroups, List.length_nil, h0]
    rfl
  | append_singleton as a ih =>
    have hzip : (as ++ [a]).zipIdx = as.zipIdx ++ [(a, as.length)] := by
      rw [List.zipIdx_append, Nat.zero_add]
      rfl
    have hfresh : as.length / n ∉ ((List.range (as.length / n)).map
        fun b => (b, chunk n b as.zipIdx)).map Prod.fst := by
      simp
    rw [indexGroups] at ih
    rw [indexGroups, hzip, groupBy_snoc, ih, chunkGroups_snoc hn]
    rcases Nat.eq_zero_or_pos (as.length % n) with hfull | hpart
    · -- The last window is full, so the element opens window `length / n`.
      have hempty : chunk n (as.length / n) as.zipIdx = [] := by
        have hdm := Nat.div_add_mod as.length n
        have hlen : as.zipIdx.length = as.length := List.length_zipIdx
        rw [chunk, List.drop_eq_nil_of_le (by omega), List.take_nil]
      rw [chunkGroups, chunkCount_of_full hn hfull,
        insertGroup_of_not_mem hfresh, hempty]
      rfl
    · rw [chunkGroups, chunkCount_of_partial hn hpart, List.range_succ,
        List.map_append, List.map_singleton, insertGroup_last hfresh]

/-- The batches are the windows of the list, in order. -/
theorem batchesOf_eq_chunks {n : Nat} (hn : 0 < n) (as : List α) :
    batchesOf n as
      = (List.range (chunkCount n as.length)).map (chunk n · as) := by
  rw [batchesOf, indexGroups_eq_chunkGroups hn, chunkGroups, List.map_map]
  apply List.map_congr_left
  intro b _
  change (chunk n b as.zipIdx).map Prod.fst = chunk n b as
  rw [chunk, chunk, List.map_take, List.map_drop, List.zipIdx_map_fst]

theorem length_batchesOf {n : Nat} (hn : 0 < n) (as : List α) :
    (batchesOf n as).length = chunkCount n as.length := by
  rw [batchesOf_eq_chunks hn, List.length_map, List.length_range]

/-- Batch `b` is window `b`. -/
theorem getElem?_batchesOf {n b : Nat} (hn : 0 < n) {as batch : List α} :
    (batchesOf n as)[b]? = some batch ↔
      b < chunkCount n as.length ∧ batch = chunk n b as := by
  rw [batchesOf_eq_chunks hn, List.getElem?_map, Option.map_eq_some_iff]
  constructor
  · intro h
    obtain ⟨b', hb', hchunk⟩ := h
    rw [List.getElem?_eq_some_iff] at hb'
    obtain ⟨hlt, hget⟩ := hb'
    rw [List.length_range] at hlt
    rw [List.getElem_range] at hget
    subst hget
    exact ⟨hlt, hchunk.symm⟩
  · intro h
    rcases h with ⟨hlt, hchunk⟩
    exact ⟨b, List.getElem?_range hlt, hchunk.symm⟩

/-- Every batch but the last is full. -/
theorem length_of_not_last {n b : Nat} (hn : 0 < n) {as batch : List α}
    (hbatch : (batchesOf n as)[b]? = some batch)
    (hnext : b + 1 < (batchesOf n as).length) : batch.length = n := by
  rw [length_batchesOf hn] at hnext
  have hlt := mul_lt_of_lt_chunkCount hn hnext
  rw [Nat.mul_succ] at hlt
  rw [((getElem?_batchesOf hn).mp hbatch).2, length_chunk]
  omega

/-- The batch of an element, and its place in the batch. -/
theorem exists_batch {n i : Nat} (hn : 0 < n) {as : List α}
    (hi : i < as.length) :
    ∃ batch, (batchesOf n as)[i / n]? = some batch ∧ i % n < batch.length := by
  refine ⟨chunk n (i / n) as,
    (getElem?_batchesOf hn).mpr ⟨div_lt_chunkCount hn hi, rfl⟩, ?_⟩
  have hmod := Nat.mod_lt i hn
  have hdiv := Nat.div_add_mod i n
  rw [length_chunk]
  omega

/-- The batches joined are the list. -/
theorem flatten_batchesOf {n : Nat} (hn : 0 < n) (as : List α) :
    (batchesOf n as).flatten = as := by
  rw [batchesOf_eq_chunks hn, flatten_chunks,
    List.take_of_length_le (le_mul_chunkCount hn as.length)]

theorem chunkCount_drop {n len : Nat} (hn : 0 < n) (h : 0 < len) :
    chunkCount n len = chunkCount n (len - n) + 1 := by
  unfold chunkCount
  rw [← Nat.add_div_right _ hn]
  by_cases hle : n ≤ len
  · congr 1
    omega
  · rw [show len - n + n - 1 + n = n - 1 + n by omega,
      Nat.add_div_right _ hn, Nat.div_eq_of_lt (by omega : n - 1 < n)]
    apply Nat.div_eq_of_lt_le
    · omega
    · omega

/-- The first batch, and the batches of the rest. -/
theorem batchesOf_of_ne_nil {n : Nat} (hn : 0 < n) {as : List α}
    (has : as ≠ []) :
    batchesOf n as = as.take n :: batchesOf n (as.drop n) := by
  have hlen : 0 < as.length := List.length_pos_iff.mpr has
  rw [batchesOf_eq_chunks hn, batchesOf_eq_chunks hn, List.length_drop,
    chunkCount_drop hn hlen, List.range_succ_eq_map, List.map_cons,
    List.map_map]
  congr 1
  apply List.map_congr_left
  intro b _
  show (as.drop (n * (b + 1))).take n = ((as.drop n).drop (n * b)).take n
  rw [List.drop_drop, Nat.mul_succ, Nat.add_comm]

/-- Lists of at most `n` elements joined. -/
theorem length_flatten_le {n : Nat} {ls : List (List α)}
    (h : ∀ l ∈ ls, l.length ≤ n) : ls.flatten.length ≤ n * ls.length := by
  induction ls with
  | nil => exact Nat.zero_le _
  | cons l ls ih =>
    have hl := h l List.mem_cons_self
    have hls := ih fun l hl => h l (List.mem_cons_of_mem _ hl)
    rw [List.flatten_cons, List.length_append, List.length_cons,
      Nat.mul_succ]
    omega

end Batching
