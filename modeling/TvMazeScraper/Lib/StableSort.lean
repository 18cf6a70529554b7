import Mathlib.Order.Lattice
import Mathlib.Data.List.Basic

/-!
# Stable sorting by a key, largest first

A list is sorted by a key in descending order, and elements with equal keys
keep their order.  The element type is arbitrary, and the key type is a
linear order.

* `perm_descending` and `pairwise_descending`: the result is a permutation of
  the list, and its keys do not increase.
* `filter_descending`: the elements with one key keep their order.
* `descending_descending`: sorting again changes nothing.
* `descending_map`: sorting commutes with a map that keeps the keys.
-/

namespace StableSort

variable {α β κ : Type*} [LinearOrder κ]

/-- Sort by a key, largest first.  Elements with equal keys keep their
order. -/
def descending (key : α → κ) (l : List α) : List α :=
  l.mergeSort fun a b => decide (key b ≤ key a)

theorem perm_descending (key : α → κ) (l : List α) :
    (descending key l).Perm l :=
  List.mergeSort_perm l _

private theorem ge_trans_key (key : α → κ) (a b c : α)
    (hab : decide (key b ≤ key a) = true)
    (hbc : decide (key c ≤ key b) = true) :
    decide (key c ≤ key a) = true := by
  rw [decide_eq_true_eq] at hab hbc ⊢
  exact le_trans hbc hab

private theorem ge_total_key (key : α → κ) (a b : α) :
    (decide (key b ≤ key a) || decide (key a ≤ key b)) = true := by
  simpa using le_total (key b) (key a)

/-- The keys of the result do not increase. -/
theorem pairwise_descending (key : α → κ) (l : List α) :
    (descending key l).Pairwise fun a b => key b ≤ key a := by
  have h := List.pairwise_mergeSort (ge_trans_key key) (ge_total_key key) l
  exact h.imp fun hab => of_decide_eq_true hab

/-- The elements with one key keep their order. -/
theorem filter_descending (key : α → κ) (k : κ) (l : List α) :
    (descending key l).filter (key · = k) = l.filter (key · = k) := by
  have hequal : (l.filter (key · = k)).Pairwise
      fun a b => decide (key b ≤ key a) = true := by
    rw [List.pairwise_iff_forall_sublist]
    intro a b hab
    have hkey : ∀ c ∈ [a, b], key c = k := by
      intro c hc
      simpa using (List.mem_filter.mp (hab.subset hc)).2
    rw [decide_eq_true_eq, hkey a (by simp), hkey b (by simp)]
  have hsub : (l.filter (key · = k)).Sublist (descending key l) :=
    List.sublist_mergeSort (ge_trans_key key) (ge_total_key key) hequal
      List.filter_sublist
  have hsub' := hsub.filter (key · = k)
  rw [List.filter_filter] at hsub'
  simp only [Bool.and_self] at hsub'
  exact (hsub'.eq_of_length
    ((perm_descending key l).filter _).length_eq.symm).symm

/-- A list whose keys do not increase stays as it is. -/
theorem descending_of_pairwise {key : α → κ} {l : List α}
    (h : l.Pairwise fun a b => key b ≤ key a) : descending key l = l :=
  List.mergeSort_of_pairwise (h.imp fun hab => decide_eq_true hab)

/-- Sorting again changes nothing. -/
theorem descending_descending (key : α → κ) (l : List α) :
    descending key (descending key l) = descending key l :=
  descending_of_pairwise (pairwise_descending key l)

/-- Sorting commutes with a map that keeps the keys. -/
theorem descending_map {key : β → κ} (f : α → β) (l : List α) :
    descending key (l.map f) = (descending (key ∘ f) l).map f := by
  symm
  apply List.map_mergeSort
  intro a _ b _
  rfl

end StableSort
