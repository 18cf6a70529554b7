import Mathlib.Data.List.Perm.Subperm
import Mathlib.Data.List.TakeWhile
import Mathlib.Order.Defs.LinearOrder

/-!
# What the program takes from .NET

The pieces of the runtime that the services rest on: the 32-bit integers and
their order, the exceptions that the services let escape, the outcomes of an
HTTP request, `Int32.Parse`, and `Take` on a query without an order.

* `int32Parse_toString`: a positive integer printed in decimal parses back.
* `int32Parse_chars`: a text that parses is made of white space, a sign,
  digits and trailing NUL characters, so a text with a letter throws.
-/

namespace TvMazeScraper

/- `Int32` exposes its computational signed `LE`/`LT` operations but does not
come with a bundled `LinearOrder`.  The sorted search results and the paging
loop use this one instance. -/
instance int32LinearOrder : LinearOrder Int32 where
  le := @LE.le Int32 instLEInt32
  lt := @LT.lt Int32 instLTInt32
  le_refl := Int32.le_refl
  le_trans := by
    intro a b c hab hbc
    rw [Int32.le_iff_toInt_le] at hab hbc ⊢
    omega
  le_antisymm := by
    intro a b hab hba
    rw [Int32.le_iff_toInt_le] at hab hba
    exact Int32.toInt_inj.mp (by omega)
  lt_iff_le_not_ge := by
    intro a b
    rw [Int32.lt_iff_toInt_lt, Int32.le_iff_toInt_le, Int32.le_iff_toInt_le]
    omega
  le_total := by
    intro a b
    rw [Int32.le_iff_toInt_le, Int32.le_iff_toInt_le]
    omega
  toDecidableLE := fun _ _ => inferInstance
  toDecidableEq := instDecidableEqInt32
  toDecidableLT := fun _ _ => inferInstance

/-- The exceptions that the services let escape from a call. -/
inductive Exn where
  | json
  | nullReference
  | argument
  | argumentOutOfRange
  | format
  | overflow
  | taskCanceled
  | invalidOperation
  | dbUpdate
  | dbUpdateConcurrency
  deriving DecidableEq, Repr

/-- What a `GetAsync` of `HttpClient` and the read of its body come to: a 2xx
response with a body, status 422, another error status, a failed connection,
or the time limit of the client. -/
inductive HttpOutcome where
  | success (body : String)
  | unprocessableEntity
  | errorStatus
  | connectionFailure
  | timeout
  deriving DecidableEq, Repr

/-! ## `Int32.Parse` -/

/-- The white space that `NumberStyles.Integer` skips. -/
def isWhite (c : Char) : Bool :=
  c == ' ' || c == '\t' || c == '\n' || c == '\x0b' || c == '\x0c' ||
    c == '\r'

/-- Split a leading sign off. -/
def splitSign : List Char → Bool × List Char
  | [] => (false, [])
  | c :: cs =>
    if c = '-' then (true, cs) else if c = '+' then (false, cs)
    else (false, c :: cs)

/-- `Int32.Parse`: white space, a sign, at least one digit, white space and
NUL characters.  Anything else is a `FormatException`, and a value outside
the 32-bit range an `OverflowException`. -/
def int32Parse (s : String) : Except Exn Int32 :=
  let signed := splitSign (s.toList.dropWhile isWhite)
  let digits := signed.2.takeWhile Char.isDigit
  let rest := (signed.2.dropWhile Char.isDigit).dropWhile isWhite
  if digits.isEmpty || !rest.all (· == '\x00') then .error .format
  else
    let magnitude : Int := Nat.ofDigitChars 10 digits 0
    let value := if signed.1 then -magnitude else magnitude
    if value < -2147483648 ∨ 2147483647 < value then .error .overflow
    else .ok (Int32.ofInt value)

example : int32Parse " -12 " = .ok (-12) := by decide

theorem not_isWhite_of_isDigit {c : Char} (h : c.isDigit = true) :
    isWhite c = false := by
  have hle : '0' ≤ c := by
    simp only [Char.isDigit, Bool.and_eq_true, decide_eq_true_eq] at h
    exact h.1
  have hne : ∀ d : Char, d < '0' → (c == d) = false := by
    intro d hd
    rw [beq_eq_false_iff_ne]
    rintro rfl
    exact absurd hle (Char.not_le.mpr hd)
  simp [isWhite, hne]

/-- Digits alone parse to their value, as long as it fits. -/
theorem int32Parse_digits {s : String} (hne : s.toList ≠ [])
    (hdigits : ∀ c ∈ s.toList, c.isDigit = true)
    (hbound : Nat.ofDigitChars 10 s.toList 0 ≤ 2147483647) :
    int32Parse s = .ok (Int32.ofInt (Nat.ofDigitChars 10 s.toList 0)) := by
  obtain ⟨c, cs, hcons⟩ := List.exists_cons_of_ne_nil hne
  have hc : c.isDigit = true := hdigits c (by rw [hcons]; simp)
  have hwhite : s.toList.dropWhile isWhite = s.toList := by
    rw [hcons, List.dropWhile_cons, not_isWhite_of_isDigit hc]
    rfl
  have hsign : splitSign s.toList = (false, s.toList) := by
    have hminus : c ≠ '-' := by rintro rfl; exact absurd hc (by decide)
    have hplus : c ≠ '+' := by rintro rfl; exact absurd hc (by decide)
    rw [hcons, splitSign, if_neg hminus, if_neg hplus]
  have htake : s.toList.takeWhile Char.isDigit = s.toList :=
    List.takeWhile_eq_self_iff.mpr hdigits
  have hdrop : s.toList.dropWhile Char.isDigit = [] :=
    List.dropWhile_eq_nil_iff.mpr hdigits
  simp only [int32Parse, hwhite, hsign, htake, hdrop]
  rw [if_neg (by simp [hne]), if_neg]
  · rfl
  · simp only [Bool.false_eq_true, if_false]
    omega

/-- A positive integer printed in decimal parses back. -/
theorem int32Parse_toString {i : Int32} (h : 0 < i) :
    int32Parse (toString i) = .ok i := by
  have hpos : 0 < i.toInt := Int32.lt_iff_toInt_lt.mp h
  have hrepr : toString i = Nat.repr i.toInt.toNat := by
    change toString i.toInt = _
    obtain ⟨n, hn⟩ := Int.eq_ofNat_of_zero_le (Int.le_of_lt hpos)
    rw [hn]
    rfl
  have hval : Nat.ofDigitChars 10 (toString i).toList 0 = i.toInt.toNat := by
    rw [hrepr, Nat.toList_repr, Nat.ofDigitChars_ten_toDigits]
  have hlt := i.toInt_lt
  rw [int32Parse_digits, hval, Int.toNat_of_nonneg (Int.le_of_lt hpos),
    Int32.ofInt_toInt]
  · rw [hrepr, Nat.toList_repr]
    exact Nat.toDigits_ne_nil
  · intro c hc
    rw [hrepr, Nat.toList_repr] at hc
    exact Nat.isDigit_of_mem_toDigits (by decide) (by decide) hc
  · rw [hval]
    omega

/-- The characters that a parsed text may hold. -/
def isInt32Char (c : Char) : Bool :=
  isWhite c || c == '-' || c == '+' || c.isDigit || c == '\x00'

/-- An element of a list is dropped as part of the prefix or stays. -/
private theorem mem_dropWhile_or {p : Char → Bool} {c : Char}
    {cs : List Char} (h : c ∈ cs) : p c = true ∨ c ∈ cs.dropWhile p := by
  rw [← List.takeWhile_append_dropWhile (p := p) (l := cs)] at h
  rcases List.mem_append.mp h with htake | hdrop
  · exact .inl (List.mem_takeWhile_imp htake)
  · exact .inr hdrop

private theorem mem_splitSign_or {c : Char} {cs : List Char} (h : c ∈ cs) :
    c = '-' ∨ c = '+' ∨ c ∈ (splitSign cs).2 := by
  cases cs with
  | nil => cases h
  | cons d cs =>
    rw [splitSign]
    rcases List.mem_cons.mp h with rfl | hmem
    · by_cases hminus : c = '-'
      · exact .inl hminus
      · by_cases hplus : c = '+'
        · exact .inr (.inl hplus)
        · simp [hminus, hplus]
    · split_ifs <;> simp [hmem]

/-- A text that parses holds no other characters. -/
theorem int32Parse_chars {s : String} {i : Int32}
    (h : int32Parse s = .ok i) : ∀ c ∈ s.toList, isInt32Char c = true := by
  have hrest : (((splitSign (s.toList.dropWhile isWhite)).2.dropWhile
      Char.isDigit).dropWhile isWhite).all (· == '\x00') = true := by
    by_contra hbad
    simp only [int32Parse] at h
    rw [if_pos (by simp [hbad])] at h
    cases h
  intro c hc
  rw [isInt32Char]
  rcases mem_dropWhile_or (p := isWhite) hc with hwhite | hc
  · simp [hwhite]
  rcases mem_splitSign_or hc with rfl | rfl | hc
  · simp
  · simp
  rcases mem_dropWhile_or (p := Char.isDigit) hc with hdigit | hc
  · simp [hdigit]
  rcases mem_dropWhile_or (p := isWhite) hc with hwhite | hc
  · simp [hwhite]
  · have hnul := List.all_eq_true.mp hrest c hc
    simp only [hnul, Bool.or_true]

/-! ## `Take` on a query without an order -/

/-- The rows that `Take(n)` returns when the query has no `OrderBy`: any `n`
rows of the table, or all of them when there are fewer. -/
structure Take {α : Type*} (n : Nat) (rows : List α) where
  picked : List α
  subperm : picked.Subperm rows
  length_eq : picked.length = min n rows.length

namespace Take

variable {α : Type*} {n : Nat} {rows : List α}

/-- `Take(n)` on a table that answers in the order of its list. -/
def first (n : Nat) (rows : List α) : Take n rows where
  picked := rows.take n
  subperm := (List.take_sublist n rows).subperm
  length_eq := List.length_take

theorem mem_of_mem_picked (t : Take n rows) {r : α} (h : r ∈ t.picked) :
    r ∈ rows :=
  t.subperm.subset h

theorem nodup_picked (t : Take n rows) (hnodup : rows.Nodup) :
    t.picked.Nodup := by
  rcases t.subperm with ⟨l, hperm, hsublist⟩
  exact hperm.nodup_iff.mp (hsublist.nodup hnodup)

/-- The rows that were not picked. -/
theorem length_filter_not_mem [DecidableEq α] (t : Take n rows)
    (hnodup : rows.Nodup) :
    (rows.filter fun r => r ∉ t.picked).length = rows.length - n := by
  have hpicked : (rows.filter fun r => r ∈ t.picked).Perm t.picked := by
    refine (List.perm_ext_iff_of_nodup (hnodup.filter _)
      (t.nodup_picked hnodup)).mpr fun r => ?_
    rw [List.mem_filter, decide_eq_true_iff]
    exact and_iff_right_of_imp t.mem_of_mem_picked
  have hsplit := List.length_eq_length_filter_add (l := rows)
    fun r => decide (r ∈ t.picked)
  have hlength := hpicked.length_eq
  rw [t.length_eq] at hlength
  have hnot : (rows.filter fun r => !decide (r ∈ t.picked))
      = rows.filter fun r => r ∉ t.picked := by
    apply List.filter_congr
    intro r _
    simp
  rw [hnot] at hsplit
  omega

end Take

end TvMazeScraper
