import Mathlib.Data.Finmap

/-!
# A store that keeps each value under its own key

A `KeyedStore key` is a finite map in which the value under `k` is a value
whose key is `k`.  The invariant is a field, so a value can not stand under a
foreign key.  Key and value types are arbitrary.

`put` replaces whatever stands under the key of the new value, `erase` takes
the value away, and `putAll` puts a list from left to right.  The lemmas say
which keys there are afterwards, and what a lookup after `putAll` finds.

* `mem_put` and `mem_erase`: the keys after one value was put or erased.
* `mem_putAll`: the keys are the old keys and the keys of the list.
* `get?_putAll_of_not_mem`: a key that the list does not have is untouched.
* `exists_get?_putAll`: a key of the list holds a value of the list.
* `get?_putAll_of_consistent`: a key on which the list agrees with itself
  holds the value of the list, in whatever order and multiplicity it comes.
-/

universe u v

/-- A finite map in which every value stands under its own key. -/
structure KeyedStore {κ : Type u} {β : Type v} [DecidableEq κ]
    (key : β → κ) where
  entries : Finmap fun _ : κ => β
  keyed : ∀ k b, entries.lookup k = some b → key b = k

namespace KeyedStore

variable {κ : Type u} {β : Type v} [DecidableEq κ] {key : β → κ}

/-- The value under `k`, if there is one. -/
def get? (s : KeyedStore key) (k : κ) : Option β := s.entries.lookup k

/-- The keys of the store. -/
def keys (s : KeyedStore key) : Finset κ := s.entries.keys

/-- The empty store. -/
def empty : KeyedStore key where
  entries := ∅
  keyed := by
    intro k b h
    rw [Finmap.lookup_empty] at h
    cases h

/-- Put `b` under its key, in place of what stood there. -/
def put (s : KeyedStore key) (b : β) : KeyedStore key where
  entries := s.entries.insert (key b) b
  keyed := by
    intro k c h
    by_cases hk : k = key b
    · subst hk
      rw [Finmap.lookup_insert] at h
      rw [← Option.some.inj h]
    · rw [Finmap.lookup_insert_of_ne _ hk] at h
      exact s.keyed k c h

/-- Remove what stands under `k`. -/
def erase (s : KeyedStore key) (k : κ) : KeyedStore key where
  entries := s.entries.erase k
  keyed := by
    intro l c h
    by_cases hl : l = k
    · subst hl
      rw [Finmap.lookup_erase] at h
      cases h
    · rw [Finmap.lookup_erase_ne hl] at h
      exact s.keyed l c h

/-- Put a list of values, from left to right. -/
def putAll (s : KeyedStore key) (bs : List β) : KeyedStore key :=
  bs.foldl put s

/-! ## One value -/

/-- Stores with the same lookups are the same store. -/
theorem ext_get? {s t : KeyedStore key} (h : ∀ k, s.get? k = t.get? k) :
    s = t := by
  have he : s.entries = t.entries := Finmap.ext_lookup h
  cases s
  cases t
  cases he
  rfl

theorem key_of_get? {s : KeyedStore key} {k : κ} {b : β}
    (h : s.get? k = some b) : key b = k :=
  s.keyed k b h

@[simp] theorem get?_empty (k : κ) : (empty : KeyedStore key).get? k = none :=
  Finmap.lookup_empty k

/-- A key belongs to the store when a value stands under it. -/
theorem mem_keys {s : KeyedStore key} {k : κ} :
    k ∈ s.keys ↔ ∃ b, s.get? k = some b := by
  rw [keys, Finmap.mem_keys, Finmap.mem_iff]
  rfl

@[simp] theorem get?_put_self (s : KeyedStore key) (b : β) :
    (s.put b).get? (key b) = some b :=
  Finmap.lookup_insert s.entries

theorem get?_put_of_ne (s : KeyedStore key) {b : β} {k : κ}
    (h : k ≠ key b) : (s.put b).get? k = s.get? k :=
  Finmap.lookup_insert_of_ne s.entries h

/-- A key without a value does not belong to the store. -/
theorem get?_eq_none {s : KeyedStore key} {k : κ} :
    s.get? k = none ↔ k ∉ s.keys := by
  rw [mem_keys, Option.eq_none_iff_forall_ne_some, not_exists]

/-- The keys after a value was put. -/
theorem mem_put {s : KeyedStore key} {b : β} {k : κ} :
    k ∈ (s.put b).keys ↔ k ∈ s.keys ∨ key b = k := by
  rw [keys, put, Finmap.mem_keys, Finmap.mem_insert, keys, Finmap.mem_keys]
  tauto

/-- The keys after one was erased. -/
theorem mem_erase {s : KeyedStore key} {k l : κ} :
    l ∈ (s.erase k).keys ↔ l ≠ k ∧ l ∈ s.keys := by
  rw [keys, erase, Finmap.mem_keys, Finmap.mem_erase, keys, Finmap.mem_keys]

/-! ## A list of values -/

@[simp] theorem putAll_nil (s : KeyedStore key) : s.putAll [] = s := rfl

@[simp] theorem putAll_cons (s : KeyedStore key) (b : β) (bs : List β) :
    s.putAll (b :: bs) = (s.put b).putAll bs := rfl

theorem putAll_append (s : KeyedStore key) (bs cs : List β) :
    s.putAll (bs ++ cs) = (s.putAll bs).putAll cs :=
  List.foldl_append

/-- What stands in the store after a list was put comes from the list or
stood there before. -/
theorem mem_or_of_get?_putAll {bs : List β} :
    ∀ {s : KeyedStore key} {k : κ} {b : β},
      (s.putAll bs).get? k = some b → b ∈ bs ∨ s.get? k = some b := by
  induction bs with
  | nil => intro s k b h; exact .inr h
  | cons c bs ih =>
    intro s k b h
    rcases ih h with hmem | hget
    · exact .inl (List.mem_cons_of_mem _ hmem)
    · by_cases hk : k = key c
      · subst hk
        rw [get?_put_self] at hget
        rw [Option.some.inj hget]
        exact .inl List.mem_cons_self
      · rw [get?_put_of_ne s hk] at hget
        exact .inr hget

/-- A key that no value of the list has keeps its value. -/
theorem get?_putAll_of_not_mem {bs : List β} {k : κ}
    (h : ∀ b ∈ bs, key b ≠ k) :
    ∀ s : KeyedStore key, (s.putAll bs).get? k = s.get? k := by
  induction bs with
  | nil => intro s; rfl
  | cons c bs ih =>
    intro s
    rw [putAll_cons, ih (fun b hb => h b (List.mem_cons_of_mem _ hb)),
      get?_put_of_ne s (Ne.symm (h c List.mem_cons_self))]

/-- The keys after a list was put. -/
theorem mem_putAll {bs : List β} {k : κ} :
    ∀ {s : KeyedStore key},
      k ∈ (s.putAll bs).keys ↔ k ∈ s.keys ∨ ∃ b ∈ bs, key b = k := by
  induction bs with
  | nil => intro s; simp
  | cons c bs ih =>
    intro s
    rw [putAll_cons, ih, mem_put]
    simp [or_assoc]

/-- A key that the list has holds a value of the list, whatever stood there
before. -/
theorem exists_get?_putAll {bs : List β} {k : κ} (h : ∃ b ∈ bs, key b = k)
    (s : KeyedStore key) : ∃ b ∈ bs, (s.putAll bs).get? k = some b := by
  induction bs generalizing s with
  | nil =>
    rcases h with ⟨b, hb, _⟩
    cases hb
  | cons c bs ih =>
    rw [putAll_cons]
    by_cases htail : ∃ b ∈ bs, key b = k
    · obtain ⟨b, hb, hget⟩ := ih htail (s.put c)
      exact ⟨b, List.mem_cons_of_mem _ hb, hget⟩
    · have hkey : key c = k := by
        rcases h with ⟨b, hb, hbk⟩
        rcases List.mem_cons.mp hb with rfl | hb
        · exact hbk
        · exact absurd ⟨b, hb, hbk⟩ htail
      refine ⟨c, List.mem_cons_self, ?_⟩
      rw [get?_putAll_of_not_mem fun b hb hbk => htail ⟨b, hb, hbk⟩, ← hkey,
        get?_put_self]

/-- A key on which the list agrees with itself holds the value of the list,
whatever stood there before. -/
theorem get?_putAll_of_consistent {bs : List β} {b : β} (hb : b ∈ bs)
    (hcons : ∀ c ∈ bs, key c = key b → c = b) (s : KeyedStore key) :
    (s.putAll bs).get? (key b) = some b := by
  induction bs generalizing s with
  | nil => cases hb
  | cons c bs ih =>
    rw [putAll_cons]
    by_cases htail : b ∈ bs
    · exact ih htail (fun d hd => hcons d (List.mem_cons_of_mem _ hd)) _
    · obtain rfl : b = c := by
        rcases List.mem_cons.mp hb with he | he
        · exact he
        · exact absurd he htail
      rw [get?_putAll_of_not_mem, get?_put_self]
      intro d hd hkey
      exact htail (hcons d (List.mem_cons_of_mem _ hd) hkey ▸ hd)

end KeyedStore
