/-!
# Fallible steps, one after the other and over lists

What is known of a bind or of a `mapM` in `Except` from what is known of its
steps.  The error type and the element types are arbitrary.

* `bind_ok`: a bind that succeeds is two steps that succeed.
* `mapM_ok`: steps that all succeed give the list of their results.
* `map_of_mapM_ok` and `mem_of_mapM_ok`: the results of a successful `mapM`
  are results of the step, one for each element, in order.
* `ok_of_mapM_ok`: every step of a successful `mapM` succeeds.
* `getElem?_of_mapM_ok`: the result at a place is that of the element there.
-/

namespace ExceptList

variable {ε α β γ : Type} {f : α → Except ε β}

/-- A bind that succeeds is two steps that succeed. -/
theorem bind_ok {x : Except ε α} {b : β} (h : x >>= f = .ok b) :
    ∃ a, x = .ok a ∧ f a = .ok b := by
  cases x with
  | error e => cases h
  | ok a => exact ⟨a, rfl, h⟩

/-- Steps that all succeed give the list of their results. -/
theorem mapM_ok {g : α → β} {l : List α} (h : ∀ a ∈ l, f a = .ok (g a)) :
    l.mapM f = .ok (l.map g) := by
  induction l with
  | nil => rfl
  | cons a l ih =>
    rw [List.mapM_cons, h a List.mem_cons_self,
      ih fun b hb => h b (List.mem_cons_of_mem _ hb)]
    rfl

/-- A successful `mapM` is a successful first step and a successful rest. -/
theorem mapM_cons_ok {a : α} {l : List α} {bs : List β}
    (h : (a :: l).mapM f = .ok bs) :
    ∃ b rest, f a = .ok b ∧ l.mapM f = .ok rest ∧ bs = b :: rest := by
  rw [List.mapM_cons] at h
  obtain ⟨b, ha, h⟩ := bind_ok h
  obtain ⟨rest, hl, h⟩ := bind_ok h
  cases h
  exact ⟨b, rest, ha, hl, rfl⟩

/-- A view of the results that every step fixes is that view of the list. -/
theorem map_of_mapM_ok {g : β → γ} {v : α → γ}
    (hstep : ∀ a b, f a = .ok b → g b = v a) {l : List α} :
    ∀ {bs : List β}, l.mapM f = .ok bs → bs.map g = l.map v := by
  induction l with
  | nil => intro bs h; cases h; rfl
  | cons a l ih =>
    intro bs h
    obtain ⟨b, rest, ha, hl, hbs⟩ := mapM_cons_ok h
    rw [hbs, List.map_cons, List.map_cons, ih hl, hstep a b ha]

/-- Every result of a successful `mapM` is the result of an element. -/
theorem mem_of_mapM_ok {l : List α} {b : β} :
    ∀ {bs : List β}, l.mapM f = .ok bs → b ∈ bs → ∃ a ∈ l, f a = .ok b := by
  induction l with
  | nil => intro bs h hb; cases h; cases hb
  | cons a l ih =>
    intro bs h hb
    obtain ⟨c, rest, ha, hl, hbs⟩ := mapM_cons_ok h
    rw [hbs] at hb
    rcases List.mem_cons.mp hb with he | hmem
    · exact ⟨a, List.mem_cons_self, by rw [he]; exact ha⟩
    · obtain ⟨a', ha', hf⟩ := ih hl hmem
      exact ⟨a', List.mem_cons_of_mem _ ha', hf⟩

/-- Every step of a successful `mapM` succeeds. -/
theorem ok_of_mapM_ok {l : List α} {a : α} :
    ∀ {bs : List β}, l.mapM f = .ok bs → a ∈ l → ∃ b, f a = .ok b := by
  induction l with
  | nil => intro bs _ ha; cases ha
  | cons c l ih =>
    intro bs h ha
    obtain ⟨b, rest, hc, hl, _⟩ := mapM_cons_ok h
    rcases List.mem_cons.mp ha with he | hmem
    · exact ⟨b, by rw [he]; exact hc⟩
    · exact ih hl hmem

theorem length_of_mapM_ok {l : List α} {bs : List β} (h : l.mapM f = .ok bs) :
    bs.length = l.length := by
  have hunits := map_of_mapM_ok (g := fun _ => ()) (v := fun _ => ())
    (fun _ _ _ => rfl) h
  simpa using congrArg List.length hunits

/-- The result at a place is the result of the element there. -/
theorem getElem?_of_mapM_ok {l : List α} {a : α} :
    ∀ {i : Nat} {bs : List β}, l.mapM f = .ok bs → l[i]? = some a →
      ∃ b, bs[i]? = some b ∧ f a = .ok b := by
  induction l with
  | nil => intro i bs _ ha; cases ha
  | cons c l ih =>
    intro i bs h ha
    obtain ⟨b, rest, hc, hl, hbs⟩ := mapM_cons_ok h
    subst hbs
    cases i with
    | zero =>
      rw [List.getElem?_cons_zero] at ha ⊢
      exact ⟨b, rfl, by rw [← Option.some.inj ha]; exact hc⟩
    | succ i =>
      rw [List.getElem?_cons_succ] at ha ⊢
      exact ih hl ha

end ExceptList
