import TvMazeScraper.Dotnet
import TvMazeScraper.Newtonsoft

/-!
# `DeserializeToDictionary`

The function deserializes a text, and it prints and deserializes again what is
nested in it.  An element of an array goes through the same function, and its
text is kept when the function throws.

The function does not call itself on smaller texts only, so it takes fuel, and
running out of fuel is not an exception that the `catch` sees.

* `not_error`: the function does not throw on the text of an object.
* `returns_iff_step`: what one call does with each member.
* `kept_of_returns` and `returns_of_kept`: when the structure is preserved.
* `returns_dictionaryOf_iff`: both directions for a whole object.
-/

namespace TvMazeScraper

/-- A `dynamic` value of the result. -/
inductive Value (σ : Type) where
  | null
  | string (s : String)
  | scalar (v : σ)
  | list (values : List (Value σ))
  | dictionary (entries : List (String × Value σ))

/-- A `Dictionary<string, dynamic>`, in the order of the `Add` calls. -/
abbrev Dictionary (σ : Type) := List (String × Value σ)

variable {σ : Type}

/-! ## The function -/

/-- `JsonConvert.DeserializeObject<Dictionary<string, dynamic>>`.  It throws
on a text that is read neither as an object nor as null. -/
def deserializeObject (newtonsoft : Newtonsoft σ) (json : String) :
    Except Exn (Option (List (String × JToken σ))) :=
  match newtonsoft.parseObject json with
  | some values => .ok (some values)
  | none => if newtonsoft.readsNull json then .ok none else .error .json

/-- The `try` and the `catch` around an element.  Its `recurse` is the call of
the function itself, with the fuel that is left. -/
def elementValue (newtonsoft : Newtonsoft σ)
    (recurse : String → Option (Except Exn (Dictionary σ))) (v : JToken σ) :
    Option (Value σ) :=
  match recurse (newtonsoft.toText v) with
  | none => none
  | some (.ok dictionary) => some (.dictionary dictionary)
  | some (.error _) => some (.string (newtonsoft.toText v))

/-- The loop that fills `arrValues`. -/
def arrValues (newtonsoft : Newtonsoft σ)
    (recurse : String → Option (Except Exn (Dictionary σ))) :
    List (JToken σ) → Option (List (Value σ))
  | [] => some []
  | v :: elements =>
    match elementValue newtonsoft recurse v with
    | none => none
    | some value =>
      match arrValues newtonsoft recurse elements with
      | none => none
      | some values => some (value :: values)

/-- The value that is added for a member.  A member is never a `JProperty`, so
that branch is left out. -/
def memberValue (newtonsoft : Newtonsoft σ)
    (recurse : String → Option (Except Exn (Dictionary σ))) :
    JToken σ → Option (Except Exn (Value σ))
  | .null => some (.ok .null)
  | .string s => some (.ok (.string s))
  | .scalar v => some (.ok (.scalar v))
  | .array elements =>
    match arrValues newtonsoft recurse elements with
    | none => none
    | some values => some (.ok (.list values))
  | .object members =>
    match recurse (newtonsoft.toText (.object members)) with
    | none => none
    | some (.ok dictionary) => some (.ok (.dictionary dictionary))
    | some (.error e) => some (.error e)

/-- `Add`, which throws at a repeated key. -/
def Dictionary.add (values : Dictionary σ) (key : String) (value : Value σ) :
    Except Exn (Dictionary σ) :=
  if key ∈ values.map Prod.fst then .error .argument
  else .ok (values ++ [(key, value)])

/-- The loop that fills `values2`. -/
def addMembers (newtonsoft : Newtonsoft σ)
    (recurse : String → Option (Except Exn (Dictionary σ))) :
    List (String × JToken σ) → Dictionary σ →
      Option (Except Exn (Dictionary σ))
  | [], values2 => some (.ok values2)
  | (key, v) :: values, values2 =>
    match memberValue newtonsoft recurse v with
    | none => none
    | some (.error e) => some (.error e)
    | some (.ok value) =>
      match Dictionary.add values2 key value with
      | .error e => some (.error e)
      | .ok values2 => addMembers newtonsoft recurse values values2

/-- `DeserializeToDictionary`.  There is no result when the fuel runs out. -/
def deserializeToDictionary (newtonsoft : Newtonsoft σ) :
    Nat → String → Option (Except Exn (Dictionary σ))
  | 0, _ => none
  | fuel + 1, json =>
    match deserializeObject newtonsoft json with
    | .error e => some (.error e)
    | .ok none => some (.ok [])
    | .ok (some values) =>
      addMembers newtonsoft (deserializeToDictionary newtonsoft fuel) values
        []

/-- The function returns a dictionary: all fuel from some amount on gives
it. -/
def Returns (newtonsoft : Newtonsoft σ) (json : String)
    (dictionary : Dictionary σ) : Prop :=
  ∃ enough, ∀ fuel, enough ≤ fuel →
    deserializeToDictionary newtonsoft fuel json = some (.ok dictionary)

theorem Returns.unique {newtonsoft : Newtonsoft σ} {json : String}
    {dictionary dictionary' : Dictionary σ}
    (h : Returns newtonsoft json dictionary)
    (h' : Returns newtonsoft json dictionary') : dictionary = dictionary' := by
  rcases h with ⟨enough, henough⟩
  rcases h' with ⟨enough', henough'⟩
  have hresult := henough (max enough enough') (by omega)
  rw [henough' _ (by omega)] at hresult
  exact (Except.ok.inj (Option.some.inj hresult)).symm

/-! ## The structure of an object -/

mutual

/-- The value that stands for a member. -/
def memberOf (newtonsoft : Newtonsoft σ) : JToken σ → Value σ
  | .null => .null
  | .string s => .string s
  | .scalar v => .scalar v
  | .array elements => .list (listOf newtonsoft elements)
  | .object members => .dictionary (dictionaryOf newtonsoft members)

/-- The list that stands for an array: dictionaries for the objects, and texts
for all other elements. -/
def listOf (newtonsoft : Newtonsoft σ) : List (JToken σ) → List (Value σ)
  | [] => []
  | .object members :: elements =>
    .dictionary (dictionaryOf newtonsoft members) ::
      listOf newtonsoft elements
  | e :: elements =>
    .string (newtonsoft.toText e) :: listOf newtonsoft elements

/-- The dictionary that stands for an object. -/
def dictionaryOf (newtonsoft : Newtonsoft σ) :
    List (String × JToken σ) → Dictionary σ
  | [] => []
  | (key, v) :: members =>
    (key, memberOf newtonsoft v) :: dictionaryOf newtonsoft members

end

/-- An element whose text deserializes although it is no object: null, or a
string that is read as null or as an object. -/
def TakenForObject (newtonsoft : Newtonsoft σ) : JToken σ → Prop
  | .null => True
  | .string s =>
    newtonsoft.readsNull s = true ∨ (newtonsoft.parseObject s).isSome
  | .scalar _ => False
  | .array _ => False
  | .object _ => False

/-- The empty string and the string null are taken for objects. -/
theorem takenForObject_empty_null (newtonsoft : Newtonsoft σ) :
    TakenForObject newtonsoft (.string "") ∧
      TakenForObject newtonsoft (.string "null") :=
  ⟨.inl newtonsoft.readsNull_empty, .inl newtonsoft.readsNull_null⟩

/-- No element of an array is taken for an object, in the arrays that are
reached from a token through members and through elements that are objects. -/
inductive Kept (newtonsoft : Newtonsoft σ) : JToken σ → Prop
  | null : Kept newtonsoft .null
  | string (s : String) : Kept newtonsoft (.string s)
  | scalar (v : σ) : Kept newtonsoft (.scalar v)
  | array {elements : List (JToken σ)} :
      (∀ e ∈ elements, ¬ TakenForObject newtonsoft e) →
      (∀ members, .object members ∈ elements →
        Kept newtonsoft (.object members)) →
      Kept newtonsoft (.array elements)
  | object {members : List (String × JToken σ)} :
      (∀ p ∈ members, Kept newtonsoft p.2) →
      Kept newtonsoft (.object members)

/-! ## One call -/

section OneCall

variable {newtonsoft : Newtonsoft σ}
  {recurse : String → Option (Except Exn (Dictionary σ))}

/-- The value that stands for an element. -/
def elementOf (newtonsoft : Newtonsoft σ) : JToken σ → Value σ
  | .object members => .dictionary (dictionaryOf newtonsoft members)
  | e => .string (newtonsoft.toText e)

theorem listOf_cons (newtonsoft : Newtonsoft σ) (e : JToken σ)
    (elements : List (JToken σ)) :
    listOf newtonsoft (e :: elements)
      = elementOf newtonsoft e :: listOf newtonsoft elements := by
  cases e with
  | _ => rfl

/-- The list of an array is right when each element is. -/
theorem arrValues_eq_iff {elements : List (JToken σ)} :
    arrValues newtonsoft recurse elements
        = some (listOf newtonsoft elements) ↔
      ∀ e ∈ elements, elementValue newtonsoft recurse e
        = some (elementOf newtonsoft e) := by
  induction elements with
  | nil => exact iff_of_true rfl (List.forall_mem_nil _)
  | cons e elements ih =>
    rw [listOf_cons, List.forall_mem_cons, ← ih, arrValues]
    cases elementValue newtonsoft recurse e with
    | none => simp
    | some value =>
      cases arrValues newtonsoft recurse elements with
      | none => simp
      | some values => simp

/-- What is added stays in front of what is added later. -/
theorem prefix_of_addMembers {values : List (String × JToken σ)} :
    ∀ {values2 dictionary : Dictionary σ},
      addMembers newtonsoft recurse values values2 = some (.ok dictionary) →
      values2 <+: dictionary := by
  induction values with
  | nil =>
    intro values2 dictionary h
    cases h
    exact List.prefix_rfl
  | cons p values ih =>
    intro values2 dictionary h
    unfold addMembers at h
    cases hvalue : memberValue newtonsoft recurse p.2 with
    | none =>
      rw [hvalue] at h
      cases h
    | some result =>
      rw [hvalue] at h
      cases result with
      | error e => cases h
      | ok value =>
        unfold Dictionary.add at h
        by_cases hkey : p.1 ∈ values2.map Prod.fst
        · simp only [if_pos hkey] at h
          cases h
        · simp only [if_neg hkey] at h
          exact (List.prefix_append _ _).trans (ih h)

/-- The next key was not added before. -/
theorem key_not_mem {values2 : Dictionary σ} {key : String} {v : JToken σ}
    {values : List (String × JToken σ)}
    (hnodup : (values2.map Prod.fst
      ++ ((key, v) :: values).map Prod.fst).Nodup) :
    key ∉ values2.map Prod.fst := by
  intro hmem
  exact (List.nodup_append.mp hnodup).2.2 key hmem key List.mem_cons_self rfl

/-- The dictionary of an object is right when each member is. -/
theorem addMembers_eq_iff {values : List (String × JToken σ)} :
    ∀ {values2 : Dictionary σ},
      (values2.map Prod.fst ++ values.map Prod.fst).Nodup →
      (addMembers newtonsoft recurse values values2
          = some (.ok (values2 ++ dictionaryOf newtonsoft values)) ↔
        ∀ p ∈ values, memberValue newtonsoft recurse p.2
          = some (.ok (memberOf newtonsoft p.2))) := by
  induction values with
  | nil =>
    intro values2 _
    refine iff_of_true ?_ (List.forall_mem_nil _)
    rw [addMembers, dictionaryOf, List.append_nil]
  | cons p values ih =>
    intro values2 hnodup
    rcases p with ⟨key, v⟩
    have hkey := key_not_mem hnodup
    have hnext : (((values2 ++ [(key, memberOf newtonsoft v)]).map Prod.fst)
        ++ values.map Prod.fst).Nodup := by
      simpa using hnodup
    have hjoin : values2 ++ dictionaryOf newtonsoft ((key, v) :: values)
        = values2 ++ [(key, memberOf newtonsoft v)]
          ++ dictionaryOf newtonsoft values := by
      rw [dictionaryOf, List.append_assoc, List.singleton_append]
    rw [List.forall_mem_cons, ← ih hnext, hjoin, addMembers]
    cases hvalue : memberValue newtonsoft recurse v with
    | none => simp
    | some result =>
      cases result with
      | error e => simp
      | ok value =>
        simp only [Dictionary.add, if_neg hkey]
        by_cases heq : value = memberOf newtonsoft v
        · rw [heq]
          exact (and_iff_right rfl).symm
        · refine iff_of_false (fun h => heq ?_) (fun h => heq ?_)
          · have hprefix := prefix_of_addMembers h
            rw [List.append_assoc, List.prefix_append_right_inj,
              List.singleton_append, List.cons_prefix_cons] at hprefix
            exact (Prod.mk.inj hprefix.1).2
          · exact Except.ok.inj (Option.some.inj h.1)

/-- Only the call on the text of a member that is an object can throw. -/
theorem memberValue_error {v : JToken σ} {e : Exn}
    (h : memberValue newtonsoft recurse v = some (.error e)) :
    ∃ inner, v = .object inner ∧
      recurse (newtonsoft.toText (.object inner)) = some (.error e) := by
  cases v with
  | object inner =>
    refine ⟨inner, rfl, ?_⟩
    rw [memberValue] at h
    cases hcall : recurse (newtonsoft.toText (.object inner)) with
    | none =>
      rw [hcall] at h
      cases h
    | some result =>
      rw [hcall] at h
      cases result with
      | error e' =>
        cases h
        rfl
      | ok dictionary => cases h
  | array elements =>
    rw [memberValue] at h
    cases harr : arrValues newtonsoft recurse elements with
    | none =>
      rw [harr] at h
      cases h
    | some values =>
      rw [harr] at h
      cases h
  | _ =>
    rw [memberValue] at h
    cases h

/-- No exception comes from a loop whose members give none. -/
theorem addMembers_not_error {values : List (String × JToken σ)} :
    ∀ {values2 : Dictionary σ},
      (values2.map Prod.fst ++ values.map Prod.fst).Nodup →
      (∀ p ∈ values, ∀ e,
        memberValue newtonsoft recurse p.2 ≠ some (.error e)) →
      ∀ e, addMembers newtonsoft recurse values values2
        ≠ some (.error e) := by
  induction values with
  | nil =>
    intro values2 _ _ e h
    cases h
  | cons p values ih =>
    intro values2 hnodup hmembers e h
    rcases p with ⟨key, v⟩
    rw [List.forall_mem_cons] at hmembers
    rw [addMembers] at h
    cases hvalue : memberValue newtonsoft recurse v with
    | none =>
      rw [hvalue] at h
      cases h
    | some result =>
      rw [hvalue] at h
      cases result with
      | error e' => exact hmembers.1 e' hvalue
      | ok value =>
        have hkey := key_not_mem hnodup
        simp only [Dictionary.add, if_neg hkey] at h
        refine ih ?_ hmembers.2 e h
        simpa using hnodup

/-- An object as an element: the call on its text has to give its
dictionary. -/
theorem elementValue_object_iff {members : List (String × JToken σ)} :
    elementValue newtonsoft recurse (.object members)
        = some (elementOf newtonsoft (.object members)) ↔
      recurse (newtonsoft.toText (.object members))
        = some (.ok (dictionaryOf newtonsoft members)) := by
  unfold elementValue elementOf
  cases recurse (newtonsoft.toText (.object members)) with
  | none => simp
  | some result =>
    cases result with
    | error e => simp
    | ok dictionary => simp

/-- An object as a member: the call on its text has to give its
dictionary. -/
theorem memberValue_object_iff {members : List (String × JToken σ)} :
    memberValue newtonsoft recurse (.object members)
        = some (.ok (memberOf newtonsoft (.object members))) ↔
      recurse (newtonsoft.toText (.object members))
        = some (.ok (dictionaryOf newtonsoft members)) := by
  rw [memberValue, memberOf]
  cases recurse (newtonsoft.toText (.object members)) with
  | none => simp
  | some result =>
    cases result with
    | error e => simp
    | ok dictionary => simp

/-- An array as a member: each element has to be right. -/
theorem memberValue_array_iff {elements : List (JToken σ)} :
    memberValue newtonsoft recurse (.array elements)
        = some (.ok (memberOf newtonsoft (.array elements))) ↔
      ∀ e ∈ elements, elementValue newtonsoft recurse e
        = some (elementOf newtonsoft e) := by
  rw [← arrValues_eq_iff, memberValue, memberOf]
  cases arrValues newtonsoft recurse elements with
  | none => simp
  | some values => simp

/-- An element that is no object: the call on its text has to throw. -/
theorem elementValue_text_iff {v : JToken σ}
    (hobject : ∀ members, v ≠ .object members) :
    elementValue newtonsoft recurse v = some (elementOf newtonsoft v) ↔
      ∃ e, recurse (newtonsoft.toText v) = some (.error e) := by
  have helement : elementOf newtonsoft v
      = .string (newtonsoft.toText v) := by
    cases v with
    | object members => exact absurd rfl (hobject members)
    | _ => rfl
  rw [helement]
  unfold elementValue
  cases recurse (newtonsoft.toText v) with
  | none => simp
  | some result =>
    cases result with
    | error e => simp
    | ok dictionary => simp

end OneCall

/-! ## The calls on the texts of objects -/

section Calls

variable {newtonsoft : Newtonsoft σ} {json : String}
  {members : List (String × JToken σ)}

theorem deserializeToDictionary_object
    (h : newtonsoft.parseObject json = some members) (fuel : Nat) :
    deserializeToDictionary newtonsoft (fuel + 1) json
      = addMembers newtonsoft (deserializeToDictionary newtonsoft fuel)
          members [] := by
  rw [deserializeToDictionary, deserializeObject, h]

/-- The function does not throw on the text of an object. -/
theorem not_error {fuel : Nat} :
    ∀ {json : String} {members : List (String × JToken σ)},
      newtonsoft.parseObject json = some members →
      ∀ e, deserializeToDictionary newtonsoft fuel json
        ≠ some (.error e) := by
  induction fuel with
  | zero =>
    intro json members _ e h
    cases h
  | succ fuel ih =>
    intro json members h
    rw [deserializeToDictionary_object h]
    apply addMembers_not_error
    · simpa using newtonsoft.nodup json members h
    · intro p hp e he
      obtain ⟨inner, hv, hcall⟩ := memberValue_error he
      have hinner := newtonsoft.reparsed json members h p hp
      rw [hv] at hinner
      cases hinner with
      | object hparse _ => exact ih hparse e hcall

/-- The function throws on the texts that do not deserialize, and on no
other. -/
theorem throws_iff {fuel : Nat} {text : String} :
    (∃ e, deserializeToDictionary newtonsoft fuel text = some (.error e)) ↔
      0 < fuel ∧
        Unreadable newtonsoft.parseObject newtonsoft.readsNull text := by
  cases fuel with
  | zero =>
    refine iff_of_false ?_ (fun h => absurd h.1 (Nat.lt_irrefl 0))
    rintro ⟨e, he⟩
    cases he
  | succ fuel =>
    rw [and_iff_right (Nat.succ_pos fuel)]
    unfold Unreadable
    cases hparse : newtonsoft.parseObject text with
    | some members =>
      refine iff_of_false ?_ (fun h => by cases h.1)
      rintro ⟨e, he⟩
      exact not_error hparse e he
    | none =>
      rw [deserializeToDictionary, deserializeObject, hparse]
      cases hnull : newtonsoft.readsNull text with
      | true => simp
      | false => simp

/-- An element that is no object is kept as its text unless it is taken for
an object. -/
theorem unreadable_iff {v : JToken σ}
    (hobject : ∀ members, v ≠ .object members) :
    Unreadable newtonsoft.parseObject newtonsoft.readsNull
        (newtonsoft.toText v) ↔ ¬ TakenForObject newtonsoft v := by
  cases v with
  | null =>
    rw [newtonsoft.toText_null]
    refine iff_of_false (fun h => ?_) fun h => h trivial
    rw [Unreadable, newtonsoft.readsNull_empty] at h
    cases h.2
  | string s =>
    rw [newtonsoft.toText_string]
    unfold Unreadable TakenForObject
    rw [not_or, Bool.not_eq_true, Bool.not_eq_true,
      Option.isSome_eq_false_iff, Option.isNone_iff_eq_none]
    exact and_comm
  | scalar v => exact iff_of_true (newtonsoft.scalar_unreadable v) id
  | array elements =>
    exact iff_of_true (newtonsoft.array_unreadable elements) id
  | object members => exact absurd rfl (hobject members)

/-- One call gives the dictionary of an object exactly when it gives the value
of each member. -/
theorem returns_iff_step (h : newtonsoft.parseObject json = some members)
    (fuel : Nat) :
    deserializeToDictionary newtonsoft (fuel + 1) json
        = some (.ok (dictionaryOf newtonsoft members)) ↔
      ∀ p ∈ members,
        memberValue newtonsoft (deserializeToDictionary newtonsoft fuel) p.2
          = some (.ok (memberOf newtonsoft p.2)) := by
  rw [deserializeToDictionary_object h]
  refine addMembers_eq_iff ?_
  simpa using newtonsoft.nodup json members h

/-- A call that gives the dictionary of an object met no element that is taken
for an object.  The induction is on the fuel. -/
theorem kept_of_returns {fuel : Nat} :
    ∀ {json : String} {members : List (String × JToken σ)},
      newtonsoft.parseObject json = some members →
      deserializeToDictionary newtonsoft fuel json
        = some (.ok (dictionaryOf newtonsoft members)) →
      Kept newtonsoft (.object members) := by
  induction fuel with
  | zero =>
    intro json members _ h
    cases h
  | succ fuel ih =>
    intro json members hparse h
    rw [returns_iff_step hparse] at h
    refine .object fun p hp => ?_
    have hvalue := h p hp
    have hreparsed := newtonsoft.reparsed json members hparse p hp
    cases hv : p.2 with
    | null => exact .null
    | string s => exact .string s
    | scalar v => exact .scalar v
    | object inner =>
      rw [hv] at hvalue hreparsed
      rw [memberValue_object_iff] at hvalue
      cases hreparsed with
      | object hinner _ => exact ih hinner hvalue
    | array elements =>
      rw [hv] at hvalue hreparsed
      rw [memberValue_array_iff] at hvalue
      cases hreparsed with
      | array hreparsed =>
        refine .array ?_ ?_
        · intro e he
          have helement := hvalue e he
          by_cases hobject : ∃ inner, e = .object inner
          · rcases hobject with ⟨inner, rfl⟩
            exact fun htaken => htaken
          · push Not at hobject
            rw [elementValue_text_iff hobject, throws_iff] at helement
            exact (unreadable_iff hobject).mp helement.2
        · intro inner hinner
          have helement := hvalue _ hinner
          rw [elementValue_object_iff] at helement
          cases hreparsed _ hinner with
          | object hparse _ => exact ih hparse helement

/-- Amounts that are enough for each element have one that is enough for
all. -/
theorem exists_enough {α : Type} {P : α → Nat → Prop} {l : List α}
    (h : ∀ a ∈ l, ∃ enough, ∀ fuel, enough ≤ fuel → P a fuel) :
    ∃ enough, ∀ fuel, enough ≤ fuel → ∀ a ∈ l, P a fuel := by
  induction l with
  | nil => exact ⟨0, fun _ _ => List.forall_mem_nil _⟩
  | cons a l ih =>
    rw [List.forall_mem_cons] at h
    rcases h with ⟨⟨first, hfirst⟩, hrest⟩
    obtain ⟨rest, hrest⟩ := ih hrest
    refine ⟨max first rest, fun fuel hfuel => ?_⟩
    rw [List.forall_mem_cons]
    exact ⟨hfirst fuel (by omega), hrest fuel (by omega)⟩

/-- Enough fuel gives the value of a member in which no element is taken for
an object.  The induction is on the token. -/
theorem memberValue_of_kept {v : JToken σ} (hkept : Kept newtonsoft v) :
    Reparsed newtonsoft.toText newtonsoft.parseObject v →
    ∃ enough, ∀ fuel, enough ≤ fuel →
      memberValue newtonsoft (deserializeToDictionary newtonsoft fuel) v
        = some (.ok (memberOf newtonsoft v)) := by
  induction hkept with
  | null => exact fun _ => ⟨0, fun _ _ => rfl⟩
  | string s => exact fun _ => ⟨0, fun _ _ => rfl⟩
  | scalar v => exact fun _ => ⟨0, fun _ _ => rfl⟩
  | @object members hmembers ih =>
    intro hreparsed
    cases hreparsed with
    | object hparse hreparsed =>
      obtain ⟨enough, henough⟩ := exists_enough fun p hp =>
        ih p hp (hreparsed p hp)
      refine ⟨enough + 1, fun fuel hfuel => ?_⟩
      obtain ⟨fuel, rfl⟩ : ∃ n, fuel = n + 1 := ⟨fuel - 1, by omega⟩
      rw [memberValue_object_iff, returns_iff_step hparse]
      exact henough fuel (by omega)
  | @array elements hnot hobjects ih =>
    intro hreparsed
    cases hreparsed with
    | array hreparsed =>
      have helements : ∀ e ∈ elements, ∃ enough, ∀ fuel, enough ≤ fuel →
          elementValue newtonsoft (deserializeToDictionary newtonsoft fuel) e
            = some (elementOf newtonsoft e) := by
        intro e he
        by_cases hobject : ∃ inner, e = .object inner
        · rcases hobject with ⟨inner, rfl⟩
          obtain ⟨enough, henough⟩ := ih inner he (hreparsed _ he)
          refine ⟨enough, fun fuel hfuel => ?_⟩
          have hmember := henough fuel hfuel
          rw [memberValue_object_iff] at hmember
          exact elementValue_object_iff.mpr hmember
        · push Not at hobject
          refine ⟨1, fun fuel hfuel => ?_⟩
          rw [elementValue_text_iff hobject, throws_iff,
            unreadable_iff hobject]
          exact ⟨hfuel, hnot e he⟩
      obtain ⟨enough, henough⟩ := exists_enough helements
      refine ⟨enough, fun fuel hfuel => ?_⟩
      rw [memberValue_array_iff]
      exact henough fuel hfuel

theorem returns_of_kept (h : newtonsoft.parseObject json = some members)
    (hkept : Kept newtonsoft (.object members)) :
    Returns newtonsoft json (dictionaryOf newtonsoft members) := by
  cases hkept with
  | object hmembers =>
    obtain ⟨enough, henough⟩ := exists_enough fun p hp =>
      memberValue_of_kept (hmembers p hp)
        (newtonsoft.reparsed json members h p hp)
    refine ⟨enough + 1, fun fuel hfuel => ?_⟩
    obtain ⟨fuel, rfl⟩ : ∃ n, fuel = n + 1 := ⟨fuel - 1, by omega⟩
    rw [returns_iff_step h]
    exact henough fuel (by omega)

end Calls

/-- For the text of an object, the function returns the dictionary of that
object if and only if no element of an array is taken for an object. -/
theorem returns_dictionaryOf_iff (newtonsoft : Newtonsoft σ) {json : String}
    {members : List (String × JToken σ)}
    (h : newtonsoft.parseObject json = some members) :
    Returns newtonsoft json (dictionaryOf newtonsoft members) ↔
      Kept newtonsoft (.object members) := by
  constructor
  · intro hreturns
    rcases hreturns with ⟨enough, henough⟩
    exact kept_of_returns h (henough enough le_rfl)
  · exact returns_of_kept h

/-! ### A boolean and a string in an array, and a null -/

def plainJson : String := "\x7b\"a\":[true,\"x\"],\"b\":null\x7d"

def plainMembers : List (String × JToken Bool) :=
  [("a", .array [.scalar true, .string "x"]), ("b", .null)]

def nullJson : String := "\x7b\"a\":[null]\x7d"

def nullMembers : List (String × JToken Bool) := [("a", .array [.null])]

theorem plainMembers_distinct : (JToken.object plainMembers).Distinct := by
  refine .object (by decide) ?_
  unfold plainMembers
  rw [List.forall_mem_cons, List.forall_mem_singleton]
  refine ⟨.array ?_, .null⟩
  rw [List.forall_mem_cons, List.forall_mem_singleton]
  exact ⟨.scalar true, .string "x"⟩

theorem nullMembers_distinct : (JToken.object nullMembers).Distinct := by
  refine .object (by decide) ?_
  unfold nullMembers
  rw [List.forall_mem_singleton]
  refine .array ?_
  rw [List.forall_mem_singleton]
  exact .null

noncomputable def plainNewtonsoft : Newtonsoft Bool :=
  .knowing plainJson plainMembers (by decide) plainMembers_distinct

noncomputable def nullNewtonsoft : Newtonsoft Bool :=
  .knowing nullJson nullMembers (by decide) nullMembers_distinct

theorem returns_dictionaryOf_plain :
    Returns plainNewtonsoft plainJson
      (dictionaryOf plainNewtonsoft plainMembers) := by
  refine (returns_dictionaryOf_iff plainNewtonsoft
    (parseObject_knowing _ _)).mpr ?_
  unfold plainMembers
  refine .object ?_
  rw [List.forall_mem_cons, List.forall_mem_singleton]
  refine ⟨.array ?_ ?_, .null⟩
  · rw [List.forall_mem_cons, List.forall_mem_singleton]
    refine ⟨id, fun htaken => ?_⟩
    rcases htaken with hnull | hobject
    · exact absurd hnull (by decide)
    · have hnone : parseKnowing plainJson plainMembers "x" = none :=
        parseKnowing_eq_none (by decide) (by decide) (by decide)
      rw [show plainNewtonsoft.parseObject "x" = none from hnone] at hobject
      cases hobject
  · intro members hmem
    rw [List.mem_cons, List.mem_singleton] at hmem
    rcases hmem with h | h
    · cases h
    · cases h

/-- The array with a null gives a list with an empty dictionary, where the
structure of the object has the empty text. -/
theorem null_not_kept :
    nullNewtonsoft.parseObject nullJson = some nullMembers ∧
      Returns nullNewtonsoft nullJson [("a", .list [.dictionary []])] ∧
      dictionaryOf nullNewtonsoft nullMembers = [("a", .list [.string ""])] ∧
      ¬ Returns nullNewtonsoft nullJson
        (dictionaryOf nullNewtonsoft nullMembers) := by
  have hparse : nullNewtonsoft.parseObject nullJson = some nullMembers :=
    parseObject_knowing _ _
  have hreturns : Returns nullNewtonsoft nullJson
      [("a", .list [.dictionary []])] := by
    refine ⟨2, fun fuel hfuel => ?_⟩
    obtain ⟨fuel, rfl⟩ : ∃ n, fuel = n + 2 := ⟨fuel - 2, by omega⟩
    have hnull : deserializeToDictionary nullNewtonsoft (fuel + 1)
        (nullNewtonsoft.toText .null) = some (.ok []) := by
      rw [nullNewtonsoft.toText_null, deserializeToDictionary,
        deserializeObject, nullNewtonsoft.parseObject_of_readsNull ""
          nullNewtonsoft.readsNull_empty, nullNewtonsoft.readsNull_empty]
      rfl
    rw [deserializeToDictionary_object hparse]
    simp [nullMembers, addMembers, memberValue, arrValues, elementValue,
      hnull, Dictionary.add]
  refine ⟨hparse, hreturns, rfl, fun h => ?_⟩
  cases hreturns.unique h

end TvMazeScraper
