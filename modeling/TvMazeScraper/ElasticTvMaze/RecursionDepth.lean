import TvMazeScraper.ElasticTvMaze.DeserializeToDictionary

/-!
# The recursion of `DeserializeToDictionary` ends

The function prints an object that is nested in another one and parses it
again, and it parses every string in an array.  The printed text may be longer
than the part of the text that it was parsed from, so the recursion does not
end because the texts get shorter.  It ends because the tokens get smaller:
the object that a text is parsed to is no larger than the text.

* `size_of_parse`: the text of a token is parsed to an object that is no
  larger than the token.
* `halts_of_size`: fuel for the size of an object is enough.
* `call_mono`: more fuel does not change a result.
* `terminates`: which calls throw and what the others return, after a
  recursion that is no deeper than the text is long.
-/

namespace TvMazeScraper

variable {σ : Type}

/-! ## Sizes -/

mutual

/-- The number of tokens, and of characters of strings, in a token. -/
def JToken.size : JToken σ → Nat
  | .null => 1
  | .string s => s.length + 1
  | .scalar _ => 1
  | .array elements => elementsSize elements + 1
  | .object members => membersSize members + 1

def elementsSize : List (JToken σ) → Nat
  | [] => 0
  | e :: elements => e.size + elementsSize elements

def membersSize : List (String × JToken σ) → Nat
  | [] => 0
  | (_, v) :: members => v.size + membersSize members

end

/-- Every token and every character of a string takes a character of the text
that an object is parsed from. -/
def Measured (newtonsoft : Newtonsoft σ) : Prop :=
  ∀ text members, newtonsoft.parseObject text = some members →
    (JToken.object members).size ≤ text.length

theorem size_le_elementsSize {elements : List (JToken σ)} {e : JToken σ}
    (h : e ∈ elements) : e.size ≤ elementsSize elements := by
  induction elements with
  | nil => cases h
  | cons e' elements ih =>
    rw [elementsSize]
    rcases List.mem_cons.mp h with rfl | h
    · omega
    · have := ih h
      omega

theorem size_le_membersSize {members : List (String × JToken σ)}
    {p : String × JToken σ} (h : p ∈ members) :
    p.2.size ≤ membersSize members := by
  induction members with
  | nil => cases h
  | cons p' members ih =>
    rw [membersSize]
    rcases List.mem_cons.mp h with rfl | h
    · omega
    · have := ih h
      omega

section Recursion

variable {newtonsoft : Newtonsoft σ}

/-- An element whose text is parsed to an object is no smaller than the
object. -/
theorem size_of_parse (hmeasured : Measured newtonsoft) {v : JToken σ}
    (hreparsed : Reparsed newtonsoft.toText newtonsoft.parseObject v)
    {members : List (String × JToken σ)}
    (h : newtonsoft.parseObject (newtonsoft.toText v) = some members) :
    (JToken.object members).size ≤ v.size := by
  cases v with
  | null =>
    rw [newtonsoft.toText_null, newtonsoft.parseObject_of_readsNull ""
      newtonsoft.readsNull_empty] at h
    cases h
  | string s =>
    rw [newtonsoft.toText_string] at h
    have hsize := hmeasured s members h
    rw [JToken.size]
    omega
  | scalar v =>
    rw [(newtonsoft.scalar_unreadable v).1] at h
    cases h
  | array elements =>
    rw [(newtonsoft.array_unreadable elements).1] at h
    cases h
  | object inner =>
    cases hreparsed with
    | object hparse _ =>
      rw [hparse] at h
      cases h
      exact le_rfl

/-! ## Enough fuel -/

variable {recurse recurse' : String → Option (Except Exn (Dictionary σ))}

/-- The loop over an array ends when the calls on its elements do. -/
theorem arrValues_ends {elements : List (JToken σ)}
    (h : ∀ e ∈ elements, recurse (newtonsoft.toText e) ≠ none) :
    arrValues newtonsoft recurse elements ≠ none := by
  induction elements with
  | nil => exact Option.some_ne_none _
  | cons e elements ih =>
    rw [List.forall_mem_cons] at h
    have hrest := ih h.2
    rw [arrValues, elementValue]
    cases hcall : recurse (newtonsoft.toText e) with
    | none => exact absurd hcall h.1
    | some result =>
      cases hvalues : arrValues newtonsoft recurse elements with
      | none => exact absurd hvalues hrest
      | some values =>
        cases result with
        | _ => exact Option.some_ne_none _

/-- The loop over the members ends when their values do. -/
theorem addMembers_ends {values : List (String × JToken σ)} :
    ∀ {values2 : Dictionary σ},
      (∀ p ∈ values, memberValue newtonsoft recurse p.2 ≠ none) →
        addMembers newtonsoft recurse values values2 ≠ none := by
  induction values with
  | nil =>
    intro values2 _
    exact Option.some_ne_none _
  | cons p values ih =>
    intro values2 h
    rcases p with ⟨key, v⟩
    rw [List.forall_mem_cons] at h
    rw [addMembers]
    cases hvalue : memberValue newtonsoft recurse v with
    | none => exact absurd hvalue h.1
    | some result =>
      cases result with
      | error e => exact Option.some_ne_none _
      | ok value =>
        unfold Dictionary.add
        split_ifs
        · exact Option.some_ne_none _
        · exact ih h.2

/-- A call ends at once on a text that is no object, and it ends on a text of
an object when the loop over its members does. -/
theorem call_ends {fuel : Nat} {text : String}
    (h : ∀ members, newtonsoft.parseObject text = some members →
      addMembers newtonsoft (deserializeToDictionary newtonsoft fuel) members
        [] ≠ none) :
    deserializeToDictionary newtonsoft (fuel + 1) text ≠ none := by
  rw [deserializeToDictionary, deserializeObject]
  cases hparse : newtonsoft.parseObject text with
  | none =>
    cases newtonsoft.readsNull text with
    | _ => exact Option.some_ne_none _
  | some members => exact h members hparse

/-- Fuel for the size of an object is enough for the loop over its members.
The induction is on the fuel. -/
theorem halts_of_size (hmeasured : Measured newtonsoft) {fuel : Nat} :
    ∀ {members : List (String × JToken σ)},
      (∀ p ∈ members,
        Reparsed newtonsoft.toText newtonsoft.parseObject p.2) →
      (JToken.object members).size ≤ fuel →
        addMembers newtonsoft (deserializeToDictionary newtonsoft fuel) members
          [] ≠ none := by
  induction fuel with
  | zero =>
    intro members _ hsize
    rw [JToken.size] at hsize
    omega
  | succ fuel ih =>
    intro members hmembers hsize
    rw [JToken.size] at hsize
    -- the call on the text of a smaller token
    have hcall : ∀ v : JToken σ,
        Reparsed newtonsoft.toText newtonsoft.parseObject v →
        v.size ≤ fuel →
        deserializeToDictionary newtonsoft (fuel + 1) (newtonsoft.toText v)
          ≠ none := by
      intro v hv hsmaller
      refine call_ends fun inner hinner => ih ?_ ?_
      · exact newtonsoft.reparsed _ inner hinner
      · exact (size_of_parse hmeasured hv hinner).trans hsmaller
    refine addMembers_ends fun p hp => ?_
    have hv := hmembers p hp
    have hsmaller := size_le_membersSize hp
    cases hvalue : p.2 with
    | null => exact Option.some_ne_none _
    | string s => exact Option.some_ne_none _
    | scalar v => exact Option.some_ne_none _
    | object inner =>
      rw [hvalue] at hv hsmaller
      have hends := hcall _ hv (by omega)
      rw [memberValue]
      cases hresult : deserializeToDictionary newtonsoft (fuel + 1)
          (newtonsoft.toText (.object inner)) with
      | none => exact absurd hresult hends
      | some result =>
        cases result with
        | _ => exact Option.some_ne_none _
    | array elements =>
      rw [hvalue] at hv hsmaller
      rw [JToken.size] at hsmaller
      cases hv with
      | array helements =>
        have hends : arrValues newtonsoft
            (deserializeToDictionary newtonsoft (fuel + 1)) elements
              ≠ none := by
          refine arrValues_ends fun e he => hcall e (helements e he) ?_
          have := size_le_elementsSize he
          omega
        rw [memberValue]
        cases hvalues : arrValues newtonsoft
            (deserializeToDictionary newtonsoft (fuel + 1)) elements with
        | none => exact absurd hvalues hends
        | some values => exact Option.some_ne_none _

/-! ## More fuel -/

/-- The second function has every result of the first one. -/
def Extends (recurse recurse' : String → Option (Except Exn (Dictionary σ))) :
    Prop :=
  ∀ text result, recurse text = some result → recurse' text = some result

theorem arrValues_mono (h : Extends recurse recurse')
    {elements : List (JToken σ)} :
    ∀ {values : List (Value σ)},
      arrValues newtonsoft recurse elements = some values →
        arrValues newtonsoft recurse' elements = some values := by
  induction elements with
  | nil => exact fun hvalues => hvalues
  | cons e elements ih =>
    intro values hvalues
    rw [arrValues, elementValue] at hvalues ⊢
    cases hcall : recurse (newtonsoft.toText e) with
    | none =>
      rw [hcall] at hvalues
      cases hvalues
    | some result =>
      rw [hcall] at hvalues
      rw [h _ _ hcall]
      cases hrest : arrValues newtonsoft recurse elements with
      | none =>
        rw [hrest] at hvalues
        cases result with
        | _ => cases hvalues
      | some rest =>
        rw [hrest] at hvalues
        rw [ih hrest]
        exact hvalues

theorem memberValue_mono (h : Extends recurse recurse') {v : JToken σ}
    {result : Except Exn (Value σ)}
    (hvalue : memberValue newtonsoft recurse v = some result) :
    memberValue newtonsoft recurse' v = some result := by
  cases v with
  | object members =>
    rw [memberValue] at hvalue ⊢
    cases hcall : recurse (newtonsoft.toText (.object members)) with
    | none =>
      rw [hcall] at hvalue
      cases hvalue
    | some inner =>
      rw [hcall] at hvalue
      rw [h _ _ hcall]
      exact hvalue
  | array elements =>
    rw [memberValue] at hvalue ⊢
    cases hvalues : arrValues newtonsoft recurse elements with
    | none =>
      rw [hvalues] at hvalue
      cases hvalue
    | some values =>
      rw [hvalues] at hvalue
      rw [arrValues_mono h hvalues]
      exact hvalue
  | _ => exact hvalue

theorem addMembers_mono (h : Extends recurse recurse')
    {values : List (String × JToken σ)} :
    ∀ {values2 : Dictionary σ} {result : Except Exn (Dictionary σ)},
      addMembers newtonsoft recurse values values2 = some result →
        addMembers newtonsoft recurse' values values2 = some result := by
  induction values with
  | nil => exact fun hresult => hresult
  | cons p values ih =>
    intro values2 result hresult
    rcases p with ⟨key, v⟩
    rw [addMembers] at hresult ⊢
    cases hvalue : memberValue newtonsoft recurse v with
    | none =>
      rw [hvalue] at hresult
      cases hresult
    | some value =>
      rw [hvalue] at hresult
      rw [memberValue_mono h hvalue]
      cases value with
      | error e => exact hresult
      | ok value =>
        cases hadd : Dictionary.add values2 key value with
        | error e =>
          simp only [hadd] at hresult ⊢
          exact hresult
        | ok values2 =>
          simp only [hadd] at hresult ⊢
          exact ih hresult

/-- One more unit of fuel does not change a result. -/
theorem extends_succ (newtonsoft : Newtonsoft σ) (fuel : Nat) :
    Extends (deserializeToDictionary newtonsoft fuel)
      (deserializeToDictionary newtonsoft (fuel + 1)) := by
  induction fuel with
  | zero =>
    intro text result hresult
    cases hresult
  | succ fuel ih =>
    intro text result hresult
    rw [deserializeToDictionary] at hresult ⊢
    cases hparse : deserializeObject newtonsoft text with
    | error e =>
      rw [hparse] at hresult
      exact hresult
    | ok values =>
      rw [hparse] at hresult
      cases values with
      | none => exact hresult
      | some values => exact addMembers_mono ih hresult

theorem call_mono {fuel fuel' : Nat} (hle : fuel ≤ fuel') :
    Extends (deserializeToDictionary newtonsoft fuel)
      (deserializeToDictionary newtonsoft fuel') := by
  induction hle with
  | refl => exact fun _ _ h => h
  | step _ ih => exact fun text result h =>
      extends_succ newtonsoft _ text result (ih text result h)

/-! ## The keys -/

/-- The loop adds the keys of the members, in their order. -/
theorem keys_of_addMembers {values : List (String × JToken σ)} :
    ∀ {values2 dictionary : Dictionary σ},
      addMembers newtonsoft recurse values values2 = some (.ok dictionary) →
        dictionary.map Prod.fst
          = values2.map Prod.fst ++ values.map Prod.fst := by
  induction values with
  | nil =>
    intro values2 dictionary h
    cases h
    simp
  | cons p values ih =>
    intro values2 dictionary h
    rcases p with ⟨key, v⟩
    rw [addMembers] at h
    cases hvalue : memberValue newtonsoft recurse v with
    | none =>
      rw [hvalue] at h
      cases h
    | some result =>
      rw [hvalue] at h
      cases result with
      | error e => cases h
      | ok value =>
        unfold Dictionary.add at h
        by_cases hkey : key ∈ values2.map Prod.fst
        · simp only [if_pos hkey] at h
          cases h
        · simp only [if_neg hkey] at h
          rw [ih h]
          simp

/-- A call ends in one way, whatever the fuel above the length of the text. -/
theorem ends_of_measured (hmeasured : Measured newtonsoft) (json : String) :
    ∃ result, ∀ fuel, json.length < fuel →
      deserializeToDictionary newtonsoft fuel json = some result := by
  have hends : deserializeToDictionary newtonsoft (json.length + 1) json
      ≠ none := by
    refine call_ends fun members hparse => ?_
    exact halts_of_size hmeasured (newtonsoft.reparsed json members hparse)
      (hmeasured json members hparse)
  obtain ⟨result, hresult⟩ := Option.ne_none_iff_exists'.mp hends
  exact ⟨result, fun fuel hfuel => call_mono hfuel json _ hresult⟩

/-- What a call returns has the keys of the object in their order, and it is
empty when the text is no object. -/
theorem keys_of_ok {fuel : Nat} {json : String} {dictionary : Dictionary σ}
    (h : deserializeToDictionary newtonsoft fuel json
      = some (.ok dictionary)) :
    dictionary.map Prod.fst
      = ((newtonsoft.parseObject json).getD []).map Prod.fst := by
  cases fuel with
  | zero => cases h
  | succ fuel =>
    cases hparse : newtonsoft.parseObject json with
    | some members =>
      rw [deserializeToDictionary_object hparse] at h
      simpa using keys_of_addMembers h
    | none =>
      rw [deserializeToDictionary, deserializeObject, hparse] at h
      cases hnull : newtonsoft.readsNull json with
      | true =>
        rw [hnull] at h
        cases h
        rfl
      | false =>
        rw [hnull] at h
        cases h

end Recursion

/-- The function throws exactly on the texts that are read neither as an
object nor as null.  On every other text it returns one dictionary, with the
keys of the object in their order, or with none.  The recursion is no deeper
than the text is long. -/
theorem terminates (newtonsoft : Newtonsoft σ)
    (hmeasured : Measured newtonsoft) (json : String) :
    ((∃ e, ∀ fuel, json.length < fuel →
        deserializeToDictionary newtonsoft fuel json = some (.error e)) ↔
      Unreadable newtonsoft.parseObject newtonsoft.readsNull json) ∧
    ((∃ dictionary : Dictionary σ,
        dictionary.map Prod.fst
          = ((newtonsoft.parseObject json).getD []).map Prod.fst ∧
        ∀ fuel, json.length < fuel →
          deserializeToDictionary newtonsoft fuel json
            = some (.ok dictionary)) ↔
      ¬ Unreadable newtonsoft.parseObject newtonsoft.readsNull json) := by
  obtain ⟨result, hends⟩ := ends_of_measured hmeasured json
  have hresult := hends (json.length + 1) (Nat.lt_succ_self _)
  have hthrows : (∃ e, result = .error e) ↔
      Unreadable newtonsoft.parseObject newtonsoft.readsNull json := by
    have hcall : (∃ e, deserializeToDictionary newtonsoft (json.length + 1)
        json = some (.error e)) ↔ _ := throws_iff
    rw [hresult, and_iff_right (Nat.succ_pos _)] at hcall
    simpa only [Option.some.injEq] using hcall
  rw [← hthrows]
  constructor
  · constructor
    · rintro ⟨e, he⟩
      have hsame := he (json.length + 1) (Nat.lt_succ_self _)
      rw [hresult] at hsame
      exact ⟨e, Option.some.inj hsame⟩
    · rintro ⟨e, rfl⟩
      exact ⟨e, hends⟩
  · constructor
    · rintro ⟨dictionary, _, hreturns⟩ ⟨e, rfl⟩
      cases hresult.symm.trans (hreturns _ (Nat.lt_succ_self _))
    · intro hnot
      cases result with
      | error e => exact absurd ⟨e, rfl⟩ hnot
      | ok dictionary => exact ⟨dictionary, keys_of_ok hresult, hends⟩

/-! ### The text of an object in an array -/

mutual

theorem size_le_tokenCode : ∀ t : JToken Bool, t.size ≤ tokenCode t + 1
  | .null => by simp [JToken.size]
  | .string s => by
    have hlength : ∀ cs : List Char,
        cs.length ≤ Encodable.encode (cs.map Char.toNat) := by
      intro cs
      induction cs with
      | nil => exact Nat.zero_le _
      | cons c cs ih =>
        rw [List.map_cons, Encodable.encode_list_cons, List.length_cons]
        have hpair := Nat.right_le_pair (Encodable.encode c.toNat)
          (Encodable.encode (cs.map Char.toNat))
        omega
    have hcode : s.length ≤ stringCode s := hlength s.toList
    have hpair := Nat.right_le_pair 1 (stringCode s)
    rw [JToken.size, tokenCode]
    omega
  | .scalar b => by simp [JToken.size]
  | .array elements => by
    have hsize := elementsSize_le_elementsCode elements
    have hpair := Nat.right_le_pair 3 (elementsCode elements)
    rw [JToken.size, tokenCode]
    omega
  | .object members => by
    have hsize := membersSize_le_membersCode members
    have hpair := Nat.right_le_pair 4 (membersCode members)
    rw [JToken.size, tokenCode]
    omega

theorem elementsSize_le_elementsCode :
    ∀ es : List (JToken Bool), elementsSize es ≤ elementsCode es
  | [] => Nat.zero_le _
  | e :: es => by
    have he := size_le_tokenCode e
    have hes := elementsSize_le_elementsCode es
    have hpair := Nat.add_le_pair (tokenCode e) (elementsCode es)
    rw [elementsSize, elementsCode]
    omega

theorem membersSize_le_membersCode :
    ∀ ms : List (String × JToken Bool), membersSize ms ≤ membersCode ms
  | [] => Nat.zero_le _
  | (key, v) :: ms => by
    have hv := size_le_tokenCode v
    have hms := membersSize_le_membersCode ms
    have hkey := Nat.right_le_pair (stringCode key) (tokenCode v)
    have hpair := Nat.add_le_pair (Nat.pair (stringCode key) (tokenCode v))
      (membersCode ms)
    rw [membersSize, membersCode]
    omega

end

/-- The number of an object in unary notation. -/
def unaryText (members : List (String × JToken Bool)) : String :=
  String.ofList ('{' :: List.replicate (membersCode members) 'I')

theorem unaryText_length (members : List (String × JToken Bool)) :
    (unaryText members).length = membersCode members + 1 := by
  unfold unaryText
  rw [String.length_ofList, List.length_cons, List.length_replicate]

theorem unaryText_inj {ms ms' : List (String × JToken Bool)}
    (h : unaryText ms = unaryText ms') : ms = ms' := by
  have hlength := congrArg String.length h
  rw [unaryText_length, unaryText_length] at hlength
  exact membersCode_inj (Nat.succ.inj hlength)

/-- The object that a text is, by `unaryText`. -/
noncomputable def parseUnary (text : String) :
    Option (List (String × JToken Bool)) :=
  (Function.partialInv (fun o : DistinctObject => unaryText o.1) text).map
    Subtype.val

theorem parseUnary_eq_some {text : String}
    {members : List (String × JToken Bool)} :
    parseUnary text = some members ↔
      (JToken.object members).Distinct ∧ unaryText members = text := by
  have hinj : Function.Injective fun o : DistinctObject => unaryText o.1 :=
    fun o o' h => Subtype.ext (unaryText_inj h)
  unfold parseUnary
  rw [Option.map_eq_some_iff]
  constructor
  · rintro ⟨o, ho, rfl⟩
    exact ⟨o.2, (hinj.isPartialInv o text).mp ho⟩
  · rintro ⟨hdistinct, htext⟩
    exact ⟨⟨members, hdistinct⟩, (hinj.isPartialInv _ text).mpr htext, rfl⟩

theorem parseUnary_eq_none {text : String}
    (h : text.toList.head? ≠ some '{') : parseUnary text = none := by
  rw [Option.eq_none_iff_forall_ne_some]
  intro members hsome
  apply h
  rw [← (parseUnary_eq_some.mp hsome).2, unaryText, String.toList_ofList]
  rfl

/-- The texts of .NET, but for the objects. -/
def textOf : JToken Bool → String
  | .object members => unaryText members
  | v => sampleText v

theorem parseUnary_toText (members : List (String × JToken Bool))
    (h : (JToken.object members).Distinct) :
    parseUnary (textOf (.object members)) = some members :=
  parseUnary_eq_some.mpr ⟨h, rfl⟩

theorem parseUnary_of_sampleReadsNull (text : String)
    (h : sampleReadsNull text = true) : parseUnary text = none := by
  rcases sampleReadsNull_iff.mp h with rfl | rfl
  · exact parseUnary_eq_none (by decide)
  · exact parseUnary_eq_none (by decide)

/-- A converter that writes objects in unary notation. -/
noncomputable def unaryNewtonsoft : Newtonsoft Bool where
  toText := textOf
  parseObject := parseUnary
  readsNull := sampleReadsNull
  toText_null := rfl
  toText_string _ := rfl
  nodup := by
    intro text members h
    cases (parseUnary_eq_some.mp h).1 with
    | object hnodup _ => exact hnodup
  reparsed := by
    intro text members h p hp
    cases (parseUnary_eq_some.mp h).1 with
    | object _ hmembers =>
      exact reparsed_of_distinct parseUnary_toText (hmembers p hp)
  readsNull_empty := sampleReadsNull_empty
  readsNull_null := sampleReadsNull_null
  parseObject_of_readsNull := parseUnary_of_sampleReadsNull
  scalar_unreadable := by
    intro b
    cases b with
    | false => exact ⟨parseUnary_eq_none (by decide), by decide⟩
    | true => exact ⟨parseUnary_eq_none (by decide), by decide⟩
  array_unreadable := by
    intro elements
    show Unreadable _ _ "[]"
    exact ⟨parseUnary_eq_none (by decide), by decide⟩

theorem unaryNewtonsoft_measured : Measured unaryNewtonsoft := by
  intro text members h
  have hsize := membersSize_le_membersCode members
  rw [← (parseUnary_eq_some.mp h).2, unaryText_length, JToken.size]
  omega

/-- An object whose only member is an array with the text of the empty
object. -/
def nestedText : List (String × JToken Bool) :=
  [("a", .array [.string (unaryText [])])]

/-- The object returns a dictionary, and the text of a boolean throws. -/
theorem terminates_nestedText :
    (∃ dictionary : Dictionary Bool, dictionary.map Prod.fst = ["a"] ∧
      ∀ fuel, (unaryText nestedText).length < fuel →
        deserializeToDictionary unaryNewtonsoft fuel (unaryText nestedText)
          = some (.ok dictionary)) ∧
      ∃ e, ∀ fuel, "True".length < fuel →
        deserializeToDictionary unaryNewtonsoft fuel "True"
          = some (.error e) := by
  have hdistinct : (JToken.object nestedText).Distinct := by
    refine .object (by decide) ?_
    unfold nestedText
    rw [List.forall_mem_singleton]
    refine .array ?_
    rw [List.forall_mem_singleton]
    exact .string _
  have hparse : unaryNewtonsoft.parseObject (unaryText nestedText)
      = some nestedText := parseUnary_eq_some.mpr ⟨hdistinct, rfl⟩
  constructor
  · have hreadable : ¬ Unreadable unaryNewtonsoft.parseObject
        unaryNewtonsoft.readsNull (unaryText nestedText) := by
      rintro ⟨hnone, _⟩
      rw [hparse] at hnone
      cases hnone
    obtain ⟨dictionary, hkeys, hreturns⟩ := (terminates unaryNewtonsoft
      unaryNewtonsoft_measured (unaryText nestedText)).2.mpr hreadable
    rw [hparse] at hkeys
    exact ⟨dictionary, hkeys, hreturns⟩
  · exact (terminates unaryNewtonsoft unaryNewtonsoft_measured
      "True").1.mpr (unaryNewtonsoft.scalar_unreadable true)

end TvMazeScraper
