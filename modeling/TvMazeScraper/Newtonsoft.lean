import Mathlib.Logic.Equiv.List

/-!
# What the program takes from Newtonsoft.Json

The tokens that a JSON text is parsed to, and the laws of printing and
parsing that the services rely on, as the fields of `Newtonsoft`.

* `Reparsed`: the objects in a token come back from their texts.
* `Newtonsoft.knowing`: the laws hold for a converter that knows a given text
  of an object.  It prints other objects as numbers, which `tokenCode_inj`
  shows to be distinct.
-/

namespace TvMazeScraper

/-! ## Tokens -/

/-- A token of Newtonsoft.Json.  Booleans, numbers and dates are values of the
type `σ`. -/
inductive JToken (σ : Type) where
  | null
  | string (s : String)
  | scalar (v : σ)
  | array (elements : List (JToken σ))
  | object (members : List (String × JToken σ))

variable {σ : Type}

/-- The text of every object in a token is parsed to that object. -/
inductive Reparsed (toText : JToken σ → String)
    (parseObject : String → Option (List (String × JToken σ))) :
    JToken σ → Prop
  | null : Reparsed toText parseObject .null
  | string (s : String) : Reparsed toText parseObject (.string s)
  | scalar (v : σ) : Reparsed toText parseObject (.scalar v)
  | array {elements : List (JToken σ)} :
      (∀ e ∈ elements, Reparsed toText parseObject e) →
        Reparsed toText parseObject (.array elements)
  | object {members : List (String × JToken σ)} :
      parseObject (toText (.object members)) = some members →
      (∀ p ∈ members, Reparsed toText parseObject p.2) →
        Reparsed toText parseObject (.object members)

/-- A text that deserializes neither to a dictionary nor to null. -/
def Unreadable (parseObject : String → Option (List (String × JToken σ)))
    (readsNull : String → Bool) (text : String) : Prop :=
  parseObject text = none ∧ readsNull text = false

/-- What the function uses of Newtonsoft.Json: `ToString` of a token, the
members of the object that a text is read as, if it is, and whether a text is
read as null, like the empty one.  The objects inside an object that was read
come back from their texts, and the texts of booleans, numbers, dates and
arrays are read as neither. -/
structure Newtonsoft (σ : Type) where
  toText : JToken σ → String
  parseObject : String → Option (List (String × JToken σ))
  readsNull : String → Bool
  toText_null : toText .null = ""
  toText_string : ∀ s, toText (.string s) = s
  nodup : ∀ text members, parseObject text = some members →
    (members.map Prod.fst).Nodup
  reparsed : ∀ text members, parseObject text = some members →
    ∀ p ∈ members, Reparsed toText parseObject p.2
  readsNull_empty : readsNull "" = true
  readsNull_null : readsNull "null" = true
  parseObject_of_readsNull : ∀ text, readsNull text = true →
    parseObject text = none
  scalar_unreadable : ∀ v,
    Unreadable parseObject readsNull (toText (.scalar v))
  array_unreadable : ∀ es,
    Unreadable parseObject readsNull (toText (.array es))

/-! ## A concrete converter -/

/-- The keys of an object are pairwise distinct, at every depth. -/
inductive JToken.Distinct : JToken σ → Prop
  | null : Distinct .null
  | string (s : String) : Distinct (.string s)
  | scalar (v : σ) : Distinct (.scalar v)
  | array {elements : List (JToken σ)} :
      (∀ e ∈ elements, Distinct e) → Distinct (.array elements)
  | object {members : List (String × JToken σ)} :
      (members.map Prod.fst).Nodup → (∀ p ∈ members, Distinct p.2) →
        Distinct (.object members)

/-- When the text of every object with distinct keys is parsed to that object,
the objects in a token come back. -/
theorem reparsed_of_distinct {toText : JToken σ → String}
    {parseObject : String → Option (List (String × JToken σ))}
    (h : ∀ members, (JToken.object members).Distinct →
      parseObject (toText (.object members)) = some members)
    {v : JToken σ} (hdistinct : v.Distinct) :
    Reparsed toText parseObject v := by
  induction hdistinct with
  | null => exact .null
  | string s => exact .string s
  | scalar v => exact .scalar v
  | array helements ih => exact .array ih
  | object hnodup hmembers ih =>
    exact .object (h _ (.object hnodup hmembers)) ih

/-- The empty text and the text null. -/
def sampleReadsNull (text : String) : Bool :=
  text == "" || text == "null"

theorem sampleReadsNull_iff {text : String} :
    sampleReadsNull text = true ↔ text = "" ∨ text = "null" := by
  rw [sampleReadsNull, Bool.or_eq_true, beq_iff_eq, beq_iff_eq]

theorem sampleReadsNull_empty : sampleReadsNull "" = true := by decide

theorem sampleReadsNull_null : sampleReadsNull "null" = true := by decide

/-- A number for a string. -/
def stringCode (s : String) : Nat :=
  Encodable.encode (s.toList.map Char.toNat)

mutual

/-- A number for a token. -/
def tokenCode : JToken Bool → Nat
  | .null => Nat.pair 0 0
  | .string s => Nat.pair 1 (stringCode s)
  | .scalar b => Nat.pair 2 (Encodable.encode b)
  | .array elements => Nat.pair 3 (elementsCode elements)
  | .object members => Nat.pair 4 (membersCode members)

def elementsCode : List (JToken Bool) → Nat
  | [] => 0
  | e :: elements => Nat.pair (tokenCode e) (elementsCode elements) + 1

def membersCode : List (String × JToken Bool) → Nat
  | [] => 0
  | (key, v) :: members =>
    Nat.pair (Nat.pair (stringCode key) (tokenCode v)) (membersCode members)
      + 1

end

theorem stringCode_inj {s t : String} (h : stringCode s = stringCode t) :
    s = t := by
  have hmap := Encodable.encode_injective h
  have hchar : Function.Injective Char.toNat := fun c d hcd =>
    Char.toNat_inj.mp hcd
  exact String.toList_inj.mp (List.map_injective_iff.mpr hchar hmap)

mutual

theorem tokenCode_inj : ∀ {t t' : JToken Bool},
    tokenCode t = tokenCode t' → t = t'
  | .null, t', h => by
    cases t' with
    | null => rfl
    | _ => simp [tokenCode] at h
  | .string s, t', h => by
    cases t' with
    | string s' =>
      simp only [tokenCode, Nat.pair_eq_pair, true_and] at h
      rw [stringCode_inj h]
    | _ => simp [tokenCode] at h
  | .scalar b, t', h => by
    cases t' with
    | scalar b' =>
      simp only [tokenCode, Nat.pair_eq_pair, true_and] at h
      rw [Encodable.encode_injective h]
    | _ => simp [tokenCode] at h
  | .array elements, t', h => by
    cases t' with
    | array elements' =>
      simp only [tokenCode, Nat.pair_eq_pair, true_and] at h
      rw [elementsCode_inj h]
    | _ => simp [tokenCode] at h
  | .object members, t', h => by
    cases t' with
    | object members' =>
      simp only [tokenCode, Nat.pair_eq_pair, true_and] at h
      rw [membersCode_inj h]
    | _ => simp [tokenCode] at h

theorem elementsCode_inj : ∀ {es es' : List (JToken Bool)},
    elementsCode es = elementsCode es' → es = es'
  | [], es', h => by
    cases es' with
    | nil => rfl
    | cons e' es' => simp [elementsCode] at h
  | e :: es, es', h => by
    cases es' with
    | nil => simp [elementsCode] at h
    | cons e' es' =>
      simp only [elementsCode, Nat.add_right_cancel_iff, Nat.pair_eq_pair] at h
      rw [tokenCode_inj h.1, elementsCode_inj h.2]

theorem membersCode_inj : ∀ {ms ms' : List (String × JToken Bool)},
    membersCode ms = membersCode ms' → ms = ms'
  | [], ms', h => by
    cases ms' with
    | nil => rfl
    | cons p' ms' => simp [membersCode] at h
  | (key, v) :: ms, ms', h => by
    cases ms' with
    | nil => simp [membersCode] at h
    | cons p' ms' =>
      simp only [membersCode, Nat.add_right_cancel_iff, Nat.pair_eq_pair] at h
      rw [stringCode_inj h.1.1, tokenCode_inj h.1.2, membersCode_inj h.2]

end

/-- The text of an object starts with a brace and has no quotation mark. -/
def objectText (members : List (String × JToken Bool)) : String :=
  String.ofList ('{' :: Nat.toDigits 10 (membersCode members))

/-- The texts of null, of strings and of booleans are those of .NET.  The
texts of arrays and objects only have to differ. -/
def sampleText : JToken Bool → String
  | .null => ""
  | .string s => s
  | .scalar b => if b then "True" else "False"
  | .array _ => "[]"
  | .object members => objectText members

theorem objectText_inj {ms ms' : List (String × JToken Bool)}
    (h : objectText ms = objectText ms') : ms = ms' := by
  have hlist := congrArg String.toList h
  unfold objectText at hlist
  rw [String.toList_ofList, String.toList_ofList] at hlist
  have hdigits := congrArg (fun cs => Nat.ofDigitChars 10 cs 0)
    (List.cons.inj hlist).2
  simp only [Nat.ofDigitChars_ten_toDigits] at hdigits
  exact membersCode_inj hdigits

theorem quote_not_mem_objectText (ms : List (String × JToken Bool)) :
    '"' ∉ (objectText ms).toList := by
  unfold objectText
  rw [String.toList_ofList, List.mem_cons, not_or]
  refine ⟨by decide, fun hmem => ?_⟩
  have hdigit := Nat.isDigit_of_mem_toDigits (by decide) (by decide) hmem
  exact absurd hdigit (by decide)

/-- An object with distinct keys. -/
abbrev DistinctObject :=
  { members : List (String × JToken Bool) // (JToken.object members).Distinct }

/-- The object that a text is, by `objectText`. -/
noncomputable def objectOf (text : String) :
    Option (List (String × JToken Bool)) :=
  (Function.partialInv (fun o : DistinctObject => objectText o.1) text).map
    Subtype.val

theorem objectOf_eq_some {text : String}
    {members : List (String × JToken Bool)} :
    objectOf text = some members ↔
      (JToken.object members).Distinct ∧ objectText members = text := by
  have hinj : Function.Injective fun o : DistinctObject => objectText o.1 :=
    fun o o' h => Subtype.ext (objectText_inj h)
  unfold objectOf
  rw [Option.map_eq_some_iff]
  constructor
  · rintro ⟨o, ho, rfl⟩
    exact ⟨o.2, (hinj.isPartialInv o text).mp ho⟩
  · rintro ⟨hdistinct, htext⟩
    exact ⟨⟨members, hdistinct⟩, (hinj.isPartialInv _ text).mpr htext, rfl⟩

/-- A text that does not start with a brace is no object. -/
theorem objectOf_eq_none {text : String} (h : text.toList.head? ≠ some '{') :
    objectOf text = none := by
  rw [Option.eq_none_iff_forall_ne_some]
  intro members hsome
  apply h
  rw [← (objectOf_eq_some.mp hsome).2, objectText, String.toList_ofList]
  rfl

/-- The converter that knows the object of one more text, which has a
quotation mark. -/
noncomputable def parseKnowing (json : String)
    (members : List (String × JToken Bool)) (text : String) :
    Option (List (String × JToken Bool)) :=
  if text = json then some members else objectOf text

theorem parseKnowing_eq_none {json : String}
    {members : List (String × JToken Bool)} (hquote : '"' ∈ json.toList)
    {text : String} (hnot : '"' ∉ text.toList)
    (hhead : text.toList.head? ≠ some '{') :
    parseKnowing json members text = none := by
  unfold parseKnowing
  rw [if_neg, objectOf_eq_none hhead]
  intro h
  exact hnot (h ▸ hquote)

theorem parseKnowing_toText {json : String}
    {members : List (String × JToken Bool)} (hquote : '"' ∈ json.toList)
    (ms : List (String × JToken Bool)) (hms : (JToken.object ms).Distinct) :
    parseKnowing json members (sampleText (.object ms)) = some ms := by
  unfold parseKnowing
  rw [if_neg, objectOf_eq_some]
  · exact ⟨hms, rfl⟩
  · intro h
    apply quote_not_mem_objectText ms
    rw [show objectText ms = json from h]
    exact hquote

theorem parseKnowing_distinct {json text : String}
    {members ms : List (String × JToken Bool)}
    (hdistinct : (JToken.object members).Distinct)
    (h : parseKnowing json members text = some ms) :
    (JToken.object ms).Distinct := by
  unfold parseKnowing at h
  split_ifs at h
  · cases h
    exact hdistinct
  · exact (objectOf_eq_some.mp h).1

noncomputable def Newtonsoft.knowing (json : String)
    (members : List (String × JToken Bool)) (hquote : '"' ∈ json.toList)
    (hdistinct : (JToken.object members).Distinct) : Newtonsoft Bool where
  toText := sampleText
  parseObject := parseKnowing json members
  readsNull := sampleReadsNull
  toText_null := rfl
  toText_string _ := rfl
  nodup := by
    intro text ms h
    cases parseKnowing_distinct hdistinct h with
    | object hnodup _ => exact hnodup
  reparsed := by
    intro text ms h p hp
    cases parseKnowing_distinct hdistinct h with
    | object _ hmembers =>
      exact reparsed_of_distinct (parseKnowing_toText hquote) (hmembers p hp)
  readsNull_empty := sampleReadsNull_empty
  readsNull_null := sampleReadsNull_null
  parseObject_of_readsNull := by
    intro text h
    rcases sampleReadsNull_iff.mp h with rfl | rfl
    · exact parseKnowing_eq_none hquote (by decide) (by decide)
    · exact parseKnowing_eq_none hquote (by decide) (by decide)
  scalar_unreadable := by
    intro b
    cases b with
    | false =>
      exact ⟨parseKnowing_eq_none hquote (by decide) (by decide), by decide⟩
    | true =>
      exact ⟨parseKnowing_eq_none hquote (by decide) (by decide), by decide⟩
  array_unreadable := by
    intro elements
    show Unreadable _ _ "[]"
    exact ⟨parseKnowing_eq_none hquote (by decide) (by decide), by decide⟩

theorem parseObject_knowing {json : String}
    {members : List (String × JToken Bool)} (hquote : '"' ∈ json.toList)
    (hdistinct : (JToken.object members).Distinct) :
    (Newtonsoft.knowing json members hquote hdistinct).parseObject json
      = some members :=
  if_pos rfl

end TvMazeScraper
