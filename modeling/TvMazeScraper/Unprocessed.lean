import TvMazeScraper.ElasticTvMaze.LoadData

/-!
# The rows of rejected documents

`recordUnprocessed` runs once for each bulk response with errors.  This module
takes the lists of rejected documents as given and follows the table over any
sequence of such steps, in any number of scopes.

The key of a row is the field `id` of the class of its document.  `id` is a
property of both classes, so `Type.GetField` finds no field and every row has
the empty key.

* `rejectedRow_Id`: the key of every row is empty.
* `recordAll_rows`: the table after a sequence that does not throw.
* `recordAll_of_room`: one document can be recorded.
* `recordsApart_iff`: more than one can not.
-/

namespace TvMazeScraper

/-- One recording step: the rejected documents of one bulk response. -/
inductive Recording where
  | shows (unprocessedEpisodes : List ShowDetails)
  | persons (unprocessedEpisodes : List Person)

/-- The rejected documents of a step, each with its type. -/
def Recording.rejected : Recording → List (ShowDetails ⊕ Person)
  | .shows unprocessedEpisodes => unprocessedEpisodes.map .inl
  | .persons unprocessedEpisodes => unprocessedEpisodes.map .inr

/-- Documents are the same when they have one type and one id. -/
def identity : ShowDetails ⊕ Person → Int32 ⊕ Int32 :=
  Sum.map ShowDetails.id Person.id

/-- The row of a rejected document. -/
def rejectedRow (json : JsonConvert) :
    ShowDetails ⊕ Person → UnprocessedEpisodeDetails
  | .inl d => unprocessedRow json (some d)
  | .inr p => unprocessedRow json (some p)

/-- One step in the context of its scope. -/
def Recording.record (json : JsonConvert) (context : DbContext) :
    Recording → Except Exn DbContext
  | .shows unprocessedEpisodes =>
    recordUnprocessed json (unprocessedEpisodes.map some) context
  | .persons unprocessedEpisodes =>
    recordUnprocessed json (unprocessedEpisodes.map some) context

/-- The steps of one scope. -/
def recordScope (json : JsonConvert) :
    List Recording → DbContext → Except Exn DbContext
  | [], context => .ok context
  | step :: steps, context => do
    let context ← step.record json context
    recordScope json steps context

/-- The steps of one scope after the other. -/
def recordAll (json : JsonConvert) :
    List (List Recording) → UnprocessedTable → Except Exn UnprocessedTable
  | [], table => .ok table
  | steps :: scopes, table => do
    let context ← recordScope json steps (.newScope table)
    recordAll json scopes context.table

/-- The documents that are rejected in a sequence of scopes. -/
def rejectedIn (scopes : List (List Recording)) :
    List (ShowDetails ⊕ Person) :=
  scopes.flatten.flatMap Recording.rejected

/-- Recording does not collide: no step throws, every rejected document has
its row, and different documents have different rows. -/
structure RecordsApart (json : JsonConvert) (scopes : List (List Recording)) :
    Prop where
  recorded : ∃ table, recordAll json scopes .empty = .ok table ∧
    ∀ e ∈ rejectedIn scopes, rejectedRow json e ∈ table.rows
  apart : ∀ e ∈ rejectedIn scopes, ∀ e' ∈ rejectedIn scopes,
    identity e ≠ identity e' →
      (rejectedRow json e).Id ≠ (rejectedRow json e').Id

section Recording

variable {json : JsonConvert}

/-- `GetField` finds no field, so the key of every row is empty. -/
theorem rejectedRow_Id (e : ShowDetails ⊕ Person) :
    (rejectedRow json e).Id = "" := by
  cases e with
  | inl d => rfl
  | inr p => rfl

/-- A step adds the rows of its documents. -/
theorem record_eq (step : Recording) (context : DbContext) :
    step.record json context
      = context.addRange (step.rejected.map (rejectedRow json)) := by
  cases step with
  | shows unprocessedEpisodes =>
    show context.addRange ((unprocessedEpisodes.map some).map _) = _
    rw [List.map_map, Recording.rejected, List.map_map]
    rfl
  | persons unprocessedEpisodes =>
    show context.addRange ((unprocessedEpisodes.map some).map _) = _
    rw [List.map_map, Recording.rejected, List.map_map]
    rfl

/-! ## What a sequence that does not throw leaves -/

theorem addRange_rows {context context' : DbContext}
    {rows : List UnprocessedEpisodeDetails}
    (h : context.addRange rows = .ok context') :
    context'.table.rows = context.table.rows ++ rows := by
  unfold DbContext.addRange at h
  obtain ⟨tracked, _, h⟩ := ExceptList.bind_ok h
  obtain ⟨table, htable, h⟩ := ExceptList.bind_ok h
  cases h
  unfold UnprocessedTable.insertAll at htable
  split_ifs at htable with hkeys
  cases htable
  rfl

theorem recordScope_rows {steps : List Recording} :
    ∀ {context context' : DbContext},
      recordScope json steps context = .ok context' →
      context'.table.rows = context.table.rows ++
        (steps.flatMap Recording.rejected).map (rejectedRow json) := by
  induction steps with
  | nil =>
    intro context context' h
    cases h
    simp
  | cons step steps ih =>
    intro context context' h
    unfold recordScope at h
    obtain ⟨next, hstep, h⟩ := ExceptList.bind_ok h
    rw [record_eq] at hstep
    rw [ih h, addRange_rows hstep, List.flatMap_cons, List.map_append,
      List.append_assoc]

/-- The table of a sequence that does not throw has a row for each rejected
document. -/
theorem recordAll_rows {scopes : List (List Recording)} :
    ∀ {table table' : UnprocessedTable},
      recordAll json scopes table = .ok table' →
      table'.rows = table.rows ++
        (rejectedIn scopes).map (rejectedRow json) := by
  induction scopes with
  | nil =>
    intro table table' h
    cases h
    simp [rejectedIn]
  | cons steps scopes ih =>
    intro table table' h
    unfold recordAll at h
    obtain ⟨context, hscope, h⟩ := ExceptList.bind_ok h
    rw [ih h, recordScope_rows hscope, rejectedIn, rejectedIn,
      List.flatten_cons, List.flatMap_append, List.map_append,
      List.append_assoc]
    rfl

/-- Two documents do not get past the primary key. -/
theorem length_le_one_of_recordAll {scopes : List (List Recording)}
    {table : UnprocessedTable}
    (h : recordAll json scopes .empty = .ok table) :
    (rejectedIn scopes).length ≤ 1 := by
  have hkeys := table.primaryKey
  rw [recordAll_rows h] at hkeys
  have hempty : (((rejectedIn scopes).map (rejectedRow json)).map
      UnprocessedEpisodeDetails.Id)
        = List.replicate (rejectedIn scopes).length "" := by
    rw [List.map_map, List.eq_replicate_iff]
    refine ⟨List.length_map _, fun id hid => ?_⟩
    obtain ⟨e, _, rfl⟩ := List.mem_map.mp hid
    exact rejectedRow_Id e
  show (rejectedIn scopes).length ≤ 1
  rw [UnprocessedTable.empty, List.nil_append, hempty] at hkeys
  exact List.nodup_replicate.mp hkeys

/-! ## One document -/

/-- There is room for `count` more documents: there is none to come, or one,
and nothing stands in its way. -/
def Room (context : DbContext) (count : Nat) : Prop :=
  count = 0 ∨ count = 1 ∧ context.table.rows = [] ∧ context.tracked = []

theorem addRange_nil (context : DbContext) :
    context.addRange [] = .ok context := by
  have hkeys : ((context.table.rows ++ []).map
      UnprocessedEpisodeDetails.Id).Nodup := by
    rw [List.append_nil]
    exact context.table.primaryKey
  unfold DbContext.addRange UnprocessedTable.insertAll
  rw [dif_pos hkeys]
  simp only [List.append_nil]
  rfl

/-- The first row of a table is added. -/
theorem addRange_single {context : DbContext} (hrows : context.table.rows = [])
    (htracked : context.tracked = []) (row : UnprocessedEpisodeDetails) :
    ∃ context', context.addRange [row] = .ok context' := by
  have hkeys : ((context.table.rows ++ [row]).map
      UnprocessedEpisodeDetails.Id).Nodup := by
    rw [hrows]
    exact List.nodup_singleton _
  unfold DbContext.addRange UnprocessedTable.insertAll
  rw [htracked, dif_pos hkeys]
  exact ⟨_, rfl⟩

/-- A step that finds room for its documents leaves room for the rest. -/
theorem record_of_room (json : JsonConvert) {step : Recording}
    {context : DbContext} {rest : Nat}
    (h : Room context (step.rejected.length + rest)) :
    ∃ context', step.record json context = .ok context' ∧
      Room context' rest := by
  rw [record_eq]
  cases hrejected : step.rejected with
  | nil =>
    rw [hrejected, List.length_nil, Nat.zero_add] at h
    exact ⟨context, addRange_nil context, h⟩
  | cons e more =>
    rw [hrejected, List.length_cons] at h
    rcases h with hzero | ⟨hone, hrows, htracked⟩
    · omega
    · have hmore : more = [] := List.length_eq_zero_iff.mp (by omega)
      have hrest : rest = 0 := by omega
      subst hmore
      obtain ⟨context', h'⟩ :=
        addRange_single hrows htracked (rejectedRow json e)
      exact ⟨context', h', .inl hrest⟩

theorem recordScope_of_room (json : JsonConvert) {steps : List Recording} :
    ∀ {context : DbContext} {rest : Nat},
      Room context ((steps.flatMap Recording.rejected).length + rest) →
      ∃ context', recordScope json steps context = .ok context' ∧
        Room context' rest := by
  induction steps with
  | nil =>
    intro context rest h
    rw [List.flatMap_nil, List.length_nil, Nat.zero_add] at h
    exact ⟨context, rfl, h⟩
  | cons step steps ih =>
    intro context rest h
    rw [List.flatMap_cons, List.length_append, Nat.add_assoc] at h
    obtain ⟨next, hstep, hroom⟩ := record_of_room json h
    obtain ⟨context', hsteps, hrest⟩ := ih hroom
    refine ⟨context', ?_, hrest⟩
    unfold recordScope
    rw [hstep]
    exact hsteps

/-- A sequence of at most one document does not throw. -/
theorem recordAll_of_room (json : JsonConvert)
    {scopes : List (List Recording)} :
    ∀ {table : UnprocessedTable},
      Room (.newScope table) (rejectedIn scopes).length →
      ∃ table', recordAll json scopes table = .ok table' := by
  induction scopes with
  | nil => intro table _; exact ⟨table, rfl⟩
  | cons steps scopes ih =>
    intro table h
    rw [rejectedIn, List.flatten_cons, List.flatMap_append,
      List.length_append] at h
    obtain ⟨context, hscope, hroom⟩ := recordScope_of_room json h
    have hnext : Room (.newScope context.table)
        (rejectedIn scopes).length := by
      rcases hroom with hzero | ⟨hone, hrows, _⟩
      · exact .inl hzero
      · exact .inr ⟨hone, hrows, rfl⟩
    obtain ⟨table', htable⟩ := ih hnext
    refine ⟨table', ?_⟩
    unfold recordAll
    rw [hscope]
    exact htable

/-- Recording does not collide if and only if at most one document is ever
rejected. -/
theorem recordsApart_iff (json : JsonConvert)
    (scopes : List (List Recording)) :
    RecordsApart json scopes ↔ (rejectedIn scopes).length ≤ 1 := by
  constructor
  · intro h
    rcases h.recorded with ⟨table, htable, _⟩
    exact length_le_one_of_recordAll htable
  · intro hcount
    have hroom : Room (.newScope .empty) (rejectedIn scopes).length := by
      unfold Room
      by_cases hzero : (rejectedIn scopes).length = 0
      · exact .inl hzero
      · exact .inr ⟨by omega, rfl, rfl⟩
    obtain ⟨table, htable⟩ := recordAll_of_room json hroom
    constructor
    · refine ⟨table, htable, fun e he => ?_⟩
      rw [recordAll_rows htable]
      exact List.mem_append_right _ (List.mem_map_of_mem he)
    · intro e he e' he' hne
      have hsame : e = e' := by
        cases hlist : rejectedIn scopes with
        | nil => rw [hlist] at he; cases he
        | cons a rest =>
          rw [hlist, List.length_cons] at hcount
          have hrest : rest = [] := List.length_eq_zero_iff.mp (by omega)
          rw [hlist, hrest, List.mem_singleton] at he he'
          rw [he, he']
      exact absurd (congrArg identity hsame) hne

end Recording

/-- Show 1 and person 1 are rejected in one `LoadData`, and the second step
throws. -/
theorem rows_collide :
    recordAll (.ofTable []) [[.shows [{ id := 1 }], .persons [{ id := 1 }]]]
        .empty = .error .invalidOperation ∧
      ¬ RecordsApart (.ofTable [])
        [[.shows [{ id := 1 }], .persons [{ id := 1 }]]] := by
  have hthrows : recordAll (.ofTable [])
      [[.shows [{ id := 1 }], .persons [{ id := 1 }]]] .empty
        = .error .invalidOperation := rfl
  refine ⟨hthrows, fun h => ?_⟩
  rcases h.recorded with ⟨table, htable, _⟩
  rw [hthrows] at htable
  cases htable

end TvMazeScraper
