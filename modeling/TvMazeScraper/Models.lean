import TvMazeScraper.Dotnet

/-!
# The data model

The classes of `Models/`.  A member of a reference type can be null after
deserialization, whatever its declaration says, so it is an `Option` here.
`JsonConvert` is a parameter of the model.
-/

namespace TvMazeScraper

/-- A `DateTime` as its ticks. -/
abbrev DateTime := Int

/-- A `double` as its bits.  No service computes with one. -/
abbrev Double := UInt64

structure Country where
  name : Option String := none
  code : Option String := none
  timezone : Option String := none
  deriving DecidableEq, Repr

structure DvdCountry where
  name : Option String := none
  code : Option String := none
  timezone : Option String := none
  deriving DecidableEq, Repr

structure Externals where
  tvrage : Option Int32 := none
  thetvdb : Option Int32 := none
  imdb : Option String := none
  deriving DecidableEq, Repr

structure Image where
  medium : Option String := none
  original : Option String := none
  deriving DecidableEq, Repr

structure Network where
  id : Int32 := 0
  name : Option String := none
  country : Option Country := none
  officialSite : Option String := none
  deriving DecidableEq, Repr

structure Nextepisode where
  href : Option String := none
  deriving DecidableEq, Repr

structure Previousepisode where
  href : Option String := none
  deriving DecidableEq, Repr

structure Rating where
  average : Option Double := none
  deriving DecidableEq, Repr

structure Schedule where
  time : Option String := none
  days : Option (List (Option String)) := none
  deriving DecidableEq, Repr

structure Self where
  href : Option String := none
  deriving DecidableEq, Repr

structure WebChannel where
  id : Int32 := 0
  name : Option String := none
  country : Option Country := none
  officialSite : Option String := none
  deriving DecidableEq, Repr

/-- The member `_links` is left out: a show would have links and they a show
again, and no service reads it. -/
structure Show where
  id : Int32 := 0
  href : Option String := none
  url : Option String := none
  name : Option String := none
  type : Option String := none
  language : Option String := none
  genres : Option (List (Option String)) := none
  status : Option String := none
  runtime : Option Int32 := none
  averageRuntime : Option Int32 := none
  premiered : Option DateTime := none
  ended : Option DateTime := none
  officialSite : Option String := none
  schedule : Option Schedule := none
  rating : Option Rating := none
  weight : Int32 := 0
  network : Option Network := none
  webChannel : Option WebChannel := none
  dvdCountry : Option DvdCountry := none
  externals : Option Externals := none
  image : Option Image := none
  summary : Option String := none
  updated : Int32 := 0
  deriving DecidableEq, Repr

structure Links where
  self : Option Self := none
  «show» : Option Show := none
  previousepisode : Option Previousepisode := none
  nextepisode : Option Nextepisode := none
  deriving DecidableEq, Repr

structure Person where
  id : Int32 := 0
  url : Option String := none
  name : Option String := none
  country : Option Country := none
  birthday : Option DateTime := none
  deathday : Option DateTime := none
  gender : Option String := none
  image : Option Image := none
  updated : Int32 := 0
  _links : Option Links := none
  deriving DecidableEq, Repr

structure Character where
  id : Int32 := 0
  url : Option String := none
  name : Option String := none
  image : Option Image := none
  _links : Option Links := none
  deriving DecidableEq, Repr

structure Cast where
  person : Option Person := none
  character : Option Character := none
  self : Bool := false
  voice : Bool := false
  deriving DecidableEq, Repr

structure Embedded where
  cast : Option (List (Option Cast)) := none
  deriving DecidableEq, Repr

structure ShowDetails where
  id : Int32 := 0
  url : Option String := none
  name : Option String := none
  season : Int32 := 0
  number : Option Int32 := none
  type : Option String := none
  language : Option String := none
  runtime : Option Int32 := none
  rating : Option Rating := none
  image : Option Image := none
  summary : Option String := none
  _links : Option Links := none
  _embedded : Option Embedded := none
  genres : Option (List (Option String)) := none
  status : Option String := none
  averageRuntime : Option Int32 := none
  premiered : Option DateTime := none
  ended : Option DateTime := none
  officialSite : Option String := none
  schedule : Option Schedule := none
  weight : Int32 := 0
  network : Option Network := none
  webChannel : Option WebChannel := none
  dvdCountry : Option DvdCountry := none
  externals : Option Externals := none
  updated : Int32 := 0
  deriving DecidableEq, Repr

/-- The entries of the cast of a show, none when it has no cast. -/
def ShowDetails.castEntries (d : ShowDetails) : List (Option Cast) :=
  ((d._embedded.bind Embedded.cast).getD [])

/-- The persons that occur in the cast of a show. -/
def ShowDetails.castPersons (d : ShowDetails) : List Person :=
  d.castEntries.filterMap fun c => c.bind Cast.person

/-- Neither the cast of the show nor an entry of it is null.  A person may
be. -/
def ShowDetails.ReadableCast (d : ShowDetails) : Prop :=
  (d._embedded.bind Embedded.cast).isSome ∧ ∀ c ∈ d.castEntries, c.isSome

instance (d : ShowDetails) : Decidable d.ReadableCast := by
  unfold ShowDetails.ReadableCast
  infer_instance

/-- A row of `ConsumerQueue`. -/
structure ConsumerQueueItem where
  Id : Nat
  UrlToProcess : String
  deriving DecidableEq, Repr

/-- A row of `UnprocessedEpisodesDetails`.  `Id` is the primary key. -/
structure UnprocessedEpisodeDetails where
  Id : String
  RawData : String
  deriving DecidableEq, Repr

structure ApplicationInfo where
  IsMainApplication : Bool
  deriving DecidableEq, Repr

structure ELKConfiguration where
  index : String
  deriving DecidableEq, Repr

/-- A `Dictionary<string, int>` as the listing of TVMaze deserializes to it.
Only its keys are read. -/
structure UpdatesDictionary where
  keys : List String
  nodup : keys.Nodup

/-- The calls of Newtonsoft.Json that the services make.  A deserialization
throws, gives null, or gives a value. -/
structure JsonConvert where
  deserializeShowDetails : String → Except Exn (Option ShowDetails)
  deserializeUpdates : String → Except Exn (Option UpdatesDictionary)
  serializeShowDetails : ShowDetails → String
  serializePerson : Person → String

/-- A converter that deserializes the bodies of a table. -/
def JsonConvert.ofTable (shows : List (String × ShowDetails)) :
    JsonConvert where
  deserializeShowDetails body :=
    match shows.lookup body with
    | some d => .ok (some d)
    | none => .error .json
  deserializeUpdates _ := .error .json
  serializeShowDetails d := "\x7b\"id\":" ++ toString d.id ++ "\x7d"
  serializePerson p := "\x7b\"id\":" ++ toString p.id ++ "\x7d"

/-- What the generic `ProcessBulk<T>` uses of `T`: the id under which a
document is stored, the index that the default mappings give the type, the
public fields that reflection finds, and the serialized form.  The name of
the index holds a character that no integer has, which
`ElasticTvMaze.failedDocuments` runs into. -/
class Document (T : Type) where
  id : T → Int32
  indexName : ELKConfiguration → String
  indexName_char : ∀ config, ∃ c ∈ (indexName config).toList,
    isInt32Char c = false
  fields : List (String × (T → String))
  serialize : JsonConvert → T → String

/-- Every member of `ShowDetails` is declared with `get` and `set`, so the
class has properties and no fields. -/
instance : Document ShowDetails where
  id := ShowDetails.id
  indexName config := config.index ++ "-show-details"
  indexName_char config := by
    refine ⟨'s', ?_, by decide⟩
    rw [String.toList_append]
    exact List.mem_append_right _ (by decide)
  fields := []
  serialize json := json.serializeShowDetails

/-- Every member of `Person` is declared with `get` and `set`, so the class
has properties and no fields. -/
instance : Document Person where
  id := Person.id
  indexName config := config.index ++ "-person-details"
  indexName_char config := by
    refine ⟨'p', ?_, by decide⟩
    rw [String.toList_append]
    exact List.mem_append_right _ (by decide)
  fields := []
  serialize json := json.serializePerson

/-- `Type.GetField`: the public field of that name, never a property. -/
def getField (T : Type) [Document T] (name : String) : Option (T → String) :=
  (Document.fields : List (String × (T → String))).lookup name

end TvMazeScraper
