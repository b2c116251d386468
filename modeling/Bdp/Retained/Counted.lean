import Bdp.Library.JsonText
import Bdp.Retained.Prepared

/-!
# Counted identifiers

A configuration whose identifiers are a letter for their purpose and the decimal index of the draw,
and small requests prepared for it. Every assumption on a configuration or on a prepared request
holds of them, in each of the three formats.
-/

namespace Bdp.Retained

namespace UuidPurpose

/-- The first letter of the identifiers drawn for a purpose. -/
def letter : UuidPurpose → Char
  | .identity => 'i'
  | .revision => 'r'
  | .event => 'e'
  | .transaction => 't'
  | .boundary => 'b'
  | .cursor => 'c'

theorem letter_injective : Function.Injective letter := by
  intro left right h
  cases left <;> cases right <;> first | rfl | exact absurd h (by decide)

end UuidPurpose

def countedUuids : UuidSource where
  uuid purpose index := String.ofList (purpose.letter :: Nat.toDigits 10 index)
  uuid_injective {purpose purpose' index index'} h := by
    obtain ⟨hletter, hdigits⟩ := List.cons.inj (String.ofList_injective h)
    refine ⟨UuidPurpose.letter_injective hletter, ?_⟩
    calc index = Nat.ofDigitChars 10 (Nat.toDigits 10 index) 0 := Nat.ofDigitChars_ten_toDigits.symm
      _ = Nat.ofDigitChars 10 (Nat.toDigits 10 index') 0 := by rw [hdigits]
      _ = index' := Nat.ofDigitChars_ten_toDigits
  uuid_nonempty purpose index h := by
    have hlist := congrArg String.toList h
    simp at hlist

/-- A Scope with its alias and event collections; every URI of the Scope is canonical. -/
def countedNavigation : Navigation where
  scope := "https://h/"
  aliases := "https://h/a/"
  events := "https://h/e"
  addresses := ["https://h/", "https://h/e"]
  canonical uri := "https://h/".toList.isPrefixOf uri.toList

theorem countedNavigation_canonical (suffix : String) :
    countedNavigation.canonical (countedNavigation.scope ++ suffix) = true := by
  change List.isPrefixOf "https://h/".toList
    ("https://h/" ++ suffix).toList = true
  rw [String.toList_append]
  exact List.isPrefixOf_iff_prefix.mpr (List.prefix_append _ _)

/-- A clock whose instants all have the text of the epoch. -/
def epochFormat : ClockFormat where
  toISOString _ := "1970-01-01T00:00:00.000Z"
  parses text := text == "1970-01-01T00:00:00.000Z"
  toISOString_nonempty _ := by decide
  parses_toISOString _ := by decide

def countedConfiguration (format : StoreFormat) : StoreConfiguration where
  navigation := countedNavigation
  format
  referenceCore := true
  codec := JsonText.codec
  uuids := countedUuids
  clockFormat := epochFormat
  httpUri uri := uri.startsWith "https://"
  historical_referenceCore _ := rfl
  canonical_allocated _ := countedNavigation_canonical _

section Requests

def inScope (name : String) : String := "https://h/" ++ name

theorem inScope_startsWith (name : String) :
    (inScope name).startsWith countedNavigation.scope = true := by
  have hprefix (first rest : String) : (first ++ rest).startsWith first = true := by simp
  exact hprefix "https://h/" name

def countedType : Json := .string "https://h/t"

theorem countedType_reference (format : StoreFormat) :
    isTypeReference (countedConfiguration format).httpUri countedType = true := by
  simp [isTypeReference, countedConfiguration, countedType]

/-- A Bead with the given properties under its own name. -/
def countedCreate (format : StoreFormat) (key name : String) (properties : JsonObject)
    (unique : (JsonValue.object properties).uniqueNames = true) :
    PreparedCreate (countedConfiguration format) where
  key
  comparison :=
    { format := "retained-v01-create-1", media := RETAINED_MEDIA, capabilities := []
      operation := .createBead, input := [("id", .string (inScope name))], slots := [] }
  id := some (inScope name)
  type := countedType
  properties
  metadata := []
  provenance := none
  refusal := none
  operation_eq := rfl
  slots_eq := rfl
  input_nodup := by simp
  input_id := rfl
  id_canonical uri h := by
    rw [← Option.some.inj h]
    exact countedNavigation_canonical name
  type_reference := countedType_reference format
  unique_names := ⟨rfl, unique, rfl⟩
  refusal_validation _ h := nomatch h

/-- A Link from a Bead of the Scope to a foreign URI. -/
def countedLink (format : StoreFormat) (key name source : String) :
    PreparedLink (countedConfiguration format) where
  key
  operation := .createLink
  comparison :=
    { format := "retained-v01-link-1", media := RETAINED_MEDIA, capabilities := []
      operation := .createLink
      input := [("id", .string (inScope name)), ("source", .string (inScope source)),
        ("target", .string "https://f/")]
      slots := endpointSlots (some (.floating (inScope source)))
        (some (.floating "https://f/")) }
  id := some (inScope name)
  link := ""
  edits := { EditFields.empty with
    type := some countedType
    properties := some []
    metadata := some []
    source := some (.floating (inScope source))
    target := some (.floating "https://f/") }
  refusal := none
  operation_eq := rfl
  slots_eq := ⟨_, _, rfl, fun _ ↦ ⟨rfl, rfl⟩⟩
  input_nodup := by simp
  input_id _ := rfl
  input_link _ h := absurd rfl h
  input_endpoints _ := ⟨rfl, rfl⟩
  id_canonical uri h := by
    rw [← Option.some.inj h]
    exact countedNavigation_canonical name
  type_reference type h := by
    rw [← Option.some.inj h]
    exact countedType_reference format
  create_complete _ _ := ⟨rfl, rfl, rfl, rfl, rfl⟩
  unique_names := rfl
  edits_fromRevision := rfl
  delete_slots h := nomatch h
  refused_id h := nomatch h
  refusal_validation _ h := nomatch h

end Requests

end Bdp.Retained
