import Wallow.Shared.SchemaGenerator
import Mathlib.Tactic.Choose

/-!
# What a generated schema accepts

Of which types the schema accepts everything the serializer writes for their values.
-/

namespace Wallow.Shared.JsonSchemaGenerator

open JsonSchema

variable {lower : LowerCase} {graph : TypeGraph lower} {type : PayloadType} {schema : Schema}

/-! ## Names -/

theorem toCamelCase_toCamelCase (name : String) :
    toCamelCase lower (toCamelCase lower name) = toCamelCase lower name := by
  cases hname : name.toList with
  | nil =>
    have hsame : toCamelCase lower name = name := by
      unfold toCamelCase
      rw [hname]
    rw [hsame, hsame]
  | cons c rest =>
    have hcamel : toCamelCase lower name = String.ofList (lower.toLowerInvariant c :: rest) := by
      unfold toCamelCase
      rw [hname]
    rw [hcamel]
    unfold toCamelCase
    rw [String.toList_ofList]
    dsimp only
    rw [lower.idempotent]

/-- A property whose name is the camel-cased name of another one is that one. -/
theorem RecordType.eq_of_name {record : RecordType lower} {p q : Property}
    (hp : p ∈ record.properties) (hq : q ∈ record.properties)
    (hname : q.name = toCamelCase lower p.name) : q = p := by
  refine List.inj_on_of_nodup_map record.camelNames_nodup hq hp ?_
  rw [hname, toCamelCase_toCamelCase]

theorem RecordType.name_inj {record : RecordType lower} {p q : Property}
    (hp : p ∈ record.properties) (hq : q ∈ record.properties) (hname : p.name = q.name) : p = q :=
  List.inj_on_of_nodup_map record.camelNames_nodup hp hq (congrArg _ hname)

/-! ## Instances -/

theorem Serialized.nullable {value : Instance} (nullable : Bool)
    (h : Serialized lower graph type false value) :
    Serialized lower graph type nullable value := by
  cases h with
  | simple hwrites => exact .simple hwrites
  | enum n => exact .enum n
  | bytes text => exact .bytes text
  | array hbytes hitems => exact .array hbytes hitems
  | list hitems => exact .list hitems
  | enumerable hitems => exact .enumerable hitems
  | dictionary hmembers => exact .dictionary hmembers
  | record value hvalue => exact .record value hvalue

theorem Kind.exists_writes (kind : Kind) : ∃ value, kind.Writes value := by
  cases kind with
  | string | guid | dateTime | dateTimeOffset | timeSpan | char => exact ⟨.string "", "", rfl⟩
  | bool => exact ⟨.bool true, true, rfl⟩
  | int | long | byte => exact ⟨_, 0, by decide, by decide, rfl⟩
  | decimal | double | float => exact ⟨.number 0, 0, rfl⟩
  | otherInteger least more => exact ⟨_, least, Int.le_refl _, by omega, rfl⟩

/-- Values for the properties make a value of the record. -/
theorem RecordType.exists_values {record : RecordType lower} {R : Property → Instance → Prop}
    (h : ∀ p ∈ record.properties, ∃ value, R p value) :
    ∃ value : String → Instance, ∀ p ∈ record.properties, R p (value p.name) := by
  have hnamed : ∀ name, ∃ value, ∀ p ∈ record.properties, p.name = name → R p value := by
    intro name
    by_cases hname : ∃ p ∈ record.properties, p.name = name
    · obtain ⟨p, hp, rfl⟩ := hname
      obtain ⟨value, hvalue⟩ := h p hp
      refine ⟨value, fun q hq hsame => ?_⟩
      rw [name_inj hq hp hsame]
      exact hvalue
    · exact ⟨.null, fun p hp hsame => absurd ⟨p, hp, hsame⟩ hname⟩
  choose value hvalue using hnamed
  exact ⟨value, fun p hp => hvalue p.name p hp rfl⟩

/-- A type whose paths end has a value. -/
theorem Ends.exists_serialized (h : Ends lower graph type) :
    ∃ value, Serialized lower graph type false value := by
  induction h with
  | simple kind =>
    obtain ⟨value, hvalue⟩ := kind.exists_writes
    exact ⟨value, .simple hvalue⟩
  | enum => exact ⟨_, .enum 0⟩
  | @array element nullable _ _ =>
    by_cases hbytes : element = .simple .byte ∧ nullable = false
    · obtain ⟨rfl, rfl⟩ := hbytes
      exact ⟨_, .bytes ""⟩
    · exact ⟨.array [], .array hbytes fun item hitem => absurd hitem List.not_mem_nil⟩
  | list nullable _ _ => exact ⟨.array [], .list fun item hitem => absurd hitem List.not_mem_nil⟩
  | enumerable element nullable =>
    exact ⟨.array [], .enumerable fun item hitem => absurd hitem List.not_mem_nil⟩
  | dictionary nullable _ _ _ _ =>
    exact ⟨.object [], .dictionary fun member hmember => absurd hmember List.not_mem_nil⟩
  | record _ ih =>
    obtain ⟨value, hvalue⟩ := RecordType.exists_values ih
    exact ⟨_, .record value fun p hp => (hvalue p hp).nullable p.nullable⟩

/-! ## Types that are described -/

/-- The kinds that the generator knows, and `char`, which is written as the text it is taken for. -/
def Kind.isKnown : Kind → Bool
  | .byte | .otherInteger _ _ => false
  | _ => true

variable (lower graph) in
/-- A type of known kinds, arrays and lists of elements that are not `null`, and records each of
whose properties is nullable exactly where the serializer writes another name than the schema
has. -/
inductive Faithful : PayloadType → Prop
  | simple {kind : Kind} : kind.isKnown → Faithful (.simple kind)
  | array {element : PayloadType} : Faithful element → Faithful (.array element false)
  | list {element : PayloadType} : Faithful element → Faithful (.list element false)
  | record {id : Nat} :
    (∀ p ∈ (graph id).properties, p.nullable ↔ toCamelCase lower p.name ≠ p.name) →
      (∀ p ∈ (graph id).properties, p.nullable = false → Faithful p.type) → Faithful (.record id)

variable (lower graph) in
/-- The schema of the type accepts what every value of it is written as. -/
def Described (type : PayloadType) : Prop :=
  ∀ fuel schema, getPropertySchema lower graph fuel type = some schema →
    ∀ value, Serialized lower graph type false value → schema.Accepts value

theorem getPropertySchema_unique {fuel more : Nat} {other : Schema}
    (h : getPropertySchema lower graph fuel type = some schema)
    (hother : getPropertySchema lower graph more type = some other) : schema = other := by
  have hmax := getPropertySchema_mono (Nat.le_max_left fuel more) h
  rw [getPropertySchema_mono (Nat.le_max_right fuel more) hother] at hmax
  exact (Option.some.inj hmax).symm

/-- The schema of a type is the only one there is to look at. -/
theorem described_iff {fuel : Nat} (h : getPropertySchema lower graph fuel type = some schema) :
    Described lower graph type ↔
      ∀ value, Serialized lower graph type false value → schema.Accepts value := by
  constructor
  · intro hdescribed
    exact hdescribed fuel schema h
  · intro haccepts more other hother
    rw [← getPropertySchema_unique h hother]
    exact haccepts

theorem Kind.schema_accepts_iff (kind : Kind) :
    (∀ value, kind.Writes value → kind.schema.Accepts value) ↔ kind.isKnown := by
  have hinteger : ∀ n : Int, ((n : Rat)).den = 1 := fun n => rfl
  cases kind with
  | string | guid | dateTime | dateTimeOffset | timeSpan | char =>
    refine iff_of_true ?_ rfl
    rintro value ⟨text, rfl⟩
    exact trivial
  | bool =>
    refine iff_of_true ?_ rfl
    rintro value ⟨b, rfl⟩
    exact trivial
  | int | long =>
    refine iff_of_true ?_ rfl
    rintro value ⟨n, -, -, rfl⟩
    exact hinteger n
  | decimal | double | float =>
    refine iff_of_true ?_ rfl
    rintro value ⟨q, rfl⟩
    exact trivial
  | byte =>
    exact iff_of_false (fun h => h _ ⟨0, by decide, by decide, rfl⟩) Bool.false_ne_true
  | otherInteger least more =>
    exact iff_of_false (fun h => h _ ⟨least, Int.le_refl _, by omega, rfl⟩) Bool.false_ne_true

/-- All arrays of elements are accepted where all elements are and none is `null`. -/
theorem items_accepted_iff {element : PayloadType} {nullable : Bool} {items : Schema} :
    (∀ values, (∀ value ∈ values, Serialized lower graph element nullable value) →
      (Schema.array items).Accepts (.array values)) ↔
      nullable = false ∧ ∀ value, Serialized lower graph element false value →
        items.Accepts value := by
  constructor
  · intro h
    have helement : ∀ value, Serialized lower graph element nullable value →
        items.Accepts value := by
      intro value hvalue
      have haccepts := h [value] fun other hother => by
        rw [List.mem_singleton.mp hother]
        exact hvalue
      rw [Schema.Accepts] at haccepts
      exact haccepts value List.mem_cons_self
    refine ⟨?_, fun value hvalue => helement value (hvalue.nullable nullable)⟩
    cases nullable with
    | false => rfl
    | true => exact absurd (helement .null .null) items.not_accepts_null
  · rintro ⟨rfl, h⟩ values hvalues
    rw [Schema.Accepts]
    exact fun value hvalue => h value (hvalues value hvalue)

/-! ## Records -/

/-- The schema of a record has one member for each property. -/
theorem generateSchema_record {record : RecordType lower} {schemaOf : PayloadType → Option Schema}
    {schemas : Property → Schema}
    (hschemas : ∀ p ∈ record.properties, schemaOf p.type = some (schemas p)) :
    generateSchema lower schemaOf record.properties =
      some (.object (record.properties.map fun p => (toCamelCase lower p.name, schemas p))
        (required lower record.properties)) := by
  refine generateSchema_eq_some_iff.mpr
    ⟨record.properties.map fun p => (toCamelCase lower p.name, schemas p), ?_, ?_⟩
  · rw [List.forall₂_map_right_iff]
    exact List.forall₂_same.mpr fun p hp => ⟨rfl, hschemas p hp⟩
  · have hnodup := record.camelNames_nodup
    rw [foldl_setMember]
    · rw [List.nil_append]
    · rw [List.nil_append, List.map_map]
      exact hnodup

variable {record : RecordType lower} {schemas : Property → Schema} {value : String → Instance}

/-- A property of the written object is that of the schema where both have one name. -/
theorem lookup_camelName {p : Property} {v : Instance} (hp : p ∈ record.properties) :
    ((record.properties.map (·.name)).map fun name => (name, value name)).lookup
        (toCamelCase lower p.name) = some v ↔
      toCamelCase lower p.name = p.name ∧ v = value p.name := by
  rw [lookup_map_eq_some]
  constructor
  · rintro ⟨hname, rfl⟩
    obtain ⟨q, hq, hsame⟩ := List.mem_map.mp hname
    have heq := RecordType.eq_of_name hp hq hsame
    rw [heq] at hsame
    exact ⟨hsame.symm, congrArg value hsame.symm⟩
  · rintro ⟨hsame, rfl⟩
    rw [hsame]
    exact ⟨List.mem_map.mpr ⟨p, hp, rfl⟩, rfl⟩

/-- What is required is there where each property that is not nullable has its camel-cased name. -/
theorem required_iff :
    (∀ name ∈ required lower record.properties,
      name ∈ ((record.properties.map (·.name)).map fun name => (name, value name)).map Prod.fst) ↔
      ∀ p ∈ record.properties, p.nullable = false → toCamelCase lower p.name = p.name := by
  have hnames : ((record.properties.map (·.name)).map fun name => (name, value name)).map Prod.fst =
      record.properties.map (·.name) := by
    rw [List.map_map]
    exact List.map_id _
  rw [hnames]
  constructor
  · intro h p hp hnullable
    have hin : toCamelCase lower p.name ∈ required lower record.properties :=
      List.mem_map.mpr ⟨p, List.mem_filter.mpr ⟨hp, by rw [hnullable]; rfl⟩, rfl⟩
    obtain ⟨q, hq, hsame⟩ := List.mem_map.mp (h _ hin)
    rw [RecordType.eq_of_name hp hq hsame] at hsame
    exact hsame.symm
  · intro h name hname
    obtain ⟨p, hp, rfl⟩ := List.mem_map.mp hname
    obtain ⟨hmem, hnullable⟩ := List.mem_filter.mp hp
    rw [Bool.not_eq_true'] at hnullable
    rw [h p hmem hnullable]
    exact List.mem_map.mpr ⟨p, hmem, rfl⟩

/-- A written object is accepted where the required names are there and each property with its own
name in the schema is accepted. -/
theorem object_accepted_iff :
    (Schema.object (record.properties.map fun p => (toCamelCase lower p.name, schemas p))
        (required lower record.properties)).Accepts
        (.object ((record.properties.map (·.name)).map fun name => (name, value name))) ↔
      (∀ p ∈ record.properties, p.nullable = false → toCamelCase lower p.name = p.name) ∧
        ∀ p ∈ record.properties, toCamelCase lower p.name = p.name →
          (schemas p).Accepts (value p.name) := by
  rw [Schema.Accepts, required_iff, acceptsMembers_iff]
  refine and_congr_right fun _ => ?_
  constructor
  · intro h p hp hname
    exact h (toCamelCase lower p.name, schemas p) (List.mem_map.mpr ⟨p, hp, rfl⟩) (value p.name)
      ((lookup_camelName hp).mpr ⟨hname, rfl⟩)
  · intro h member hmember v hv
    obtain ⟨p, hp, rfl⟩ := List.mem_map.mp hmember
    obtain ⟨hname, rfl⟩ := (lookup_camelName hp).mp hv
    exact h p hp hname

/-- All values of a record are accepted exactly where each property is nullable or has its name in
the schema, and not both, and what is not nullable is accepted. -/
theorem record_accepted_iff {id : Nat}
    (hinhabited : ∀ p ∈ (graph id).properties, ∃ v, Serialized lower graph p.type false v) :
    (∀ v, Serialized lower graph (.record id) false v →
      (Schema.object ((graph id).properties.map fun p => (toCamelCase lower p.name, schemas p))
        (required lower (graph id).properties)).Accepts v) ↔
      (∀ p ∈ (graph id).properties, p.nullable ↔ toCamelCase lower p.name ≠ p.name) ∧
        ∀ p ∈ (graph id).properties, p.nullable = false →
          ∀ v, Serialized lower graph p.type false v → (schemas p).Accepts v := by
  constructor
  · intro h
    obtain ⟨value, hvalue⟩ := RecordType.exists_values hinhabited
    have hslot : ∀ p ∈ (graph id).properties,
        Serialized lower graph p.type p.nullable (value p.name) :=
      fun p hp => (hvalue p hp).nullable p.nullable
    -- any instance of one property stands in some value of the record
    have hproperty : ∀ p ∈ (graph id).properties, toCamelCase lower p.name = p.name →
        ∀ v, Serialized lower graph p.type p.nullable v → (schemas p).Accepts v := by
      intro p hp hname v hv
      have haccepts := h _ (.record (fun name => if name = p.name then v else value name)
        fun q hq => by
          by_cases hsame : q.name = p.name
          · rw [if_pos hsame, RecordType.name_inj hq hp hsame]
            exact hv
          · rw [if_neg hsame]
            exact hslot q hq)
      have hhere := (object_accepted_iff.mp haccepts).2 p hp hname
      rw [if_pos rfl] at hhere
      exact hhere
    have hrequired := (object_accepted_iff.mp (h _ (.record value hslot))).1
    refine ⟨fun p hp => ⟨fun hnullable hname => ?_, fun hname => ?_⟩,
      fun p hp hnullable v hv => ?_⟩
    · have hnull := hproperty p hp hname .null (by rw [hnullable]; exact .null)
      exact (schemas p).not_accepts_null hnull
    · cases hnullable : p.nullable with
      | true => rfl
      | false => exact absurd (hrequired p hp hnullable) hname
    · exact hproperty p hp (hrequired p hp hnullable) v (hv.nullable p.nullable)
  · rintro ⟨hnames, haccepts⟩ v hv
    cases hv with
    | record value hvalue =>
      have hnonnull : ∀ p ∈ (graph id).properties, toCamelCase lower p.name = p.name →
          p.nullable = false := by
        intro p hp hname
        rw [Bool.eq_false_iff]
        exact fun hnullable => (hnames p hp).mp hnullable hname
      refine object_accepted_iff.mpr ⟨fun p hp hnullable => ?_, fun p hp hname => ?_⟩
      · by_contra hname
        have hnullable' := (hnames p hp).mpr hname
        rw [hnullable] at hnullable'
        exact Bool.false_ne_true hnullable'
      · have hnullable := hnonnull p hp hname
        refine haccepts p hp hnullable _ ?_
        rw [← hnullable]
        exact hvalue p hp

/-! ## Which schemas are right -/

/-- Of the types whose paths end exactly the faithful ones are described. -/
theorem described_iff_faithful (h : Ends lower graph type) :
    Described lower graph type ↔ Faithful lower graph type := by
  induction h with
  | simple kind =>
    have hschema : getPropertySchema lower graph 1 (.simple kind) = some kind.schema := rfl
    rw [described_iff hschema]
    constructor
    · intro h
      exact .simple (kind.schema_accepts_iff.mp fun value hvalue => h value (.simple hvalue))
    · rintro (hknown | _ | _ | _) value hvalue
      cases hvalue with
      | simple hwrites => exact kind.schema_accepts_iff.mpr hknown value hwrites
  | enum =>
    have hschema : getPropertySchema lower graph 1 .enum = some (.object [] []) := rfl
    rw [described_iff hschema]
    refine iff_of_false (fun h => ?_) (fun h => by cases h)
    have haccepts := h _ (.enum 0)
    simp only [Schema.Accepts] at haccepts
  | @array element nullable hends ih =>
    obtain ⟨fuel, items, hitems⟩ := getPropertySchema_of_ends hends
    have hschema : getPropertySchema lower graph (fuel + 1) (.array element nullable) =
        some (.array items) := Option.map_eq_some_iff.mpr ⟨items, hitems, rfl⟩
    rw [described_iff hschema]
    constructor
    · intro h
      have hbytes : ¬(element = .simple .byte ∧ nullable = false) := by
        rintro ⟨rfl, rfl⟩
        have haccepts := h _ (.bytes "")
        simp only [Schema.Accepts] at haccepts
      obtain ⟨rfl, helement⟩ :=
        items_accepted_iff.mp fun values hvalues => h _ (.array hbytes hvalues)
      exact .array (ih.mp ((described_iff hitems).mpr helement))
    · rintro (_ | hfaithful | _ | _) value hvalue
      cases hvalue with
      | bytes text =>
        rcases hfaithful with hknown | _ | _ | _
        exact absurd hknown Bool.false_ne_true
      | array _ hvalues =>
        exact items_accepted_iff.mpr
          ⟨rfl, (described_iff hitems).mp (ih.mpr hfaithful)⟩ _ hvalues
  | @list element nullable hends ih =>
    obtain ⟨fuel, items, hitems⟩ := getPropertySchema_of_ends hends
    have hschema : getPropertySchema lower graph (fuel + 1) (.list element nullable) =
        some (.array items) := Option.map_eq_some_iff.mpr ⟨items, hitems, rfl⟩
    rw [described_iff hschema]
    constructor
    · intro h
      obtain ⟨rfl, helement⟩ := items_accepted_iff.mp fun values hvalues => h _ (.list hvalues)
      exact .list (ih.mp ((described_iff hitems).mpr helement))
    · rintro (_ | _ | hfaithful | _) value hvalue
      cases hvalue with
      | list hvalues =>
        exact items_accepted_iff.mpr
          ⟨rfl, (described_iff hitems).mp (ih.mpr hfaithful)⟩ _ hvalues
  | enumerable element nullable =>
    have hschema : getPropertySchema lower graph 1 (.enumerable element nullable) =
        some (.string none) := rfl
    rw [described_iff hschema]
    refine iff_of_false (fun h => ?_) (fun h => by cases h)
    have haccepts := h (.array [])
      (.enumerable fun value hvalue => absurd hvalue List.not_mem_nil)
    simp only [Schema.Accepts] at haccepts
  | dictionary nullable hkey hvalue _ _ =>
    obtain ⟨fuel, schema, hschema⟩ := getPropertySchema_of_ends (hkey.dictionary nullable hvalue)
    rw [described_iff hschema]
    refine iff_of_false (fun h => ?_) (fun h => by cases h)
    have haccepts := h (.object [])
      (.dictionary fun member hmember => absurd hmember List.not_mem_nil)
    -- the schema is one of an array of pairs
    cases fuel with
    | zero => cases hschema
    | succ fuel =>
      obtain ⟨pairs, -, rfl⟩ := Option.map_eq_some_iff.mp hschema
      simp only [Schema.Accepts] at haccepts
  | @record id hends ih =>
    obtain ⟨fuel, hfuel⟩ := exists_fuel (graph id).properties
      fun p hp => getPropertySchema_of_ends (hends p hp)
    have hschemas : ∀ p ∈ (graph id).properties, getPropertySchema lower graph fuel p.type =
        some ((getPropertySchema lower graph fuel p.type).getD (.string none)) := by
      intro p hp
      obtain ⟨s, hs⟩ := hfuel p hp
      rw [hs]
      rfl
    have hschema : getPropertySchema lower graph (fuel + 1) (.record id) = _ :=
      generateSchema_record hschemas
    rw [described_iff hschema, record_accepted_iff fun p hp => (hends p hp).exists_serialized]
    constructor
    · rintro ⟨hnames, haccepts⟩
      exact .record hnames fun p hp hnullable =>
        (ih p hp).mp ((described_iff (hschemas p hp)).mpr (haccepts p hp hnullable))
    · rintro (_ | _ | _ | ⟨hnames, hfaithful⟩)
      exact ⟨hnames, fun p hp hnullable =>
        (described_iff (hschemas p hp)).mp ((ih p hp).mpr (hfaithful p hp hnullable))⟩

/-- `GenerateSchema` ends with a schema that accepts every value of the payload type exactly where
all paths from the type end and it is faithful. -/
theorem generateSchema_describes_iff (graph : TypeGraph lower) (id : Nat) :
    (∃ fuel schema, generateSchema lower (getPropertySchema lower graph fuel)
        (graph id).properties = some schema ∧
      ∀ value, Serialized lower graph (.record id) false value → schema.Accepts value) ↔
      Ends lower graph (.record id) ∧ Faithful lower graph (.record id) := by
  constructor
  · rintro ⟨fuel, schema, hschema, haccepts⟩
    have hrecord : getPropertySchema lower graph (fuel + 1) (.record id) = some schema := hschema
    have hends := ends_of_getPropertySchema hrecord
    exact ⟨hends, (described_iff_faithful hends).mp ((described_iff hrecord).mpr haccepts)⟩
  · rintro ⟨hends, hfaithful⟩
    obtain ⟨fuel, schema, hschema⟩ := getPropertySchema_of_ends hends
    cases fuel with
    | zero => cases hschema
    | succ fuel =>
      exact ⟨fuel, schema, hschema,
        (described_iff hschema).mp ((described_iff_faithful hends).mpr hfaithful)⟩

/-- The lower case of ASCII letters. -/
def asciiLowerCase : LowerCase where
  toLowerInvariant := Char.toLower
  idempotent c := by
    unfold Char.toLower
    grind

/-- A class with one property. -/
def classOf (p : Property) : RecordType asciiLowerCase where
  declared := [p]
  inherited := []
  camelNames_nodup := List.nodup_singleton _

/-- A class that refers to itself, one with an enumeration, and one with a name in upper case. -/
def payloads : TypeGraph asciiLowerCase
  | 0 => classOf ⟨"next", .record 0, true⟩
  | 1 => classOf ⟨"status", .enum, false⟩
  | _ => classOf ⟨"Id", .simple .guid, false⟩

/-- No schema is generated for the first class, and those of the others do not accept what is
written. -/
theorem payloads_not_described :
    (∀ fuel, generateSchema asciiLowerCase (getPropertySchema asciiLowerCase payloads fuel)
      (payloads 0).properties = none) ∧
    (∃ fuel schema value, generateSchema asciiLowerCase
        (getPropertySchema asciiLowerCase payloads fuel) (payloads 1).properties = some schema ∧
      Serialized asciiLowerCase payloads (.record 1) false value ∧ ¬schema.Accepts value) ∧
    ∃ fuel schema value, generateSchema asciiLowerCase
        (getPropertySchema asciiLowerCase payloads fuel) (payloads 2).properties = some schema ∧
      Serialized asciiLowerCase payloads (.record 2) false value ∧ ¬schema.Accepts value := by
  refine ⟨fun fuel => ?_, ?_, ?_⟩
  · have hcycle : ¬Ends asciiLowerCase payloads (.record 0) :=
      not_ends_of_cycle (.single (.property (p := ⟨"next", .record 0, true⟩) List.mem_cons_self))
    rw [Option.eq_none_iff_forall_ne_some]
    intro schema hschema
    have hrecord : getPropertySchema asciiLowerCase payloads (fuel + 1) (.record 0) =
        some schema := hschema
    exact hcycle (ends_of_getPropertySchema hrecord)
  · refine ⟨1, .object [("status", .object [] [])] ["status"], .object [("status", .number 0)],
      rfl, .record (fun _ => .number 0) ?_, ?_⟩
    · intro p hp
      rw [List.mem_singleton.mp hp]
      exact .enum 0
    · rw [Schema.Accepts, acceptsMembers_iff]
      intro h
      have haccepts := h.2 _ List.mem_cons_self (.number 0) rfl
      simp only [Schema.Accepts] at haccepts
  · refine ⟨1, .object [("id", .string (some "uuid"))] ["id"], .object [("Id", .string "")],
      rfl, .record (fun _ => .string "") ?_, ?_⟩
    · intro p hp
      rw [List.mem_singleton.mp hp]
      exact .simple ⟨"", rfl⟩
    · rw [Schema.Accepts]
      intro h
      exact absurd (h.1 "id" List.mem_cons_self) (by decide +kernel)

end Wallow.Shared.JsonSchemaGenerator
