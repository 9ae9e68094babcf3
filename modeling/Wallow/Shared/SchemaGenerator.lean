import Mathlib
import Wallow.Lib.JsonSchema

/-!
# The schemas of event payloads

`JsonSchemaGenerator.cs` on graphs of payload types, and what `System.Text.Json` writes for their
values by default.  The recursion of the generator has fuel here: a schema is generated where some
fuel is enough.
-/

namespace Wallow.Shared.JsonSchemaGenerator

open JsonSchema

/-! ## Types -/

/-- The types that have no parts. -/
inductive Kind
  | string
  | bool
  | int
  | long
  | decimal
  | double
  | float
  | guid
  | dateTime
  | dateTimeOffset
  | timeSpan
  | char
  | byte
  /-- Any other primitive integer, from its least value on. -/
  | otherInteger (least : Int) (more : Nat)
  deriving DecidableEq

/-- A payload type; where it has elements, whether they may be `null`. -/
inductive PayloadType
  | simple (kind : Kind)
  | enum
  | array (element : PayloadType) (nullable : Bool)
  /-- `List<T>`, and the interfaces that extend `IEnumerable<T>`. -/
  | list (element : PayloadType) (nullable : Bool)
  /-- `IEnumerable<T>` itself. -/
  | enumerable (element : PayloadType) (nullable : Bool)
  | dictionary (key value : PayloadType) (nullable : Bool)
  | record (id : Nat)
  deriving DecidableEq

structure Property where
  name : String
  type : PayloadType
  nullable : Bool
  deriving DecidableEq

/-- `char.ToLowerInvariant`. -/
structure LowerCase where
  toLowerInvariant : Char → Char
  idempotent : ∀ c, toLowerInvariant (toLowerInvariant c) = toLowerInvariant c

def toCamelCase (lower : LowerCase) (name : String) : String :=
  match name.toList with
  | [] => name
  | c :: rest => String.ofList (lower.toLowerInvariant c :: rest)

/-- The properties of a class and of its base classes, no two of which have the same name but for
the case of its first letter. -/
structure RecordType (lower : LowerCase) where
  declared : List Property
  inherited : List (List Property)
  camelNames_nodup :
    ((declared ++ inherited.flatten).map fun p => toCamelCase lower p.name).Nodup

def RecordType.properties {lower : LowerCase} (type : RecordType lower) : List Property :=
  type.declared ++ type.inherited.flatten

/-- The classes there are; a type refers to one by its number. -/
abbrev TypeGraph (lower : LowerCase) := Nat → RecordType lower

section

variable (lower : LowerCase) (graph : TypeGraph lower)

/-! ## The generator -/

def Kind.schema : Kind → Schema
  | .string => .string none
  | .bool => .boolean
  | .int => .integer none
  | .long => .integer (some "int64")
  | .decimal => .number none
  | .double => .number (some "double")
  | .float => .number (some "float")
  | .guid => .string (some "uuid")
  | .dateTime | .dateTimeOffset => .string (some "date-time")
  | .timeSpan => .string (some "duration")
  -- a primitive that is none of these is taken for a string
  | .char | .byte | .otherInteger _ _ => .string none

def required (properties : List Property) : List String :=
  (properties.filter fun p => !p.nullable).map fun p => toCamelCase lower p.name

/-- `GenerateSchema`, with the schemas of the types of the properties. -/
def generateSchema (schemaOf : PayloadType → Option Schema) (properties : List Property) :
    Option Schema := do
  let described ← properties.mapM fun p =>
    (schemaOf p.type).map fun schema => (toCamelCase lower p.name, schema)
  some (.object (described.foldl setMember []) (required lower properties))

/-- The properties of a `KeyValuePair`. -/
def keyValuePair (key value : PayloadType) (nullable : Bool) : List Property :=
  [⟨"Key", key, false⟩, ⟨"Value", value, nullable⟩]

def getPropertySchema : Nat → PayloadType → Option Schema
  | 0, _ => none
  | fuel + 1, type =>
    match type with
    | .simple kind => some kind.schema
    | .array element _ | .list element _ => (getPropertySchema fuel element).map .array
    -- a dictionary is a collection of pairs
    | .dictionary key value nullable =>
      (generateSchema lower (getPropertySchema fuel) (keyValuePair key value nullable)).map .array
    -- the interfaces of `IEnumerable<T>` do not include itself, and it is no class
    | .enumerable _ _ => some (.string none)
    -- an enumeration is a value type without properties that is no primitive
    | .enum => generateSchema lower (getPropertySchema fuel) []
    | .record id => generateSchema lower (getPropertySchema fuel) (graph id).properties

/-! ## What the serializer writes -/

/-- The instances that values of a kind are written as.  Of texts and fractions only that they are
such is said. -/
def Kind.Writes : Kind → Instance → Prop
  | .bool, value => ∃ b, value = .bool b
  | .int, value => ∃ n : Int, -2 ^ 31 ≤ n ∧ n < 2 ^ 31 ∧ value = .number n
  | .long, value => ∃ n : Int, -2 ^ 63 ≤ n ∧ n < 2 ^ 63 ∧ value = .number n
  | .decimal, value | .double, value | .float, value => ∃ q, value = .number q
  | .byte, value => ∃ n : Int, 0 ≤ n ∧ n < 256 ∧ value = .number n
  | .otherInteger least more, value =>
    ∃ n : Int, least ≤ n ∧ n ≤ least + more ∧ value = .number n
  | .string, value | .guid, value | .dateTime, value | .dateTimeOffset, value
  | .timeSpan, value | .char, value => ∃ text, value = .string text

/-- The instances that values of a type are written as: enumerations as numbers, `byte[]` as a
text, and every property under its own name. -/
inductive Serialized : PayloadType → Bool → Instance → Prop
  | null {type : PayloadType} : Serialized type true .null
  | simple {kind : Kind} {nullable : Bool} {value : Instance} :
    kind.Writes value → Serialized (.simple kind) nullable value
  | enum {nullable : Bool} (n : Int) : Serialized .enum nullable (.number n)
  | bytes {nullable : Bool} (text : String) :
    Serialized (.array (.simple .byte) false) nullable (.string text)
  | array {element : PayloadType} {nullableElement nullable : Bool} {items : List Instance} :
    ¬(element = .simple .byte ∧ nullableElement = false) →
      (∀ item ∈ items, Serialized element nullableElement item) →
        Serialized (.array element nullableElement) nullable (.array items)
  | list {element : PayloadType} {nullableElement nullable : Bool} {items : List Instance} :
    (∀ item ∈ items, Serialized element nullableElement item) →
      Serialized (.list element nullableElement) nullable (.array items)
  | enumerable {element : PayloadType} {nullableElement nullable : Bool} {items : List Instance} :
    (∀ item ∈ items, Serialized element nullableElement item) →
      Serialized (.enumerable element nullableElement) nullable (.array items)
  | dictionary {key value : PayloadType} {nullableValue nullable : Bool}
      {members : List (String × Instance)} :
    (∀ member ∈ members, Serialized value nullableValue member.2) →
      Serialized (.dictionary key value nullableValue) nullable (.object members)
  | record {id : Nat} {nullable : Bool} (value : String → Instance) :
    (∀ p ∈ (graph id).properties, Serialized p.type p.nullable (value p.name)) →
      Serialized (.record id) nullable
        (.object (((graph id).properties.map (·.name)).map fun name => (name, value name)))

/-! ## Which types the generator gets through -/

/-- Every path through properties, elements and pairs ends. -/
inductive Ends : PayloadType → Prop
  | simple (kind : Kind) : Ends (.simple kind)
  | enum : Ends .enum
  | array {element : PayloadType} (nullable : Bool) : Ends element → Ends (.array element nullable)
  | list {element : PayloadType} (nullable : Bool) : Ends element → Ends (.list element nullable)
  | enumerable (element : PayloadType) (nullable : Bool) : Ends (.enumerable element nullable)
  | dictionary {key value : PayloadType} (nullable : Bool) :
    Ends key → Ends value → Ends (.dictionary key value nullable)
  | record {id : Nat} : (∀ p ∈ (graph id).properties, Ends p.type) → Ends (.record id)

/-- The generator goes on from a type to another one. -/
inductive Follows : PayloadType → PayloadType → Prop
  | array (element : PayloadType) (nullable : Bool) : Follows (.array element nullable) element
  | list (element : PayloadType) (nullable : Bool) : Follows (.list element nullable) element
  | key (key value : PayloadType) (nullable : Bool) : Follows (.dictionary key value nullable) key
  | value (key value : PayloadType) (nullable : Bool) :
    Follows (.dictionary key value nullable) value
  | property {id : Nat} {p : Property} :
    p ∈ (graph id).properties → Follows (.record id) p.type

variable {lower graph} {schemaOf other : PayloadType → Option Schema} {properties : List Property}
  {schema : Schema} {type : PayloadType}

theorem Ends.acc (h : Ends lower graph type) :
    Acc (fun next type => Follows lower graph type next) type := by
  induction h with
  | simple | enum | enumerable => exact ⟨_, fun next hnext => nomatch hnext⟩
  | array _ _ ih => exact ⟨_, fun next hnext => by cases hnext; exact ih⟩
  | list _ _ ih => exact ⟨_, fun next hnext => by cases hnext; exact ih⟩
  | dictionary _ _ _ ihkey ihvalue =>
    refine ⟨_, fun next hnext => ?_⟩
    cases hnext with
    | key => exact ihkey
    | value => exact ihvalue
  | record _ ih =>
    refine ⟨_, fun next hnext => ?_⟩
    cases hnext with
    | property hp => exact ih _ hp

/-- The paths from a type end where none goes on for ever. -/
theorem ends_iff_acc :
    Ends lower graph type ↔ Acc (fun next type => Follows lower graph type next) type := by
  refine ⟨Ends.acc, fun h => ?_⟩
  induction h with
  | intro type _ ih =>
    cases type with
    | simple kind => exact .simple kind
    | enum => exact .enum
    | array element nullable => exact .array nullable (ih _ (.array element nullable))
    | list element nullable => exact .list nullable (ih _ (.list element nullable))
    | enumerable element nullable => exact .enumerable element nullable
    | dictionary key value nullable =>
      exact .dictionary nullable (ih _ (.key key value nullable)) (ih _ (.value key value nullable))
    | record id => exact .record fun p hp => ih _ (.property hp)

/-- A type that leads back to itself does not end. -/
theorem not_ends_of_cycle (h : Relation.TransGen (Follows lower graph) type type) :
    ¬Ends lower graph type := by
  intro hends
  have hacc := (ends_iff_acc.mp hends).transGen
  have hswap : Relation.TransGen (fun next type => Follows lower graph type next) type type :=
    Relation.transGen_swap.mpr h
  induction hacc with
  | intro x _ ih => exact ih x hswap h hends hswap

theorem mapM_eq_some_iff {α β : Type} {f : α → Option β} {as : List α} {bs : List β} :
    as.mapM f = some bs ↔ List.Forall₂ (fun a b => f a = some b) as bs := by
  induction as generalizing bs with
  | nil =>
    rw [List.mapM_nil, List.forall₂_nil_left_iff]
    exact ⟨fun h => (Option.some.inj h).symm, fun h => congrArg some h.symm⟩
  | cons a rest ih =>
    rw [List.mapM_cons, List.forall₂_cons_left_iff]
    constructor
    · intro h
      obtain ⟨b, hb, h⟩ := Option.bind_eq_some_iff.mp h
      obtain ⟨others, hothers, h⟩ := Option.bind_eq_some_iff.mp h
      exact ⟨b, others, hb, ih.mp hothers, (Option.some.inj h).symm⟩
    · rintro ⟨b, others, hb, hothers, rfl⟩
      exact Option.bind_eq_some_iff.mpr ⟨b, hb, Option.bind_eq_some_iff.mpr
        ⟨others, ih.mpr hothers, rfl⟩⟩

/-- The members of a schema come from those of the properties in turn. -/
theorem generateSchema_eq_some_iff :
    generateSchema lower schemaOf properties = some schema ↔ ∃ described,
      List.Forall₂ (fun p (member : String × Schema) => member.1 = toCamelCase lower p.name ∧
        schemaOf p.type = some member.2) properties described ∧
      schema = .object (described.foldl setMember []) (required lower properties) := by
  have hmember : ∀ (p : Property) (member : String × Schema),
      ((schemaOf p.type).map fun s => (toCamelCase lower p.name, s)) = some member ↔
        member.1 = toCamelCase lower p.name ∧ schemaOf p.type = some member.2 := by
    rintro p ⟨name, s⟩
    simp only [Option.map_eq_some_iff, Prod.mk.injEq]
    constructor
    · rintro ⟨_, hs, rfl, rfl⟩
      exact ⟨rfl, hs⟩
    · rintro ⟨rfl, hs⟩
      exact ⟨s, hs, rfl, rfl⟩
  constructor
  · intro h
    obtain ⟨described, hdescribed, h⟩ := Option.bind_eq_some_iff.mp h
    refine ⟨described, ?_, (Option.some.inj h).symm⟩
    exact (mapM_eq_some_iff.mp hdescribed).imp fun p member => (hmember p member).mp
  · rintro ⟨described, hdescribed, rfl⟩
    refine Option.bind_eq_some_iff.mpr ⟨described, mapM_eq_some_iff.mpr ?_, rfl⟩
    exact hdescribed.imp fun p member => (hmember p member).mpr

/-- More schemas for the types change no schema that is generated. -/
theorem generateSchema_mono (hmore : ∀ type s, schemaOf type = some s → other type = some s)
    (h : generateSchema lower schemaOf properties = some schema) :
    generateSchema lower other properties = some schema := by
  obtain ⟨described, hdescribed, rfl⟩ := generateSchema_eq_some_iff.mp h
  refine generateSchema_eq_some_iff.mpr ⟨described, hdescribed.imp ?_, rfl⟩
  rintro p member ⟨hname, hschema⟩
  exact ⟨hname, hmore p.type member.2 hschema⟩

theorem generateSchema_isSome_iff :
    (∃ schema, generateSchema lower schemaOf properties = some schema) ↔
      ∀ p ∈ properties, ∃ schema, schemaOf p.type = some schema := by
  constructor
  · rintro ⟨schema, h⟩ p hp
    obtain ⟨described, hdescribed, -⟩ := generateSchema_eq_some_iff.mp h
    obtain ⟨i, hi, rfl⟩ := List.mem_iff_getElem.mp hp
    exact ⟨_, (hdescribed.get hi (hdescribed.length_eq ▸ hi)).2⟩
  · intro h
    have hdescribed : ∃ described, List.Forall₂ (fun p (member : String × Schema) =>
        member.1 = toCamelCase lower p.name ∧ schemaOf p.type = some member.2)
        properties described := by
      induction properties with
      | nil => exact ⟨[], .nil⟩
      | cons p rest ih =>
        obtain ⟨s, hs⟩ := h p List.mem_cons_self
        obtain ⟨described, hrest⟩ := ih fun q hq => h q (List.mem_cons_of_mem _ hq)
        exact ⟨(toCamelCase lower p.name, s) :: described, .cons ⟨rfl, hs⟩ hrest⟩
    obtain ⟨described, hdescribed⟩ := hdescribed
    exact ⟨_, generateSchema_eq_some_iff.mpr ⟨described, hdescribed, rfl⟩⟩

/-- More fuel changes no schema that is generated. -/
theorem getPropertySchema_mono {fuel more : Nat} (hfuel : fuel ≤ more)
    (h : getPropertySchema lower graph fuel type = some schema) :
    getPropertySchema lower graph more type = some schema := by
  induction fuel generalizing more type schema with
  | zero => cases h
  | succ fuel ih =>
    obtain ⟨more, rfl⟩ : ∃ n, more = n + 1 := ⟨more - 1, by omega⟩
    have hmore : ∀ type s, getPropertySchema lower graph fuel type = some s →
        getPropertySchema lower graph more type = some s :=
      fun type s hs => ih (by omega) hs
    cases type with
    | simple kind => exact h
    | enum => exact generateSchema_mono hmore h
    | array element nullable =>
      obtain ⟨items, hitems, rfl⟩ := Option.map_eq_some_iff.mp h
      exact Option.map_eq_some_iff.mpr ⟨items, hmore _ _ hitems, rfl⟩
    | list element nullable =>
      obtain ⟨items, hitems, rfl⟩ := Option.map_eq_some_iff.mp h
      exact Option.map_eq_some_iff.mpr ⟨items, hmore _ _ hitems, rfl⟩
    | enumerable element nullable => exact h
    | dictionary key value nullable =>
      obtain ⟨pairs, hpairs, rfl⟩ := Option.map_eq_some_iff.mp h
      exact Option.map_eq_some_iff.mpr ⟨pairs, generateSchema_mono hmore hpairs, rfl⟩
    | record id => exact generateSchema_mono hmore h

theorem ends_of_getPropertySchema {fuel : Nat}
    (h : getPropertySchema lower graph fuel type = some schema) : Ends lower graph type := by
  induction fuel generalizing type schema with
  | zero => cases h
  | succ fuel ih =>
    cases type with
    | simple kind => exact .simple kind
    | enum => exact .enum
    | array element nullable =>
      obtain ⟨items, hitems, -⟩ := Option.map_eq_some_iff.mp h
      exact .array nullable (ih hitems)
    | list element nullable =>
      obtain ⟨items, hitems, -⟩ := Option.map_eq_some_iff.mp h
      exact .list nullable (ih hitems)
    | enumerable element nullable => exact .enumerable element nullable
    | dictionary key value nullable =>
      obtain ⟨pairs, hpairs, -⟩ := Option.map_eq_some_iff.mp h
      have hparts := generateSchema_isSome_iff.mp ⟨pairs, hpairs⟩
      obtain ⟨keySchema, hkey⟩ := hparts ⟨"Key", key, false⟩ List.mem_cons_self
      obtain ⟨valueSchema, hvalue⟩ := hparts ⟨"Value", value, nullable⟩
        (List.mem_cons_of_mem _ List.mem_cons_self)
      exact .dictionary nullable (ih hkey) (ih hvalue)
    | record id =>
      refine .record fun p hp => ?_
      obtain ⟨s, hs⟩ := generateSchema_isSome_iff.mp ⟨schema, h⟩ p hp
      exact ih hs

/-- Some fuel is enough for all properties where some is for each. -/
theorem exists_fuel (properties : List Property)
    (h : ∀ p ∈ properties, ∃ fuel schema, getPropertySchema lower graph fuel p.type = some schema) :
    ∃ fuel, ∀ p ∈ properties, ∃ schema,
      getPropertySchema lower graph fuel p.type = some schema := by
  induction properties with
  | nil => exact ⟨0, fun p hp => absurd hp List.not_mem_nil⟩
  | cons p rest ih =>
    obtain ⟨first, schema, hfirst⟩ := h p List.mem_cons_self
    obtain ⟨others, hothers⟩ := ih fun q hq => h q (List.mem_cons_of_mem _ hq)
    refine ⟨max first others, fun q hq => ?_⟩
    rcases List.mem_cons.mp hq with rfl | hlater
    · exact ⟨schema, getPropertySchema_mono (Nat.le_max_left _ _) hfirst⟩
    · obtain ⟨s, hs⟩ := hothers q hlater
      exact ⟨s, getPropertySchema_mono (Nat.le_max_right _ _) hs⟩

theorem getPropertySchema_of_ends (h : Ends lower graph type) :
    ∃ fuel schema, getPropertySchema lower graph fuel type = some schema := by
  induction h with
  | simple kind => exact ⟨1, kind.schema, rfl⟩
  | enum => exact ⟨1, .object [] [], rfl⟩
  | array nullable _ ih =>
    obtain ⟨fuel, items, hitems⟩ := ih
    exact ⟨fuel + 1, .array items, Option.map_eq_some_iff.mpr ⟨items, hitems, rfl⟩⟩
  | list nullable _ ih =>
    obtain ⟨fuel, items, hitems⟩ := ih
    exact ⟨fuel + 1, .array items, Option.map_eq_some_iff.mpr ⟨items, hitems, rfl⟩⟩
  | enumerable element nullable => exact ⟨1, .string none, rfl⟩
  | @dictionary key value nullable _ _ ihkey ihvalue =>
    obtain ⟨fuel, hfuel⟩ := exists_fuel (keyValuePair key value nullable) fun p hp => by
      rcases List.mem_cons.mp hp with rfl | hvalue
      · exact ihkey
      · rw [List.mem_singleton.mp hvalue]
        exact ihvalue
    obtain ⟨pairs, hpairs⟩ := generateSchema_isSome_iff.mpr hfuel
    exact ⟨fuel + 1, .array pairs, Option.map_eq_some_iff.mpr ⟨pairs, hpairs, rfl⟩⟩
  | record _ ih =>
    obtain ⟨fuel, hfuel⟩ := exists_fuel _ ih
    obtain ⟨schema, hschema⟩ := generateSchema_isSome_iff.mpr hfuel
    exact ⟨fuel + 1, schema, hschema⟩

end

end Wallow.Shared.JsonSchemaGenerator
