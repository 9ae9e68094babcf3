import Mathlib.Data.List.Basic
import Mathlib.Data.List.Nodup

/-!
# JSON Schema

The part of the language that describes texts, booleans, numbers, arrays and objects, and which
instances a schema accepts.  A format is an annotation.
-/

namespace JsonSchema

inductive Instance
  | null
  | bool (value : Bool)
  | number (value : Rat)
  | string (text : String)
  | array (items : List Instance)
  | object (members : List (String × Instance))

inductive Schema
  | string (format : Option String)
  | boolean
  | integer (format : Option String)
  | number (format : Option String)
  | array (items : Schema)
  | object (properties : List (String × Schema)) (required : List String)

mutual

/-- A number is an integer where its fraction is zero, and a property that is not there is not
looked at. -/
def Schema.Accepts : Schema → Instance → Prop
  | .string _, .string _ => True
  | .boolean, .bool _ => True
  | .integer _, .number value => value.den = 1
  | .number _, .number _ => True
  | .array schema, .array items => ∀ item ∈ items, schema.Accepts item
  | .object properties required, .object members =>
    (∀ name ∈ required, name ∈ members.map Prod.fst) ∧ AcceptsMembers properties members
  | _, _ => False

def AcceptsMembers : List (String × Schema) → List (String × Instance) → Prop
  | [], _ => True
  | (name, schema) :: rest, members =>
    (∀ value, members.lookup name = some value → schema.Accepts value) ∧
      AcceptsMembers rest members

end

theorem acceptsMembers_iff {properties : List (String × Schema)}
    {members : List (String × Instance)} :
    AcceptsMembers properties members ↔ ∀ property ∈ properties, ∀ value,
      members.lookup property.1 = some value → property.2.Accepts value := by
  induction properties with
  | nil => simp only [AcceptsMembers, List.not_mem_nil, false_implies, implies_true]
  | cons property rest ih =>
    obtain ⟨name, schema⟩ := property
    rw [AcceptsMembers, ih, List.forall_mem_cons]

/-- No schema of this part accepts `null`. -/
theorem Schema.not_accepts_null (schema : Schema) : ¬schema.Accepts .null := by
  cases schema <;> simp only [Schema.Accepts, not_false_eq_true]

/-! ## Members that are set in turn -/

section

variable {α : Type}

/-- The value of a name that is there is replaced. -/
def setMember (members : List (String × α)) (member : String × α) : List (String × α) :=
  if member.1 ∈ members.map Prod.fst then
    members.map fun other => if other.1 = member.1 then member else other
  else members ++ [member]

/-- Members of different names are set one after the other. -/
theorem foldl_setMember {before members : List (String × α)}
    (h : ((before ++ members).map Prod.fst).Nodup) :
    members.foldl setMember before = before ++ members := by
  induction members generalizing before with
  | nil => rw [List.foldl_nil, List.append_nil]
  | cons member rest ih =>
    have hnew : member.1 ∉ before.map Prod.fst := by
      intro hin
      rw [List.map_append, List.map_cons] at h
      exact List.disjoint_of_nodup_append h hin List.mem_cons_self
    have happend : before ++ member :: rest = (before ++ [member]) ++ rest := by
      rw [List.append_assoc, List.singleton_append]
    rw [List.foldl_cons, setMember, if_neg hnew, happend]
    exact ih (happend ▸ h)

/-- A value for each name: what is looked up is that of the name. -/
theorem lookup_map_eq_some {names : List String} {value : String → α} {name : String} {a : α} :
    (names.map fun other => (other, value other)).lookup name = some a ↔
      name ∈ names ∧ a = value name := by
  induction names with
  | nil => simp only [List.map_nil, List.lookup_nil, List.not_mem_nil, false_and, reduceCtorEq]
  | cons first rest ih =>
    rw [List.map_cons, List.lookup_cons, List.mem_cons]
    by_cases hname : name = first
    · subst hname
      simp only [beq_self_eq_true, Option.some.injEq, true_or, true_and, eq_comm]
    · rw [beq_eq_false_iff_ne.mpr hname]
      simp only [hname, false_or]
      exact ih

end

end JsonSchema
