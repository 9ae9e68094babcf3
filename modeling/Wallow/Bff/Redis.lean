import Wallow.Lib.Expiring
import Wallow.Bff.Session
import Mathlib.Data.String.Basic

/-!
# The `RedisLike` port

`createMemoryRedis` of `store/memory.ts`, which is also the contract `store/types.ts` states for a
real server: string entries and sets, each with an optional expiry.  The keys are those of
`ValkeySessionStore`, kept apart by their constructor; `Key.render_injective` is the reason this
loses nothing.
-/

namespace Wallow.Bff

/-- The keys of one key prefix. -/
inductive Key where
  | session (id : String)
  | refreshlock (id : String)
  | sid (sid : String)
  | sub (sub : String)
  | owner
  deriving DecidableEq

/-- The key string, as `sessionKey`, `lockKey`, `sidKey`, `subjectKey` and `ownerKey` build it. -/
def Key.render (keyPrefix : String) : Key → String
  | .session id => keyPrefix ++ ":session:" ++ id
  | .refreshlock id => keyPrefix ++ ":refreshlock:" ++ id
  | .sid s => keyPrefix ++ ":sid:" ++ s
  | .sub s => keyPrefix ++ ":sub:" ++ s
  | .owner => keyPrefix ++ ":owner"

private theorem toList_render (keyPrefix : String) (k : Key) :
    (k.render keyPrefix).toList = keyPrefix.toList ++ match k with
      | .session id => ":session:".toList ++ id.toList
      | .refreshlock id => ":refreshlock:".toList ++ id.toList
      | .sid s => ":sid:".toList ++ s.toList
      | .sub s => ":sub:".toList ++ s.toList
      | .owner => ":owner".toList := by
  cases k <;> simp [Key.render]

/-- Two keys of one prefix share a key string only if they are the same key. -/
theorem Key.render_injective (keyPrefix : String) : Function.Injective (Key.render keyPrefix) := by
  intro a b h
  have hl := congrArg String.toList h
  rw [toList_render, toList_render] at hl
  have ht := List.append_cancel_left hl
  cases a <;> cases b <;> simp_all [String.toList_inj]

/-- A string value: the JSON of a session record, or any other text (an indexed id, a lock
marker, an owner name). -/
inductive Value where
  | json (record : BffSession)
  | text (s : String)
  deriving DecidableEq

/-- `JSON.parse(raw) as BffSession`, `none` where it throws. -/
def Value.parse : Value → Option BffSession
  | .json record => some record
  | .text _ => none

structure Redis where
  entries : ExpiringMap Key Value
  sets : ExpiringMap Key (List String)

namespace Redis

def empty : Redis := ⟨.empty, .empty⟩

def expiry (now : Int) (ex : Option Int) : Option Int :=
  ex.map fun seconds => now + seconds * MS_PER_SECOND

def get (r : Redis) (now : Int) (key : Key) : Option Value :=
  r.entries.lookup now key

/-- Answers whether the reply is `"OK"`; a conditional set (`nx`) leaves a live entry alone. -/
def set (r : Redis) (now : Int) (key : Key) (value : Value) (ex : Option Int) (nx : Bool) :
    Bool × Redis :=
  if nx && (r.entries.alive now key).isSome then (false, r)
  else (true, { r with entries := r.entries.put key value (expiry now ex) })

def del (r : Redis) (key : Key) : Redis :=
  { entries := r.entries.erase key, sets := r.sets.erase key }

def smembers (r : Redis) (now : Int) (key : Key) : List String :=
  (r.sets.lookup now key).getD []

/-- Adds to the live set, or to a new one without an expiry. -/
def sadd (r : Redis) (now : Int) (key : Key) (member : String) : Redis :=
  let entry := (r.sets.alive now key).getD ⟨[], none⟩
  let members := if member ∈ entry.value then entry.value else entry.value ++ [member]
  { r with sets := r.sets.put key members entry.expiresAt }

/-- A set with no members left is deleted. -/
def srem (r : Redis) (now : Int) (key : Key) (member : String) : Redis :=
  match r.sets.alive now key with
  | none => r
  | some entry =>
    let members := entry.value.filter (· ≠ member)
    if members.isEmpty then { r with sets := r.sets.erase key }
    else { r with sets := r.sets.put key members entry.expiresAt }

def expire (r : Redis) (now : Int) (key : Key) (seconds : Int) : Redis :=
  let at_ := some (now + seconds * MS_PER_SECOND)
  { entries := match r.entries.alive now key with
      | none => r.entries
      | some entry => r.entries.put key entry.value at_
    sets := match r.sets.alive now key with
      | none => r.sets
      | some entry => r.sets.put key entry.value at_ }

end Redis

end Wallow.Bff
