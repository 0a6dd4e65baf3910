/-!
# JSON values

* `Value` is a JSON value. The fields of an object are a list: records are written in the order of
  their fields.
* `Value.Canonical` says that the fields of every object are in ascending order without
  repetition. A value that a reader keeps without looking into it is canonical.
* `Number` keeps whole numbers apart from doubles, so that `1` and `1.0` differ.
-/

namespace SandboxPool.Json

/-- A number: a whole number, or the bits of a finite double. -/
inductive Number where
  | whole (i : Int)
  | double (bits : UInt64)
  deriving Repr, DecidableEq, Inhabited

/-- A JSON value. -/
inductive Value where
  | null
  | bool (b : Bool)
  | number (n : Number)
  | string (s : String)
  | array (elements : List Value)
  | object (fields : List (String × Value))
  deriving Repr, BEq, Inhabited

def Value.nat (n : Nat) : Value := .number (.whole n)

def Value.optString : Option String → Value
  | some s => .string s
  | none => .null

/-- Puts a field in its place in an ascending list, where it replaces a field of the same name. -/
def insertField (name : String) (v : Value) : List (String × Value) → List (String × Value)
  | [] => [(name, v)]
  | (n, w) :: rest =>
    if name < n then (name, v) :: (n, w) :: rest
    else if name = n then (name, v) :: rest
    else (n, w) :: insertField name v rest

/-- The fields in ascending order; of several fields with one name the last one stays. -/
def sortFields (fields : List (String × Value)) : List (String × Value) :=
  fields.foldl (fun sorted f => insertField f.1 f.2 sorted) []

def Value.field? (v : Value) (name : String) : Option Value :=
  match v with
  | .object fields => (fields.find? (·.1 == name)).map (·.2)
  | _ => none

mutual

/-- The value with the fields of every object in ascending order. -/
def Value.sort : Value → Value
  | .array elements => .array (sortAll elements)
  | .object fields => .object (sortFields (sortEach fields))
  | v => v

/-- `Value.sort` on every element. -/
def sortAll : List Value → List Value
  | [] => []
  | v :: rest => v.sort :: sortAll rest

/-- `Value.sort` on the value of every field. -/
def sortEach : List (String × Value) → List (String × Value)
  | [] => []
  | (name, v) :: rest => (name, v.sort) :: sortEach rest

end

/-- The names ascend. -/
def ascending (fields : List (String × Value)) : Prop :=
  fields.Pairwise fun a b => a.1 < b.1

mutual

/-- The fields of every object ascend. -/
def Value.Canonical : Value → Prop
  | .array elements => allCanonical elements
  | .object fields => ascending fields ∧ eachCanonical fields
  | _ => True

def allCanonical : List Value → Prop
  | [] => True
  | v :: rest => v.Canonical ∧ allCanonical rest

def eachCanonical : List (String × Value) → Prop
  | [] => True
  | (_, v) :: rest => v.Canonical ∧ eachCanonical rest

end

end SandboxPool.Json
