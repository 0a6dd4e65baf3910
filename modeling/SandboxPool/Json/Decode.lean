import SandboxPool.Json.Reader

/-!
# Reading records from JSON

A `Decoder` reads a tree as something of the domain, or refuses it. It is given the number of
nested arrays and objects that it may go into.

* `record` takes the members of a record from an object or from an array in the order of their
  names. An object may hold members that nobody asks for, in any shape, and repeats none that is
  asked for; an array is at most as long as the list of names.
* `Members.required`, `Members.optional` and `Members.defaulted` take one member.
* `choice` reads one of several names, bare or as the one field of an object whose value is null.
* `buffered` first takes the whole tree, so that nothing in it may be unsound.
-/

namespace SandboxPool.Json

/-- Reads a tree, going into at most a number of nested arrays and objects. -/
abbrev Decoder (α : Type) := Nat → Tree → Option α

def bool : Decoder Bool
  | _, .bool b => some b
  | _, _ => none

def string : Decoder String
  | _, .string content => content
  | _, _ => none

/-- A natural number up to a bound. -/
def natural (bound : Nat) : Decoder Nat
  | _, .number n =>
    match n.number? with
    | some (.whole (.ofNat k)) => if k ≤ bound then some k else none
    | _ => none
  | _, _ => none

def natural16 : Decoder UInt16 := fun room t => (natural Text.max16 room t).map UInt16.ofNat

def natural64 : Decoder Nat := natural Text.max64

/-- A value that is kept whole. -/
def anyValue : Decoder Value := Tree.value?

def list {α : Type} (d : Decoder α) : Decoder (List α)
  | room, .array elements => if room = 0 then none else elements.mapM (d (room - 1))
  | _, _ => none

/-- Something, or nothing for null. -/
def nullable {α : Type} (d : Decoder α) : Decoder (Option α)
  | _, .null => some none
  | room, t => (d room t).map some

/-- Gives a name a value in an association list; of several fields with one name the last one
stays. -/
def putText (name value : String) : List (String × String) → List (String × String)
  | [] => [(name, value)]
  | (n, w) :: rest =>
    if name < n then (name, value) :: (n, w) :: rest
    else if name = n then (name, value) :: rest
    else (n, w) :: putText name value rest

def textField : Option String × Tree → Option (String × String)
  | (some name, .string (some s)) => some (name, s)
  | _ => none

/-- An object whose values are texts, in ascending order of the names. -/
def textMap : Decoder (List (String × String))
  | room, .object fields =>
    if room = 0 then none
    else (fields.mapM textField).map fun pairs => pairs.foldl (fun m p => putText p.1 p.2 m) []
  | _, _ => none

/-- An object whose values are kept whole, in ascending order of the names. -/
def valueMap : Decoder (List (String × Value)) := fun room t =>
  match t with
  | .object _ => (t.value? room).bind fun
    | .object fields => some fields
    | _ => none
  | _ => none

/-- One of several names. -/
def choice {α : Type} (names : List (String × α)) : Decoder α
  | _, .string content => content.bind fun s => (names.find? (·.1 == s)).map (·.2)
  | room, .object [(name, .null)] =>
    if room = 0 then none else name.bind fun s => (names.find? (·.1 == s)).map (·.2)
  | _, _ => none

/-- Reads a tree that is sound in all its parts. -/
def buffered {α : Type} (d : Decoder α) : Decoder α := fun room t =>
  if t.sound room then d room t else none

/-! ## Records -/

/-- The members of a record in the order of their names, with how much further a reader may go
into them. `named` tells an object from an array. -/
structure Members where
  named : Bool
  room : Nat
  values : List (Option Tree)

/-- The members of one name, if every field has a legible name and at most one has this one. -/
def member? (fields : List (Option String × Tree)) (name : String) : Option (Option Tree) :=
  match fields.filter (·.1 == some name) with
  | [] => some none
  | [f] => some (some f.2)
  | _ => none

/-- The members of a record with the given names. -/
def record (names : List String) : Decoder Members
  | room, .object fields =>
    if room = 0 || fields.any (·.1.isNone) then none
    else (names.mapM (member? fields)).map fun values => ⟨true, room - 1, values⟩
  | room, .array elements =>
    if room = 0 || names.length < elements.length then none
    else some ⟨false, room - 1,
      elements.map some ++ List.replicate (names.length - elements.length) none⟩
  | _, _ => none

/-- The member at a place, if it was given. -/
def Members.at? (m : Members) (i : Nat) : Option Tree := (m.values[i]?).join

/-- A member that has to be given. -/
def Members.required {α : Type} (m : Members) (i : Nat) (d : Decoder α) : Option α :=
  (m.at? i).bind (d m.room)

/-- A member that stands for a default where it is not given. -/
def Members.defaulted {α : Type} (m : Members) (i : Nat) (d : Decoder α) (default : α) : Option α :=
  match m.at? i with
  | some t => d m.room t
  | none => some default

/-- A member that may be null. An object may also leave it out, an array may not. -/
def Members.optional {α : Type} (m : Members) (i : Nat) (d : Decoder α) : Option (Option α) :=
  match m.at? i with
  | some t => nullable d m.room t
  | none => if m.named then some none else none

def decodeText {α : Type} (d : Decoder α) (s : String) : Option α :=
  (readText? s).bind (d maxDepth)

def decodeBytes {α : Type} (d : Decoder α) (bytes : List UInt8) : Option α :=
  (readBytes? bytes).bind (d maxDepth)

end SandboxPool.Json
