import SandboxPool.Json.Decode
import SandboxPool.Text.Utf8

/-!
# Containers

* `ContainerSpec` is what a container is created from. The sandboxes of a pool carry the owner
  label, by which they are found again.
* `ContainerFilter` selects containers by their labels, `ContainerSummary` is one of those found.
-/

namespace SandboxPool

/-- The label that every sandbox carries. -/
def ownerKey : String := "io.skiff.managed"

def ownerValue : String := "true"

/-- The command of a sandbox whose work is brought in from outside. -/
def idleCommand : List String := ["sleep", "infinity"]

/-- A port of a container and the host port that it is published on. -/
structure PortBinding where
  containerPort : UInt16
  hostPort : UInt16
  deriving Repr, DecidableEq, Inhabited

/-- Labels in ascending order of their names. -/
abbrev Labels := List (String × String)

def Labels.get? (labels : Labels) (key : String) : Option String :=
  (List.find? (·.1 == key) labels).map (·.2)

/-- What a container is created from. -/
structure ContainerSpec where
  image : String
  name : Option String := none
  /-- The command in place of the image's own. -/
  command : Option (List String) := none
  env : List String := []
  labels : Labels := []
  port : Option PortBinding := none
  deriving Repr, DecidableEq, Inhabited

namespace ContainerSpec

def label (s : ContainerSpec) (key value : String) : ContainerSpec :=
  { s with labels := Json.putText key value s.labels }

def addEnv (s : ContainerSpec) (entry : String) : ContainerSpec := { s with env := s.env ++ [entry] }

def publish (s : ContainerSpec) (containerPort hostPort : UInt16) : ContainerSpec :=
  { s with port := some ⟨containerPort, hostPort⟩ }

/-- Runs the command that does nothing. -/
def idle (s : ContainerSpec) : ContainerSpec := { s with command := some idleCommand }

def owned (s : ContainerSpec) : ContainerSpec := s.label ownerKey ownerValue

def isOwned (s : ContainerSpec) : Bool := s.labels.get? ownerKey == some ownerValue

end ContainerSpec

/-- Which containers are looked for. -/
structure ContainerFilter where
  /-- Each selector is the name of a label, or a name, an equals sign and a value. -/
  selectors : List String := []
  /-- Stopped containers count too. -/
  all : Bool := false
  deriving Repr, DecidableEq, Inhabited

namespace ContainerFilter

/-- Every sandbox of any pool. -/
def owned : ContainerFilter := ⟨[ownerKey ++ "=" ++ ownerValue], true⟩

def label (f : ContainerFilter) (key value : String) : ContainerFilter :=
  { f with selectors := f.selectors ++ [key ++ "=" ++ value] }

/-- The labels satisfy one selector. The name ends at the first equals sign. -/
def selects (labels : Labels) (selector : String) : Bool :=
  let cs := selector.toList
  match cs.dropWhile (· != '=') with
  | _ :: value =>
    labels.get? (String.ofList (cs.takeWhile (· != '='))) == some (String.ofList value)
  | [] => (labels.get? selector).isSome

def accepts (f : ContainerFilter) (labels : Labels) : Bool := f.selectors.all (selects labels)

end ContainerFilter

/-- A container as the daemon lists it. -/
structure ContainerSummary where
  id : String
  names : List String
  image : String
  state : String
  labels : Labels
  deriving Repr, DecidableEq, Inhabited

namespace ContainerSummary

def json (c : ContainerSummary) : Json.Value :=
  .object [("Id", .string c.id), ("Names", .array (c.names.map .string)),
    ("Image", .string c.image), ("State", .string c.state),
    ("Labels", .object (c.labels.map fun l => (l.1, .string l.2)))]

/-- Reads a listed container; only its identity has to be given. -/
def decode : Json.Decoder ContainerSummary := fun room t => do
  let m ← Json.record ["Id", "Names", "Image", "State", "Labels"] room t
  return {
    id := ← m.required 0 Json.string
    names := ← m.defaulted 1 (Json.list Json.string) []
    image := ← m.defaulted 2 Json.string ""
    state := ← m.defaulted 3 Json.string ""
    labels := ← m.defaulted 4 Json.textMap [] }

end ContainerSummary

/-- The name of a container as it is shown: the first twelve bytes, or all of it where that would
cut a character. -/
def shortId (id : String) : String := (Text.bytePrefix? 12 id).getD id

end SandboxPool
