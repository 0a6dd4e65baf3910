import SandboxPool.Container.Call
import SandboxPool.Http

/-!
# Answers of the Docker daemon

* `succeeded` reads the status of an answer: what is not found, or the daemon's own words for what
  went wrong.
* An action that finds the container in the state it asks for has succeeded, except for a removal.
-/

namespace SandboxPool.Docker

/-- Reads the daemon's words for what went wrong. -/
def decodeMessage : Json.Decoder String := fun room t => do
  let m ← Json.record ["message"] room t
  m.required 0 Json.string

/-- Passes if the answer is a success. What was asked for is named if there is no such thing. -/
def succeeded (name : String) (r : Http.Response) : Except DaemonError Unit :=
  if r.succeeded then .ok ()
  else if r.status = 404 then .error (.notFound name)
  else .error (.api r.status ((Json.decodeBytes decodeMessage r.body).getD r.text))

def malformed : DaemonError := .json "the answer is malformed"

/-- Reads the identity of a new container; there may be warnings. -/
def decodeCreated : Json.Decoder String := fun room t => do
  let m ← Json.record ["Id", "Warnings"] room t
  let id ← m.required 0 Json.string
  let _ ← m.defaulted 1 (Json.nullable (Json.list Json.string)) none
  return id

def pinged (r : Http.Response) : Except DaemonError Unit := succeeded "daemon" r

/-- The answer to a request for a new container. What is not found then is its image. -/
def created (spec : ContainerSpec) (r : Http.Response) : Except DaemonError String :=
  if r.status = 404 then .error (.api 404 ("image not found: " ++ spec.image))
  else match succeeded (spec.name.getD spec.image) r with
    | .error e => .error e
    | .ok () =>
      match Json.decodeBytes decodeCreated r.body with
      | some id => .ok id
      | none => .error malformed

def acted (action : Action) (id : String) (r : Http.Response) : Except DaemonError Unit :=
  match action with
  | .remove _ => succeeded id r
  | _ => if r.status = 304 then .ok () else succeeded id r

def listed (r : Http.Response) : Except DaemonError (List ContainerSummary) :=
  match succeeded "containers" r with
  | .error e => .error e
  | .ok () =>
    match Json.decodeBytes (Json.list ContainerSummary.decode) r.body with
    | some cs => .ok cs
    | none => .error malformed

/-- What is said when nothing answers at a socket. -/
def unreachable (socket : String) : DaemonError :=
  .connection ("cannot reach docker daemon at " ++ socket)

end SandboxPool.Docker
