import SandboxPool.Container.Call
import SandboxPool.Http
import SandboxPool.Json.Printer
import SandboxPool.Text.Percent

/-!
# Requests to the Docker daemon

Every call to the daemon is one request. A container is named in the path as it stands; the name
of a new container and the filters of a list are encoded as in a form.
-/

namespace SandboxPool.Docker

/-- The version of the interface, in front of every path. -/
def version : String := "/v1.43"

/-- The seconds that a container has to stop by itself. -/
def stopGrace : Nat := 5

def flag (b : Bool) : String := if b then "true" else "false"

def actionPath (action : Action) (id : String) : Http.Method × String :=
  match action with
  | .start => (.post, "/containers/" ++ id ++ "/start")
  | .pause => (.post, "/containers/" ++ id ++ "/pause")
  | .unpause => (.post, "/containers/" ++ id ++ "/unpause")
  | .stop => (.post, "/containers/" ++ id ++ "/stop?t=" ++ toString stopGrace)
  | .remove force => (.delete, "/containers/" ++ id ++ "?force=" ++ flag force ++ "&v=true")

def createPath : Option String → String
  | some name => "/containers/create?name=" ++ Text.formEncode name
  | none => "/containers/create"

def portKey (b : PortBinding) : String := toString b.containerPort.toNat ++ "/tcp"

/-- The host port that a port is published on, reachable from this host only. -/
def hostBinding (b : PortBinding) : Json.Value :=
  .array [.object [("HostIp", .string "127.0.0.1"), ("HostPort", .string (toString b.hostPort.toNat))]]

/-- The body of a request for a new container. -/
def createBody (s : ContainerSpec) : Json.Value :=
  let exposed := match s.port with
    | some b => [(portKey b, Json.Value.object [])]
    | none => []
  let bindings := match s.port with
    | some b => [(portKey b, hostBinding b)]
    | none => []
  let command := match s.command with
    | some c => [("Cmd", Json.Value.array (c.map .string))]
    | none => []
  .object ([("Image", .string s.image)] ++ command
    ++ [("Env", .array (s.env.map .string)),
      ("Labels", .object (s.labels.map fun l => (l.1, .string l.2))),
      ("ExposedPorts", .object exposed),
      ("HostConfig", .object [("PortBindings", .object bindings)])])

def filters (f : ContainerFilter) : Json.Value :=
  .object (if f.selectors.isEmpty then [] else [("label", .array (f.selectors.map .string))])

def listPath (f : ContainerFilter) : String :=
  "/containers/json?all=" ++ flag f.all ++ "&filters=" ++ Text.formEncode (filters f).compact

/-- A request to the daemon at a socket, if its address can be written. The address names the
socket by two digits for each of its bytes. -/
def request? (socket : String) (method : Http.Method) (path : String)
    (body : Option Json.Value) : Option Http.Request :=
  let full := version ++ path
  if Http.Target.maxLength < 9 + 2 * socket.utf8ByteSize + full.utf8ByteSize then none
  else (Http.Target.ofPath full).map fun target => ⟨method, target, body⟩

/-- The request that asks whether the daemon is there. -/
def pingRequest? (socket : String) : Option Http.Request := request? socket .get "/_ping" none

/-- The request of a call. Health is not the daemon's business. -/
def callRequest? (socket : String) : Call → Option Http.Request
  | .create spec => request? socket .post (createPath spec.name) (some (createBody spec))
  | .act action id => request? socket (actionPath action id).1 (actionPath action id).2 none
  | .list f => request? socket .get (listPath f) none
  | .health .. => none

end SandboxPool.Docker
