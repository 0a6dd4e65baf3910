import SandboxPool.Json.Decode
import SandboxPool.Text.Blank

/-!
# HTTP messages

* `Request` and `Response` are what goes over a connection.
* `Target.valid` says which targets can be sent; a fragment is never sent (`Target.ofPath`).
-/

namespace SandboxPool.Http

/-- What a request wants of its target. -/
inductive Method where
  | get
  | post
  | delete
  deriving Repr, DecidableEq, Inhabited

def Method.name : Method → String
  | get => "GET"
  | post => "POST"
  | delete => "DELETE"

/-- A request. A body is JSON. -/
structure Request where
  method : Method
  target : String
  body : Option Json.Value := none
  deriving Repr, BEq, Inhabited

def Request.contentType (r : Request) : Option String := r.body.map fun _ => "application/json"

structure Response where
  status : Nat
  body : List UInt8
  deriving Repr, DecidableEq, Inhabited

def Response.succeeded (r : Response) : Bool := 200 ≤ r.status && r.status < 300

/-- The body for people: broken bytes are replaced, and blanks at either end left out. -/
def Response.text (r : Response) : String := Text.trim (Text.decodeLossy r.body)

/-- A response arrives: one whose status announces no body has none. -/
def Response.arrived (r : Response) : Response :=
  if r.status = 204 || r.status = 304 then { r with body := [] } else r

namespace Target

/-- The character may stand in a path. -/
def inPath (c : Char) : Bool :=
  let n := c.toNat
  n == 0x21 || n == 0x22 || (0x24 ≤ n && n ≤ 0x3B) || n == 0x3D || (0x40 ≤ n && n ≤ 0x5F)
    || (0x61 ≤ n && n ≤ 0x7E)

/-- The character may stand behind the first question mark. -/
def inQuery (c : Char) : Bool :=
  let n := c.toNat
  n == 0x21 || (0x24 ≤ n && n ≤ 0x3B) || n == 0x3D || (0x3F ≤ n && n ≤ 0x7E)

/-- The longest address that can be sent, in bytes. -/
def maxLength : Nat := 65534

/-- The part before the first number sign. -/
def withoutFragment (path : String) : List Char := path.toList.takeWhile (· != '#')

/-- The target of a path, if every character may stand where it does. -/
def ofPath (path : String) : Option String :=
  let cs := withoutFragment path
  if (cs.takeWhile (· != '?')).all inPath && ((cs.dropWhile (· != '?')).drop 1).all inQuery then
    some (String.ofList cs)
  else none

end Target

end SandboxPool.Http
