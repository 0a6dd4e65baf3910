import SandboxPool.Cli.Settings

/-!
# Arguments of the command line

The arguments name a command. Options stand in front of it or behind it; each is given at most once
on either side, and the one behind the command counts.

* `Word.of` says what a single argument looks like.
* `parse` reads all arguments, or says why no command is carried out (`Stop`).
-/

namespace SandboxPool.Cli

/-- The names of the commands. -/
inductive Verb where
  | run
  | cleanup
  | status
  | check
  deriving Repr, DecidableEq, Inhabited

namespace Verb

def all : List Verb := [run, cleanup, status, check]

def name : Verb → String
  | run => "run"
  | cleanup => "cleanup"
  | status => "status"
  | check => "check"

def ofName? (s : String) : Option Verb := all.find? (·.name == s)

theorem ofName?_name (v : Verb) : ofName? v.name = some v := by cases v <;> rfl

end Verb

/-- An option. -/
inductive Key where
  | image
  | maxSandboxes
  | parallelism
  | socket
  | logLevel
  | inputs
  | events
  | prewarm
  deriving Repr, DecidableEq, Inhabited

namespace Key

/-- The options that belong to every command, and those of a run. -/
def general : List Key := [image, maxSandboxes, parallelism, socket, logLevel]

def forRun : List Key := [inputs, events, prewarm]

def name : Key → String
  | image => "image"
  | maxSandboxes => "max-sandboxes"
  | parallelism => "parallelism"
  | socket => "docker-socket"
  | logLevel => "log-level"
  | inputs => "inputs"
  | events => "events"
  | prewarm => "prewarm"

/-- The options that may stand behind a command, or in front of it. -/
def allowed : Option Verb → List Key
  | some .run => general ++ forRun
  | _ => general

/-- The option of a name, if it may stand there. -/
def ofName? (level : Option Verb) (s : String) : Option Key := (allowed level).find? (·.name == s)

end Key

/-- What the arguments on one side of the command say. -/
structure Options where
  image : Option String := none
  maxSandboxes : Option Nat := none
  parallelism : Option Parallelism := none
  socket : Option String := none
  logLevel : Option String := none
  inputs : Option String := none
  prewarm : Option Nat := none
  events : Bool := false
  plan : Option String := none
  deriving Repr, DecidableEq, Inhabited

namespace Options

/-- Puts a value in its place, unless the value is unsound or the place is taken. -/
def fill {α : Type} (slot value : Option α) : Option (Option α) :=
  match slot, value with
  | none, some v => some (some v)
  | _, _ => none

/-- A path, which is never empty. -/
def path? (s : String) : Option String := if s == "" then none else some s

def number? (s : String) : Option Nat := Text.parseUnsigned? Text.max64 s

/-- The options with one more. -/
def put? (o : Options) : Key → String → Option Options
  | .image, s => (fill o.image (some s)).map fun v => { o with image := v }
  | .maxSandboxes, s => (fill o.maxSandboxes (number? s)).map fun v => { o with maxSandboxes := v }
  | .parallelism, s =>
    (fill o.parallelism (Parallelism.parse? s)).map fun v => { o with parallelism := v }
  | .socket, s => (fill o.socket (path? s)).map fun v => { o with socket := v }
  | .logLevel, s => (fill o.logLevel (some s)).map fun v => { o with logLevel := v }
  | .inputs, s => (fill o.inputs (path? s)).map fun v => { o with inputs := v }
  | .prewarm, s => (fill o.prewarm (number? s)).map fun v => { o with prewarm := v }
  | .events, _ => if o.events then none else some { o with events := true }

def putPlan? (o : Options) (s : String) : Option Options :=
  (fill o.plan (path? s)).map fun v => { o with plan := v }

/-- The options behind a command, completed by those in front of it. -/
def completed (o front : Options) : Options :=
  { o with
    image := o.image.or front.image
    maxSandboxes := o.maxSandboxes.or front.maxSandboxes
    parallelism := o.parallelism.or front.parallelism
    socket := o.socket.or front.socket
    logLevel := o.logLevel.or front.logLevel }

end Options

/-- What is to be done. -/
inductive Command where
  | run (plan : String) (inputs : Option String) (events : Bool)
  | cleanup
  | status
  | check
  deriving Repr, DecidableEq, Inhabited

structure Invocation where
  command : Command
  options : Options
  deriving Repr, DecidableEq, Inhabited

/-- Why no command is carried out. -/
inductive Stop where
  /-- Somebody asks what the program or a command does. -/
  | help (level : Option Verb)
  | version
  | usage
  deriving Repr, DecidableEq, Inhabited

/-- The look of an argument. -/
inductive Word where
  /-- Nothing behind it is an option. -/
  | separator
  /-- An option, with the value behind its equals sign. -/
  | long (name : String) (value : Option String)
  /-- An option of one letter. -/
  | short (c : Char)
  | plain (s : String)
  deriving Repr, DecidableEq, Inhabited

def Word.of (s : String) : Word :=
  match s.toList with
  | ['-', '-'] => separator
  | '-' :: '-' :: cs =>
    long (String.ofList (cs.takeWhile (· != '=')))
      (match cs.dropWhile (· != '=') with
        | _ :: value => some (String.ofList value)
        | [] => none)
  | '-' :: c :: _ => short c
  | _ => plain s

/-- Takes in the option that was read last. -/
def settle (o : Options) : Option (Key × String) → Except Stop Options
  | none => .ok o
  | some (key, value) =>
    match o.put? key value with
    | some o => .ok o
    | none => .error .usage

/-- The command of a name with its options, which for a run include the plan. -/
def Invocation.of (verb : Verb) (o : Options) : Except Stop Invocation :=
  match verb, o.plan with
  | .run, some plan => .ok ⟨.run plan o.inputs o.events, o⟩
  | .run, none => .error .usage
  | .cleanup, _ => .ok ⟨.cleanup, o⟩
  | .status, _ => .ok ⟨.status, o⟩
  | .check, _ => .ok ⟨.check, o⟩

/-- The words behind a separator. Only a run takes one, its plan. -/
def parseRest (level : Option Verb) (o : Options) (words : List String) : Except Stop Options :=
  match level, words with
  | _, [] => .ok o
  | some .run, [s] =>
    match o.putPlan? s with
    | some o => .ok o
    | none => .error .usage
  | _, _ => .error .usage

/-- What the words behind `help` ask for. -/
def helpFor : List String → Stop
  | [] => .help none
  | [s] => if s == "help" then .help none else ((Verb.ofName? s).map (.help ∘ some)).getD .usage
  | _ => .usage

/-- Reads the arguments behind a command. The option read last is settled when the next one comes. -/
def parseOptions (verb : Verb) (o : Options) (last : Option (Key × String)) :
    List String → Except Stop Options
  | [] => settle o last
  | word :: rest =>
    match Word.of word with
    | .separator => do parseRest (some verb) (← settle o last) rest
    | .short c => do
      let _ ← settle o last
      throw (if c == 'h' then .help (some verb) else .usage)
    | .plain s => do
      match verb, (← settle o last).putPlan? s with
      | .run, some o => parseOptions verb o none rest
      | _, _ => throw .usage
    | .long name value =>
      match Key.ofName? (some verb) name, value with
      | none, none => do
        let _ ← settle o last
        throw (if name == "help" then .help (some verb) else .usage)
      | none, some _ => throw .usage
      | some .events, some _ => throw .usage
      | some .events, none => do parseOptions verb (← settle o last) (some (.events, "")) rest
      | some key, some v => do parseOptions verb (← settle o last) (some (key, v)) rest
      | some key, none =>
        match rest with
        | [] => throw .usage
        | v :: rest =>
          match Word.of v with
          | .plain v => do parseOptions verb (← settle o last) (some (key, v)) rest
          | _ => throw .usage

/-- Reads the arguments in front of the command, and what follows. -/
def parseFront (o : Options) (last : Option (Key × String)) :
    List String → Except Stop Invocation
  | [] => .error .usage
  | word :: rest =>
    match Word.of word with
    | .separator => .error .usage
    | .short c => do
      let _ ← settle o last
      throw (if c == 'h' then .help none else if c == 'V' then .version else .usage)
    | .plain s =>
      match Verb.ofName? s with
      | none => throw (if s == "help" then helpFor rest else .usage)
      | some verb => do
        let options ← parseOptions verb {} none rest
        let invocation ← Invocation.of verb options
        return { invocation with options := options.completed (← settle o last) }
    | .long name value =>
      match Key.ofName? none name, value with
      | none, none => do
        let _ ← settle o last
        throw (if name == "help" then .help none
          else if name == "version" then .version else .usage)
      | none, some _ => throw .usage
      | some key, some v => do parseFront (← settle o last) (some (key, v)) rest
      | some key, none =>
        match rest with
        | [] => throw .usage
        | v :: rest =>
          match Word.of v with
          | .plain v => do parseFront (← settle o last) (some (key, v)) rest
          | _ => throw .usage

/-- Reads all arguments. -/
def parse (args : List String) : Except Stop Invocation := parseFront {} none args

def Settings.override (s : Settings) (o : Options) : Settings :=
  { s with
    image := o.image.getD s.image
    maxSandboxes := o.maxSandboxes.getD s.maxSandboxes
    parallelism := o.parallelism.getD s.parallelism
    socket := o.socket.getD s.socket
    prewarm := o.prewarm.getD s.prewarm }

end SandboxPool.Cli
