import SandboxPool.Cli.Arguments

/-!
# Help

What the program says about itself and its commands, in columns as wide as their widest entry.
-/

namespace SandboxPool.Cli

def versionLine : String := "skiff 0.1.0"

def Verb.about : Verb → String
  | .run => "Execute a plan file and print the report as JSON"
  | .cleanup => "Remove sandboxes left behind by earlier runs"
  | .status => "List sandboxes owned by skiff"
  | .check => "Validate configuration and check the docker daemon"

def Key.about : Key → String
  | .image => "Sandbox image (overrides SKIFF_IMAGE)"
  | .maxSandboxes => "Maximum live sandboxes (overrides SKIFF_MAX_SANDBOXES)"
  | .parallelism => "multi-sandbox or single-sandbox (overrides SKIFF_PARALLELISM)"
  | .socket => "Docker daemon socket (overrides SKIFF_DOCKER_SOCKET)"
  | .logLevel => "Log level (trace, debug, info, warn, error) [default: info]"
  | .inputs => "JSON object mapping block ids to their input payloads"
  | .events => "Stream events to stdout as JSON lines"
  | .prewarm => "Sandboxes to start before the first lane (overrides SKIFF_PREWARM)"

/-- The options of a run, in the order in which they are listed. -/
def Key.listed : List Key :=
  [image, inputs, events, maxSandboxes, parallelism, prewarm, socket, logLevel]

def Key.typed (k : Key) : String :=
  match k with
  | .events => "    --events"
  | k => "    --" ++ k.name ++ " <" ++ k.name.toUpper.replace "-" "_" ++ ">"

/-- Two columns, the first as wide as its widest entry. -/
def columns (rows : List (String × String)) : String :=
  let width := (rows.map (·.1.length)).foldl max 0
  String.join (rows.map fun (a, b) =>
    "  " ++ a ++ "".pushn ' ' (width - a.length) ++ "  " ++ b ++ "\n")

def optionRows (level : Option Verb) : List (String × String) :=
  ((Key.listed.filter (Key.allowed level).contains).map fun k => (k.typed, k.about))
    ++ [("-h, --help", "Print help")]
    ++ (if level.isNone then [("-V, --version", "Print version")] else [])

def verbRows : List (String × String) :=
  Verb.all.map (fun v => (v.name, v.about))
    ++ [("help", "Print this message or the help of the given subcommand(s)")]

/-- What the program says about itself or a command. -/
def helpText : Option Verb → String
  | none =>
    "Run workflow blocks in pooled container sandboxes\n\nUsage: skiff [OPTIONS] <COMMAND>\n\n"
      ++ "Commands:\n" ++ columns verbRows ++ "\nOptions:\n" ++ columns (optionRows none)
  | some .run =>
    Verb.run.about ++ "\n\nUsage: skiff run [OPTIONS] <PLAN>\n\n"
      ++ "Arguments:\n  <PLAN>  Plan file (JSON)\n\nOptions:\n" ++ columns (optionRows (some .run))
  | some v =>
    v.about ++ "\n\nUsage: skiff " ++ v.name ++ " [OPTIONS]\n\nOptions:\n"
      ++ columns (optionRows (some v))

/-- What is said when the arguments make no sense. -/
def usageText : String :=
  "error: the arguments make no sense\n\nUsage: skiff [OPTIONS] <COMMAND>\n\n"
    ++ "For more information, try '--help'.\n"

end SandboxPool.Cli
