/-!
# Command-line arguments

Arguments are read from left to right. A value that stands in an argument of its own
is looked at only when the next known argument arrives, or at the end; so what is
wrong with it is told after an unknown argument that follows it, and before a known
one.
-/

namespace ViewPress.CommandLine

structure Arguments where
  project : Option String := none
  publishFolder : Option String := none
  framework : Option String := none
  configuration : String := "Debug"
  deriving DecidableEq, Repr

/-- Whether it is said what to publish. -/
def Arguments.hasTarget (a : Arguments) : Bool :=
  a.publishFolder.isSome && a.framework.any (!·.isEmpty)

/-- Why there are no arguments to go on with. -/
inductive Refusal where
  | invalidValue
  | unknownArgument
  | conflict
  | tooManyValues
  | help
  | version
  deriving DecidableEq, Repr

inductive Slot where
  | project
  | publishFolder
  | framework
  | configuration
  deriving DecidableEq, Repr

/-- What the name of an option asks for. -/
inductive Request where
  | value (slot : Slot)
  | help
  | version
  deriving DecidableEq, Repr

def longOption? : String → Option Request
  | "publish-folder" => some (.value .publishFolder)
  | "framework" => some (.value .framework)
  | "configuration" => some (.value .configuration)
  | "help" => some .help
  | "version" => some .version
  | _ => none

def shortOption? : Char → Option Request
  | 'p' => some (.value .publishFolder)
  | 'f' => some (.value .framework)
  | 'c' => some (.value .configuration)
  | 'h' => some .help
  | 'V' => some .version
  | _ => none

/-- The values read so far, the slot that is being filled with its value, if that has
arrived, and whether a project was given. -/
structure Reading where
  values : List (Slot × String) := []
  pending : Option (Slot × Option String) := none
  placed : Bool := false
  deriving DecidableEq, Repr

/-- Paths may not be empty. -/
def Slot.accepts : Slot → String → Bool
  | .project, v | .publishFolder, v => !v.isEmpty
  | .framework, _ | .configuration, _ => true

namespace Reading

def enter (r : Reading) (slot : Slot) (v : String) : Except Refusal Reading :=
  if (r.values.lookup slot).isSome then .error .conflict
  else if !slot.accepts v then .error .invalidValue
  else .ok { r with values := (slot, v) :: r.values }

/-- Enters what is pending. -/
def settle (r : Reading) : Except Refusal Reading :=
  match r.pending with
  | none => .ok r
  | some (_, none) => .error .invalidValue
  | some (slot, some v) => { r with pending := none }.enter slot v

/-- An option with the value attached to it, if there is one. -/
def option (r : Reading) (request : Request) (attached : Option String) :
    Except Refusal Reading := do
  let r ← r.settle
  match request, attached with
  | .value slot, none => return { r with pending := some (slot, none) }
  | .value slot, some v => r.enter slot v
  | .help, _ => throw .help
  | .version, _ => throw .version

/-- An argument that is no option. -/
def place (r : Reading) (arg : String) : Except Refusal Reading :=
  if r.placed then .error .unknownArgument
  else do
    let r ← r.settle
    return { r with pending := some (.project, some arg), placed := true }

/-- A value of its own goes to the option that waits for one. -/
def plain (r : Reading) (arg : String) : Except Refusal Reading :=
  match r.pending with
  | some (slot, none) => .ok { r with pending := some (slot, some arg) }
  | _ => r.place arg

/-- An argument with two dashes: a name, and after an equals sign a value. -/
def long (r : Reading) (text : List Char) : Except Refusal Reading :=
  let name := String.ofList (text.takeWhile (· != '='))
  match longOption? name, text.dropWhile (· != '=') with
  | none, _ => .error .unknownArgument
  | some request, [] => r.option request none
  | some (.value slot), _ :: v => r.option (.value slot) (some (String.ofList v))
  | some _, _ :: _ => .error .tooManyValues

/-- An argument with one dash: a letter, and behind it a value, which an equals sign
may set off. -/
def short (r : Reading) (letter : Char) (text : List Char) : Except Refusal Reading :=
  match shortOption? letter, text with
  | none, _ => .error .unknownArgument
  | some request, [] => r.option request none
  | some request, '=' :: v => r.option request (some (String.ofList v))
  | some request, v => r.option request (some (String.ofList v))

def argument (r : Reading) (arg : String) : Except Refusal Reading :=
  match arg.toList with
  | '-' :: '-' :: text => r.long text
  | '-' :: letter :: text => r.short letter text
  | _ => r.plain arg

/-- After a double dash nothing is an option. -/
def readArguments (r : Reading) : List String → Except Refusal Reading
  | [] => r.settle
  | "--" :: args => do (← args.foldlM place r).settle
  | arg :: args => do (← r.argument arg).readArguments args

def arguments (r : Reading) : Arguments where
  project := r.values.lookup .project
  publishFolder := r.values.lookup .publishFolder
  framework := r.values.lookup .framework
  configuration := (r.values.lookup .configuration).getD "Debug"

end Reading

def Arguments.read (args : List String) : Except Refusal Arguments :=
  (Reading.readArguments {} args).map Reading.arguments

def versionText : String := "precompile-views 0.1.0\n"

def helpText : String :=
  "precompile server-rendered templates into a single module at publish time"
  ++ " - and look them up at runtime\n"
  ++ "\n"
  ++ "Usage: precompile-views [OPTIONS] [PROJECT]\n"
  ++ "\n"
  ++ "Arguments:\n"
  ++ "  [PROJECT]  Project folder or `project.toml` (default: current directory)\n"
  ++ "\n"
  ++ "Options:\n"
  ++ "  -p, --publish-folder <PUBLISH_FOLDER>  Publish folder of the application\n"
  ++ "  -f, --framework <FRAMEWORK>            Target framework of the publish\n"
  ++ "  -c, --configuration <CONFIGURATION>    Build configuration [default: Debug]\n"
  ++ "  -h, --help                             Print help\n"
  ++ "  -V, --version                          Print version\n"

/-- What is printed in place of a run. -/
def Refusal.message : Refusal → String
  | .help => helpText
  | .version => versionText
  | .invalidValue => "error: an option has no value, or an empty one\n"
  | .unknownArgument => "error: unexpected argument\n"
  | .conflict => "error: an option is given twice\n"
  | .tooManyValues => "error: unexpected value\n"

/-- Whether what is printed was asked for. -/
def Refusal.isAnswer : Refusal → Bool
  | .help | .version => true
  | .invalidValue | .unknownArgument | .conflict | .tooManyValues => false

end ViewPress.CommandLine
