/-!
# Requests on the command line

The arguments of the program name a command and its options. An option with a value
takes it from the next argument or after an equals sign; an argument that begins with
a dash is no value. Every option may be given once. What follows a double dash are
positional arguments.

`read?` understands the arguments as a request; it gives none where they are misused.
-/

namespace SkyCatalog.CommandLine

/-- What a pass over a submission is asked to do. -/
structure RunOptions where
  config : Option String
  strict : Bool
  startAfter : Option String
  endAt : Option String
deriving DecidableEq, Repr

/-- What is shown of a search expression. -/
inductive Presentation where
  | tree
  | postfixOrder
  /-- The objects that it selects from a submission. -/
  | selection (submission : String)
deriving DecidableEq, Repr

/-- What the program does. -/
inductive Command where
  | run (submission : String) (options : RunOptions)
  | query (expression : String) (shown : Presentation)
deriving DecidableEq, Repr

/-- What help is asked for. -/
inductive Topic where
  | program
  | run
  | query
  | help
deriving DecidableEq, Repr

/-- What the program is asked for. -/
inductive Request where
  | command (c : Command)
  | help (topic : Topic)
  | version
deriving DecidableEq, Repr

/-! ## Options -/

/-- The arguments that a command knows. -/
structure ArgumentNames where
  /-- The options without a value. -/
  switches : List String
  /-- The options whose value is any text. -/
  texts : List String
  /-- The options whose value names a file; the name may not be empty. -/
  files : List String
  /-- The number of positional arguments. -/
  positionals : Nat

/-- The arguments of a command, taken apart. -/
structure Parts where
  switches : List String
  values : List (String × String)
  positional : List String
deriving DecidableEq, Repr

namespace Parts

/-- No arguments. -/
def empty : Parts := ⟨[], [], []⟩

/-- Add an option without a value, once. -/
def addSwitch? (p : Parts) (name : String) : Option Parts :=
  if p.switches.contains name then none else some { p with switches := name :: p.switches }

/-- Add an option with its value, once. -/
def addValue? (p : Parts) (names : ArgumentNames) (name value : String) : Option Parts :=
  if p.values.any (·.1 == name) then none
  else if names.texts.contains name || (names.files.contains name && !value.isEmpty) then
    some { p with values := (name, value) :: p.values }
  else none

/-- Add positional arguments, as many as there may be. -/
def addPositional? (p : Parts) (names : ArgumentNames) (arguments : List String) :
    Option Parts :=
  if (p.positional ++ arguments).length ≤ names.positionals then
    some { p with positional := p.positional ++ arguments }
  else none

/-- The value of an option. -/
def value? (p : Parts) (name : String) : Option String :=
  (p.values.find? (·.1 == name)).map (·.2)

end Parts

/-- The form of an argument. -/
inductive Form where
  | positional
  /-- Two dashes alone. -/
  | divider
  /-- Two dashes and a name, with what stands after an equals sign. -/
  | long (name : String) (attached : Option String)
  /-- One dash and the characters after it. -/
  | short (letters : List Char)
deriving DecidableEq, Repr

/-- The form of an argument. A dash alone is positional. -/
def Form.of (argument : String) : Form :=
  match argument.toList with
  | ['-', '-'] => .divider
  | '-' :: '-' :: rest =>
      let name := String.ofList (rest.takeWhile (· ≠ '='))
      match rest.dropWhile (· ≠ '=') with
      | [] => .long name none
      | _ :: value => .long name (some (String.ofList value))
  | '-' :: c :: rest => .short (c :: rest)
  | _ => .positional

/-- Can an argument be the value of the option before it? -/
def isValue (argument : String) : Bool :=
  Form.of argument = .positional

/-- How the scan of arguments ends. -/
inductive Scan where
  | done (p : Parts)
  | help
deriving DecidableEq, Repr

/-- Take the arguments of a command apart. A request for help ends the scan at once,
whatever follows. -/
def scan? (names : ArgumentNames) (p : Parts) : List String → Option Scan
  | [] => some (.done p)
  | argument :: rest =>
      match Form.of argument with
      | .positional => (p.addPositional? names [argument]).bind fun p => scan? names p rest
      | .divider => (p.addPositional? names rest).map .done
      | .short letters => if letters.head? = some 'h' then some .help else none
      | .long name (some value) =>
          (p.addValue? names name value).bind fun p => scan? names p rest
      | .long name none =>
          if name = "help" then some .help
          else if names.switches.contains name then
            (p.addSwitch? name).bind fun p => scan? names p rest
          else
            match rest with
            | [] => none
            | value :: rest =>
                if isValue value then
                  (p.addValue? names name value).bind fun p => scan? names p rest
                else none

/-! ## Commands -/

/-- The option that chooses what is logged; every command takes it. -/
def logFilter : String := "log-filter"

/-- The arguments of `run`. -/
def runNames : ArgumentNames where
  switches := ["strict"]
  texts := ["start-after", "end-at", logFilter]
  files := ["fixture", "config"]
  positionals := 0

/-- The arguments of `query`. -/
def queryNames : ArgumentNames where
  switches := ["postfix"]
  texts := [logFilter]
  files := ["fixture"]
  positionals := 1

/-- The request that the arguments of `run` make; the submission must be named. -/
def Parts.toRun? (p : Parts) : Option Command := do
  let submission ← p.value? "fixture"
  let options : RunOptions :=
    { config := p.value? "config"
      strict := p.switches.contains "strict"
      startAfter := p.value? "start-after"
      endAt := p.value? "end-at" }
  return .run submission options

/-- The request that the arguments of `query` make. A selection is not shown in postfix
order. -/
def Parts.toQuery? (p : Parts) : Option Command := do
  let expression ← p.positional.head?
  match p.switches.contains "postfix", p.value? "fixture" with
  | false, none => return .query expression .tree
  | true, none => return .query expression .postfixOrder
  | false, some submission => return .query expression (.selection submission)
  | true, some _ => none

/-- Understand the arguments of a command. -/
def readCommand? (names : ArgumentNames) (topic : Topic) (command? : Parts → Option Command)
    (arguments : List String) : Option Request :=
  match scan? names .empty arguments with
  | some .help => some (.help topic)
  | some (.done p) => (command? p).map .command
  | none => none

/-- Understand the arguments of `help`. -/
def readHelp? : List String → Option Request
  | [] => some (.help .program)
  | ["run"] => some (.help .run)
  | ["query"] => some (.help .query)
  | ["help"] => some (.help .help)
  | _ => none

/-- Understand arguments, the options of the program itself first. -/
def readFrom? (filterGiven : Bool) : List String → Option Request
  | [] => none
  | argument :: rest =>
      match Form.of argument with
      | .positional =>
          match argument with
          | "run" => readCommand? runNames .run Parts.toRun? rest
          | "query" => readCommand? queryNames .query Parts.toQuery? rest
          | "help" => readHelp? rest
          | _ => none
      | .divider => none
      | .short letters =>
          match letters.head? with
          | some 'h' => some (.help .program)
          | some 'V' => some .version
          | _ => none
      | .long "help" none => some (.help .program)
      | .long "version" none => some .version
      | .long name attached =>
          if name ≠ logFilter || filterGiven then none
          else
            match attached, rest with
            | some _, rest => readFrom? true rest
            | none, value :: rest => if isValue value then readFrom? true rest else none
            | none, [] => none

/-- Understand the arguments of the program. -/
def read? (arguments : List String) : Option Request :=
  readFrom? false arguments

end SkyCatalog.CommandLine
