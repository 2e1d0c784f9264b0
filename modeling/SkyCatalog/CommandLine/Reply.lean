import SkyCatalog.CommandLine.Commands

/-!
# Replies of the program

A reply is the text on the two output streams and the exit code: 0 if the program did
what it was asked for, 1 if a command failed, 2 if the arguments were misused. A wrong
search expression is shown with a marker under the place.
-/

namespace SkyCatalog.CommandLine

/-- What the program answers. -/
structure Reply where
  code : Nat
  out : String
  err : String
deriving DecidableEq, Repr

/-! ## Help -/

/-- An entry of a list in a help text. -/
structure HelpEntry where
  entry : String
  meaning : String

/-- A list of entries with their meanings in one column. -/
def helpList (title : String) (entries : List HelpEntry) : String :=
  let width := (entries.map fun e => e.entry.length).foldl max 0
  let line (e : HelpEntry) : String :=
    "  " ++ e.entry ++ String.ofList (List.replicate (width - e.entry.length + 2) ' ') ++
      e.meaning ++ "\n"
  title ++ ":\n" ++ String.join (entries.map line)

/-- The option that asks for help. -/
def helpOption : HelpEntry := ⟨"-h, --help", "Print help"⟩

/-- The option that chooses what is logged. -/
def logFilterOption : HelpEntry :=
  ⟨"    --log-filter <LOG_FILTER>", "Tracing filter directives, overriding RUST_LOG"⟩

/-- What `help` is for. -/
def helpPurpose : String := "Print this message or the help of the given subcommand(s)"

/-- The help text of a topic. -/
def helpText : Topic → String
  | .program =>
      "Homogenize and cross-identify astronomical catalog uploads\n\n" ++
        "Usage: curator [OPTIONS] <COMMAND>\n\n" ++
        helpList "Commands" [
          ⟨"run", "Run a curation pass over a JSON fixture"⟩,
          ⟨"query", "Parse a search expression"⟩,
          ⟨"help", helpPurpose⟩] ++ "\n" ++
        helpList "Options" [logFilterOption, helpOption, ⟨"-V, --version", "Print version"⟩]
  | .run =>
      "Run a curation pass over a JSON fixture\n\n" ++
        "Usage: curator run [OPTIONS] --fixture <FIXTURE>\n\n" ++
        helpList "Options" [
          ⟨"    --fixture <FIXTURE>",
            "Fixture with the table, rows, rules and reference catalog"⟩,
          logFilterOption,
          ⟨"    --config <CONFIG>", "Curation configuration (JSON)"⟩,
          ⟨"    --strict", "Fail on invalid rows instead of skipping them"⟩,
          ⟨"    --start-after <START_AFTER>", "Resume after this record id"⟩,
          ⟨"    --end-at <END_AT>", "Stop after this record id (inclusive)"⟩,
          helpOption]
  | .query =>
      "Parse a search expression\n\n" ++
        "Usage: curator query [OPTIONS] <EXPRESSION>\n\n" ++
        helpList "Arguments" [⟨"<EXPRESSION>", "Expression such as `name:M33 and pgc:5818`"⟩] ++
        "\n" ++
        helpList "Options" [
          logFilterOption,
          ⟨"    --postfix", "Print the postfix token stream instead of the tree"⟩,
          ⟨"    --fixture <FIXTURE>", "Evaluate against the reference objects of a fixture"⟩,
          helpOption]
  | .help =>
      helpPurpose ++ "\n\n" ++ "Usage: curator help [COMMAND]...\n\n" ++
        helpList "Arguments" [⟨"[COMMAND]...", "Print help for the subcommand(s)"⟩] ++ "\n" ++
        helpList "Options" [logFilterOption]

/-- The text for misused arguments. -/
def usageText : String :=
  "error: the arguments are not understood\n\nUsage: curator [OPTIONS] <COMMAND>\n\n" ++
    "For more information, try '--help'.\n"

/-! ## Replies -/

/-- The reply to a command that did what it was asked for. -/
def Reply.success (out : String) : Reply := ⟨0, out, ""⟩

/-- The reply to a command that failed. -/
def Reply.failure (expression : String) : CommandError → Reply
  | .expression e => ⟨1, "", e.diagnostic.render expression⟩
  | _ => ⟨1, "", ""⟩

/-- What a command writes. -/
def Command.output (documents : Documents) (now : Time.Instant) :
    Command → Except CommandError String
  | .run submission options =>
      (runSubmission documents now submission options).map fun report => report.toJson.pretty
  | .query expression .tree => treeText expression
  | .query expression .postfixOrder => postfixText expression
  | .query expression (.selection submission) =>
      (selectFrom documents expression submission).map fun selected =>
        (Json.array (selected.map selectedToJson)).pretty

/-- The search expression of a command, if it has one. -/
def Command.expression : Command → String
  | .run .. => ""
  | .query expression _ => expression

/-- The reply to a request. -/
def Request.reply (documents : Documents) (now : Time.Instant) : Request → Reply
  | .command c =>
      match c.output documents now with
      | .ok out => .success (out ++ "\n")
      | .error e => .failure c.expression e
  | .help topic => .success (helpText topic)
  | .version => .success "curator 0.1.0\n"

/-- The reply to arguments. -/
def reply (documents : Documents) (now : Time.Instant) (arguments : List String) : Reply :=
  match read? arguments with
  | some request => request.reply documents now
  | none => ⟨2, "", usageText⟩

/-- The documents that a request reads. -/
def Request.names : Request → List String
  | .command (.run submission options) => submission :: options.config.toList
  | .command (.query _ (.selection submission)) => [submission]
  | _ => []

end SkyCatalog.CommandLine
