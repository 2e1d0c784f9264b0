import SkyCatalog.Json.Writer

/-!
# Why a configuration is refused

A configuration names column filters, and assembles trees of parts from their types
and arguments. It is refused as a whole, before anything is processed.
-/

namespace SkyCatalog

/-- What is wrong with an argument of a part. -/
inductive ArgumentDefect where
  | notAPart (found : Json)
  | notAValue
  | notANumber (found : Json)
  | notACount (found : Json)
  | notATruthValue
  | negative
  | scoreOutside
  | thresholdOutside
  | refused (reason : String)

/-- The wording of a defect. -/
def ArgumentDefect.message : ArgumentDefect → String
  | .notAPart found => "expected a nested plugin configuration, got " ++ found.compact
  | .notAValue => "expected a value, got a plugin configuration"
  | .notANumber found => "expected a number, got " ++ found.compact
  | .notACount found => "expected a non-negative integer, got " ++ found.compact
  | .notATruthValue => "expected true or false"
  | .negative => "must be a non-negative number"
  | .scoreOutside => "score must lie in [0, 1]"
  | .thresholdOutside => "must lie in [0, 1]"
  | .refused reason => reason

/-- The cause for which a configuration is refused. -/
inductive ConfigurationError where
  | unknownFilter (key : String)
  | unknownType (kind name : String)
  | missingType
  | notAnObject (found : Json)
  | missingArgument (part argument : String)
  | invalidArgument (part argument : String) (defect : ArgumentDefect)
  | unexpectedArgument (part argument : String)

/-- The wording of the error. -/
def ConfigurationError.message : ConfigurationError → String
  | .unknownFilter key => "unknown column filter '" ++ key ++ "'"
  | .unknownType kind name => "unknown " ++ kind ++ " type '" ++ name ++ "'"
  | .missingType => "plugin configuration is missing a 'type' field"
  | .notAnObject found => "plugin configuration must be an object, got " ++ found.compact
  | .missingArgument part argument =>
      part ++ ": missing required argument '" ++ argument ++ "'"
  | .invalidArgument part argument defect =>
      part ++ ": invalid argument '" ++ argument ++ "': " ++ defect.message
  | .unexpectedArgument part argument =>
      part ++ ": unexpected argument '" ++ argument ++ "'"

end SkyCatalog
