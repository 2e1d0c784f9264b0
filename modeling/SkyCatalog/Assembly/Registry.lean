import SkyCatalog.Assembly.Error
import SkyCatalog.Keyed

/-!
# Assembling parts from their configuration

A part is configured by an object whose field `type` names a constructor; every other
field is an argument of it. An argument that is itself an object with a `type` is
assembled first and handed on as a part, any other argument is handed on as it is.

A constructor takes the arguments that it needs one after the other. Arguments that
it leaves are refused, so that no field of a configuration is passed over.
-/

namespace SkyCatalog

/-- An argument of a constructor. -/
inductive Argument (α : Type) where
  | part (a : α)
  | value (v : Json)

/-- The arguments that a constructor has not taken yet, and the type of the part under
construction. -/
structure Arguments (α : Type) where
  part : String
  given : Keyed String (Argument α)

/-- A computation that takes arguments and may refuse them. -/
abbrev Construction (α β : Type) := StateT (Arguments α) (Except ConfigurationError) β

namespace Construction

variable {α β : Type}

/-- Refuse an argument. -/
def refuse (argument : String) (defect : ArgumentDefect) : Construction α β := do
  throw (.invalidArgument (← get).part argument defect)

/-- The type of the part under construction. -/
def partName : Construction α String := do
  return (← get).part

/-- Take an argument, if it is given. -/
def take? (argument : String) : Construction α (Option (Argument α)) := do
  let arguments ← get
  set { arguments with given := arguments.given.erase argument }
  return arguments.given.get? argument

/-- Take an argument that must be given. -/
def take (argument : String) : Construction α (Argument α) := do
  match ← take? argument with
  | some a => return a
  | none => throw (.missingArgument (← get).part argument)

/-- Take a part. -/
def part (argument : String) : Construction α α := do
  match ← take argument with
  | .part a => return a
  | .value v => refuse argument (.notAPart v)

/-- Take a plain value. -/
def value (argument : String) : Construction α Json := do
  match ← take argument with
  | .value v => return v
  | .part _ => refuse argument .notAValue

/-- Take a number. -/
def number (argument : String) : Construction α Float := do
  let v ← value argument
  match v.toFloat? with
  | some x => return x
  | none => refuse argument (.notANumber v)

/-- Take a natural number. -/
def count (argument : String) : Construction α Nat := do
  let v ← value argument
  match v.toNat? with
  | some n => return n
  | none => refuse argument (.notACount v)

/-- Take a truth value, if one is given. -/
def truthOr (argument : String) (default : Bool) : Construction α Bool := do
  match ← take? argument with
  | none => return default
  | some (.value (.bool b)) => return b
  | some _ => refuse argument .notATruthValue

end Construction

/-- The constructors of one kind of parts, by the names of their types. -/
structure Registry (α : Type) where
  kind : String
  constructors : Keyed String (Construction α α)

namespace Registry

variable {α : Type}

/-- A registry from a list of constructors; a later one replaces an earlier one of the
same name. -/
def ofList (kind : String) (constructors : List (String × Construction α α)) : Registry α :=
  ⟨kind, .ofList constructors⟩

/-- Add a constructor, replacing one of the same name. -/
def add (r : Registry α) (name : String) (constructor : Construction α α) : Registry α :=
  { r with constructors := r.constructors.put name constructor }

/-- The names of the types, in ascending order. -/
def names (r : Registry α) : List String :=
  r.constructors.keys

/-- Run a constructor on its arguments; none may be left. -/
def construct (name : String) (constructor : Construction α α)
    (given : List (String × Argument α)) : Except ConfigurationError α := do
  let (a, left) ← constructor.run ⟨name, .ofList given⟩
  match left.given.keys with
  | [] => return a
  | argument :: _ => throw (.unexpectedArgument name argument)

/-- Is a value the configuration of a part? -/
def isPart : Json → Bool
  | .object fields => (Json.lookup "type" fields).isSome
  | _ => false

mutual

/-- Assemble the part that a value configures. -/
def build (r : Registry α) : Json → Except ConfigurationError α
  | .object fields =>
      match Json.lookup "type" fields with
      | some (.text name) =>
          match r.constructors.get? name with
          | some constructor => do
              let given ← buildArguments r fields
              construct name constructor given
          | none => .error (.unknownType r.kind name)
      | _ => .error .missingType
  | other => .error (.notAnObject other)

/-- Assemble the arguments of a part, in the order they are listed in. -/
def buildArguments (r : Registry α) :
    List (String × Json) → Except ConfigurationError (List (String × Argument α))
  | [] => .ok []
  | (name, value) :: rest =>
      if name = "type" then buildArguments r rest
      else do
        let argument ← if isPart value then (build r value).map .part else .ok (.value value)
        let others ← buildArguments r rest
        return (name, argument) :: others

end

end Registry

end SkyCatalog
