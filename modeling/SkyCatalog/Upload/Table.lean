import SkyCatalog.Json.Decode

/-!
# Uploaded tables

An upload is a table of described columns and its rows. A row has an identifier and
the cells that it holds under the names of columns; a cell is any JSON value.
-/

namespace SkyCatalog

/-- How the cells of a column are stored. -/
inductive CellType where
  | text
  | integer
  | real
  | boolean
deriving DecidableEq, Repr

namespace CellType

/-- Every cell type. -/
def all : List CellType := [.text, .integer, .real, .boolean]

/-- The name of a cell type. -/
def word : CellType → String
  | .text => "text"
  | .integer => "integer"
  | .real => "real"
  | .boolean => "boolean"

/-- The cell type of a name. -/
def read? (s : String) : Option CellType :=
  all.find? (·.word == s)

end CellType

/-- The description of a column. -/
structure Column where
  name : String
  cellType : CellType
  unit : Option String
  /-- The unified content descriptor, which says what the column is about. -/
  ucd : Option String
  description : Option String
  isPrimaryKey : Bool
deriving DecidableEq, Repr

/-- An uploaded table. -/
structure Table where
  id : Int
  name : String
  columns : List Column
deriving DecidableEq, Repr

/-- A row of an upload. -/
structure Row where
  id : String
  cells : Keyed String Json

namespace Column

/-- The JSON form of a column. -/
def toJson (c : Column) : Json :=
  .object [("name", .text c.name), ("data_type", .text c.cellType.word),
    ("unit", .textOrNull c.unit), ("ucd", .textOrNull c.ucd),
    ("description", .textOrNull c.description), ("is_primary_key", .bool c.isPrimaryKey)]

/-- Read a column from JSON; all but the name may be absent. -/
def ofWritten? (value : Written) : Option Column := do
  let fields ←
    Written.fields? ["name", "data_type", "unit", "ucd", "description", "is_primary_key"] value
  let name ← Written.required? fields "name" Written.toText?
  let cellType ← Written.optional? fields "data_type" .text (Written.toWord? CellType.read?)
  let unit ← Written.optional? fields "unit" none (Written.nullable? Written.toText?)
  let ucd ← Written.optional? fields "ucd" none (Written.nullable? Written.toText?)
  let description ←
    Written.optional? fields "description" none (Written.nullable? Written.toText?)
  let isPrimaryKey ← Written.optional? fields "is_primary_key" false Written.toBool?
  return ⟨name, cellType, unit, ucd, description, isPrimaryKey⟩

end Column

namespace Table

/-- The JSON form of a table. -/
def toJson (t : Table) : Json :=
  .object [("table_id", .int t.id), ("table_name", .text t.name),
    ("columns", .array (t.columns.map Column.toJson))]

/-- Read a table from JSON. -/
def ofWritten? (value : Written) : Option Table := do
  let fields ← Written.fields? ["table_id", "table_name", "columns"] value
  let id ← Written.required? fields "table_id" Written.toInt64?
  let name ← Written.required? fields "table_name" Written.toText?
  let columns ← Written.required? fields "columns" (Written.toList? Column.ofWritten?)
  return ⟨id, name, columns⟩

end Table

namespace Row

/-- The JSON form of a row. -/
def toJson (r : Row) : Json :=
  .object [("record_id", .text r.id), ("values", .object r.cells.entries)]

/-- Read a row from JSON. -/
def ofWritten? (value : Written) : Option Row := do
  let fields ← Written.fields? ["record_id", "values"] value
  let id ← Written.required? fields "record_id" Written.toText?
  let cells ← Written.required? fields "values" (Written.toKeyed? Written.toAny?)
  return ⟨id, cells⟩

end Row

end SkyCatalog
