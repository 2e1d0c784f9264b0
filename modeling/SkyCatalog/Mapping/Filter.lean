import SkyCatalog.Assembly.Error
import SkyCatalog.Upload.Table

/-!
# Column filters

A filter says which columns of which tables a rule speaks of. Filters are written as
a flat map from the kind of test to the text that it compares with; all of the tests
must pass, so that the empty map accepts every column.
-/

namespace SkyCatalog

/-- A test of a column and the table that it belongs to. -/
inductive ColumnFilter where
  /-- The column carries this content descriptor. -/
  | ucd (tag : String)
  /-- The column has this name. -/
  | columnName (name : String)
  /-- The table has this name. -/
  | tableName (name : String)
  /-- Every one of the filters accepts the column. -/
  | all (filters : List ColumnFilter)

namespace ColumnFilter

mutual

/-- Does the filter accept a column of a table? -/
def accepts (t : Table) (c : Column) : ColumnFilter → Bool
  | .ucd tag => c.ucd == some tag
  | .columnName name => c.name == name
  | .tableName name => t.name == name
  | .all filters => allAccept t c filters

/-- Does every filter of a list accept a column of a table? -/
def allAccept (t : Table) (c : Column) : List ColumnFilter → Bool
  | [] => true
  | filter :: rest => accepts t c filter && allAccept t c rest

end

/-- The test that an entry of a written filter stands for. -/
def ofEntry (key value : String) : Except ConfigurationError ColumnFilter :=
  match key with
  | "ucd" => .ok (.ucd value)
  | "column_name" => .ok (.columnName value)
  | "table_name" => .ok (.tableName value)
  | _ => .error (.unknownFilter key)

/-- The filter that a map from kinds of tests to texts stands for. -/
def ofMap (tests : Keyed String String) : Except ConfigurationError ColumnFilter :=
  (tests.entries.mapM fun e => ofEntry e.1 e.2).map .all

end ColumnFilter

end SkyCatalog
