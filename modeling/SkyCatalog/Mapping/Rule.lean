import SkyCatalog.Datum.Family
import SkyCatalog.Mapping.Filter

/-!
# Mapping rules

A rule gives the columns that its filter accepts to a parameter of an object. An
object of a row is named by its family and a key, so that a row may hold several
objects of one family. Constants give the same value to a parameter in every row.
-/

namespace SkyCatalog

/-- The name of an object within every row. -/
structure ObjectKey where
  family : Family
  key : String
deriving DecidableEq, Repr

instance : Ord ObjectKey := ⟨compareLex (compareOn (·.family)) (compareOn (·.key))⟩

instance : Std.TransOrd ObjectKey :=
  inferInstanceAs (Std.TransCmp (compareLex (compareOn ObjectKey.family) (compareOn (·.key))))

instance : Std.LawfulEqOrd ObjectKey where
  compare_self {_} := Std.ReflCmp.compare_self
  eq_of_compare {a b} h := by
    have hboth := compareLex_eq_eq.mp h
    cases a
    cases b
    have hfamily := Std.LawfulEqOrd.eq_of_compare hboth.1
    have hkey := Std.LawfulEqOrd.eq_of_compare hboth.2
    simp only at hfamily hkey
    rw [hfamily, hkey]

/-- A parameter of an object. -/
structure Slot where
  object : ObjectKey
  parameter : String
deriving DecidableEq, Repr

instance : Ord Slot := ⟨compareLex (compareOn (·.object)) (compareOn (·.parameter))⟩

instance : Std.TransOrd Slot :=
  inferInstanceAs (Std.TransCmp (compareLex (compareOn Slot.object) (compareOn (·.parameter))))

instance : Std.LawfulEqOrd Slot where
  compare_self {_} := Std.ReflCmp.compare_self
  eq_of_compare {a b} h := by
    have hboth := compareLex_eq_eq.mp h
    cases a
    cases b
    have hobject := Std.LawfulEqOrd.eq_of_compare hboth.1
    have hparameter := Std.LawfulEqOrd.eq_of_compare hboth.2
    simp only at hobject hparameter
    rw [hobject, hparameter]

/-- A rule: the columns that the filter accepts may feed the slot. -/
structure Rule where
  slot : Slot
  filter : ColumnFilter
  priority : Int

/-- A rule whose filter is still in its written form. -/
structure WrittenRule where
  slot : Slot
  tests : Keyed String String
  priority : Int

/-- Constant parameters of an object. -/
structure Constants where
  object : ObjectKey
  values : Keyed String Json

namespace WrittenRule

/-- Understand the filter of a rule. -/
def toRule (r : WrittenRule) : Except ConfigurationError Rule :=
  (ColumnFilter.ofMap r.tests).map fun filter => ⟨r.slot, filter, r.priority⟩

/-- Read a rule from JSON; the key and the priority may be absent. -/
def ofWritten? (value : Written) : Option WrittenRule := do
  let fields ← Written.fields? ["catalog", "parameter", "key", "filters", "priority"] value
  let family ← Written.required? fields "catalog" Family.ofWritten?
  let parameter ← Written.required? fields "parameter" Written.toText?
  let key ← Written.optional? fields "key" "" Written.toText?
  let tests ← Written.required? fields "filters" (Written.toKeyed? Written.toText?)
  let priority ← Written.optional? fields "priority" 0 Written.toInt32?
  return ⟨⟨⟨family, key⟩, parameter⟩, tests, priority⟩

end WrittenRule

namespace Constants

/-- The JSON form of constants. -/
def toJson (c : Constants) : Json :=
  .object [("catalog", .text c.object.family.text), ("key", .text c.object.key),
    ("params", .object c.values.entries)]

/-- Read constants from JSON; the key may be absent. -/
def ofWritten? (value : Written) : Option Constants := do
  let fields ← Written.fields? ["catalog", "key", "params"] value
  let family ← Written.required? fields "catalog" Family.ofWritten?
  let key ← Written.optional? fields "key" "" Written.toText?
  let values ← Written.required? fields "params" (Written.toKeyed? Written.toAny?)
  return ⟨⟨family, key⟩, values⟩

end Constants

end SkyCatalog
