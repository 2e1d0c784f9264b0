import SkyCatalog.Json.Value

/-!
# Written values

A JSON text can be well formed and still have parts that denote nothing: a number
beyond the doubles, a text with half of a surrogate pair, an object with such a name,
and an array or object that lies too deep inside others. Such a part is void. Whoever
asks for it is refused, and whoever passes it over is not disturbed by it.

`value?` is the value that is written, if no part of it is void. By `value?_ofJson`
every value can be written.
-/

namespace SkyCatalog

/-- A JSON value as it is written. -/
inductive Written where
  | null
  | bool (b : Bool)
  | int (n : Int)
  | real (x : Float)
  | text (s : String)
  | array (items : List Written)
  | object (fields : List (String × Written))
  /-- Well formed, but denoting nothing. -/
  | void
deriving Inhabited

namespace Written

mutual

/-- A value in writing. -/
def ofJson : Json → Written
  | .null => .null
  | .bool b => .bool b
  | .int n => .int n
  | .real x => .real x
  | .text s => .text s
  | .array items => .array (ofItems items)
  | .object fields => .object (ofFields fields)

/-- The items of an array in writing. -/
def ofItems : List Json → List Written
  | [] => []
  | item :: rest => ofJson item :: ofItems rest

/-- The fields of an object in writing. -/
def ofFields : List (String × Json) → List (String × Written)
  | [] => []
  | (name, value) :: rest => (name, ofJson value) :: ofFields rest

end

instance : Coe Json Written := ⟨ofJson⟩

/-- A value in writing, void where there is none. -/
def ofOption : Option Json → Written
  | some value => ofJson value
  | none => .void

mutual

/-- The value that is written, if no part of it is void. -/
def value? : Written → Option Json
  | .null => some .null
  | .bool b => some (.bool b)
  | .int n => some (.int n)
  | .real x => some (.real x)
  | .text s => some (.text s)
  | .array items => (itemValues? items).map .array
  | .object fields => (fieldValues? fields).map .object
  | .void => none

/-- The values of all items, if no part of them is void. -/
def itemValues? : List Written → Option (List Json)
  | [] => some []
  | item :: rest => do
      let value ← value? item
      let others ← itemValues? rest
      return value :: others

/-- The values of all fields, if no part of them is void. -/
def fieldValues? : List (String × Written) → Option (List (String × Json))
  | [] => some []
  | (name, field) :: rest => do
      let value ← value? field
      let others ← fieldValues? rest
      return (name, value) :: others

end

theorem itemValues?_ofItems {items : List Json}
    (h : ∀ item ∈ items, (ofJson item).value? = some item) :
    itemValues? (ofItems items) = some items := by
  induction items with
  | nil => rfl
  | cons item rest ih =>
      obtain ⟨hitem, hrest⟩ := List.forall_mem_cons.mp h
      simp [ofItems, itemValues?, hitem, ih hrest]

theorem fieldValues?_ofFields {fields : List (String × Json)}
    (h : ∀ field ∈ fields, (ofJson field.2).value? = some field.2) :
    fieldValues? (ofFields fields) = some fields := by
  induction fields with
  | nil => rfl
  | cons field rest ih =>
      obtain ⟨hfield, hrest⟩ := List.forall_mem_cons.mp h
      simp [ofFields, fieldValues?, hfield, ih hrest]

theorem sizeOf_snd_lt {field : String × Json} {fields : List (String × Json)}
    (h : field ∈ fields) : sizeOf field.2 < sizeOf fields := by
  have hlt := List.sizeOf_lt_of_mem h
  obtain ⟨name, value⟩ := field
  rw [Prod.mk.sizeOf_spec] at hlt
  exact Nat.lt_trans (by simp only; omega) hlt

/-- Reading a value back. -/
theorem value?_ofJson : (v : Json) → (ofJson v).value? = some v
  | .null => rfl
  | .bool _ => rfl
  | .int _ => rfl
  | .real _ => rfl
  | .text _ => rfl
  | .array items => by
      have hitems := itemValues?_ofItems fun item (_ : item ∈ items) => value?_ofJson item
      rw [ofJson, value?, hitems, Option.map_some]
  | .object fields => by
      have hfields := fieldValues?_ofFields fun field (hmem : field ∈ fields) =>
        have := sizeOf_snd_lt hmem
        value?_ofJson field.2
      rw [ofJson, value?, hfields, Option.map_some]

end Written

end SkyCatalog
