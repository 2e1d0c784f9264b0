import SkyCatalog.Json.Value
import SkyCatalog.Proofs.Keyed

/-!
# Values whose fields are told apart by their names

In a tidy value no object has two fields of one name (`distinct_tidy`): fields are put into
place as the entries of a map are (`putField_eq_insertEntry`), so that only their order changes
(`tidyFields_perm`). In such an object a field is found by its name (`lookup_eq_some_iff`).
-/

namespace SkyCatalog.Json

/-- No object in the value has two fields of one name. -/
inductive Distinct : Json → Prop where
  | null : Distinct .null
  | bool (b : Bool) : Distinct (.bool b)
  | int (n : Int) : Distinct (.int n)
  | real (x : Float) : Distinct (.real x)
  | text (s : String) : Distinct (.text s)
  | array {items : List Json} (values : ∀ item ∈ items, Distinct item) : Distinct (.array items)
  | object {fields : List (String × Json)} (names : (fields.map (·.1)).Nodup)
      (values : ∀ field ∈ fields, Distinct field.2) : Distinct (.object fields)

/-- Where no two fields have one name, the value of a name is that of its field. -/
theorem lookup_eq_some_iff {α : Type} {name : String} {value : α} {fields : List (String × α)}
    (h : (fields.map (·.1)).Nodup) :
    lookup name fields = some value ↔ (name, value) ∈ fields := by
  rw [lookup, Option.map_eq_some_iff]
  constructor
  · rintro ⟨field, hfind, rfl⟩
    have hname : field.1 = name := by simpa using List.find?_some hfind
    exact hname ▸ List.mem_of_find?_eq_some hfind
  · intro hmem
    cases hfind : fields.find? (·.1 == name) with
    | none =>
        rw [List.find?_eq_none] at hfind
        exact absurd (hfind _ hmem) (by simp)
    | some field =>
        have hname : field.1 = name := by simpa using List.find?_some hfind
        have heq := List.inj_on_of_nodup_map h (List.mem_of_find?_eq_some hfind) hmem hname
        exact ⟨field, rfl, by rw [heq]⟩

theorem putField_eq_insertEntry (name : String) (value : Json) (fields : List (String × Json)) :
    putField name value fields = Keyed.insertEntry name value fields := by
  induction fields with
  | nil => rfl
  | cons field rest ih =>
      obtain ⟨other, old⟩ := field
      have hcompare : compare name other =
          if name < other then .lt else if name = other then .eq else .gt := rfl
      rw [putField, Keyed.insertEntry, hcompare, ih]
      split
      · rfl
      · split <;> rfl

/-- Fields that are tidied one after the other are put into a map. -/
theorem tidyFields_eq (m : Keyed String Json) (fields : List (String × Json)) :
    tidyFields m.entries fields = (m.putAll (fields.map fun f => (f.1, f.2.tidy))).entries := by
  induction fields generalizing m with
  | nil => rfl
  | cons field rest ih =>
      rw [tidyFields, putField_eq_insertEntry]
      exact ih (m.put field.1 field.2.tidy)

/-- Columns that are tidied are those that were given, each tidied, in another order. -/
theorem tidyFields_perm {columns : List (String × Json)} (hnames : (columns.map (·.1)).Nodup) :
    (tidyFields [] columns).Perm (columns.map fun c => (c.1, c.2.tidy)) := by
  have hnames' : ((columns.map fun c => (c.1, c.2.tidy)).map (·.1)).Nodup := by
    rwa [List.map_map]
  have hentries : tidyFields [] columns =
    (Keyed.ofList (columns.map fun c => (c.1, c.2.tidy))).entries := tidyFields_eq .empty columns
  rw [hentries]
  exact Keyed.perm_entries_ofList hnames'

theorem tidyItems_eq (items : List Json) : tidyItems items = items.map tidy := by
  induction items with
  | nil => rfl
  | cons item rest ih => rw [tidyItems, ih, List.map_cons]

/-- The fields of a tidy object. -/
theorem tidy_object (fields : List (String × Json)) : (object fields).tidy =
    .object (Keyed.ofList (fields.map fun f => (f.1, f.2.tidy))).entries := by
  rw [tidy]
  exact congrArg object (tidyFields_eq .empty fields)

theorem sizeOf_lt_object {fields : List (String × Json)} {field : String × Json}
    (h : field ∈ fields) : sizeOf field.2 < sizeOf (object fields) := by
  have hlt := List.sizeOf_lt_of_mem h
  obtain ⟨name, value⟩ := field
  simp only [object.sizeOf_spec, Prod.mk.sizeOf_spec] at hlt ⊢
  omega

theorem distinct_tidy (v : Json) : v.tidy.Distinct := by
  cases v with
  | null => exact .null
  | bool b => exact .bool b
  | int n => exact .int n
  | real x => exact .real x
  | text s => exact .text s
  | array items =>
      rw [tidy, tidyItems_eq]
      refine .array fun item hitem => ?_
      obtain ⟨v, hv, rfl⟩ := List.mem_map.mp hitem
      exact distinct_tidy v
  | object fields =>
      have hnone : ∀ field ∈ (Keyed.empty : Keyed String Json).entries, field.2.Distinct :=
        fun field hfield => absurd hfield List.not_mem_nil
      rw [tidy_object]
      refine .object (Keyed.nodup_keys _) (Keyed.forall_entries_putAll hnone fun field hfield => ?_)
      obtain ⟨given, hgiven, rfl⟩ := List.mem_map.mp hfield
      exact distinct_tidy given.2
termination_by sizeOf v
decreasing_by
  · have hlt := List.sizeOf_lt_of_mem hv
    simp only [array.sizeOf_spec]
    omega
  · exact sizeOf_lt_object hgiven

end SkyCatalog.Json
