import SkyCatalog.Text.Offset

/-!
# Cuts between characters

A text is cut after any of its beginnings (`dropBytes?_append`, `takeBytes?_append`), and the
number of bytes determines the cut (`append_inj_of_byteLength`). The text between two cuts is
what `slice?` finds (`slice?_append`). The bytes counted are those of the string
(`byteLength_toList`).
-/

namespace SkyCatalog.Text

variable {a b : List Char}

@[simp] theorem byteLength_nil : byteLength [] = 0 := rfl

theorem byteLength_pos (h : a ≠ []) : 0 < byteLength a := by
  cases a with
  | nil => exact absurd rfl h
  | cons c rest => exact Nat.lt_of_lt_of_le c.utf8Size_pos (Nat.le_add_right _ _)

theorem byteLength_toList (s : String) : byteLength s.toList = s.utf8ByteSize := by
  have h : ∀ cs : List Char, byteLength cs = (String.ofList cs).utf8ByteSize := by
    intro cs
    induction cs with
    | nil => rfl
    | cons c rest ih =>
        rw [byteLength, ih, String.ofList_cons, String.utf8ByteSize_append,
          String.utf8ByteSize_singleton]
  rw [h, String.ofList_toList]

theorem dropBytes?_zero (a : List Char) : dropBytes? 0 a = some a := by
  cases a <;> rfl

theorem takeBytes?_zero (a : List Char) : takeBytes? 0 a = some [] := by
  cases a <;> rfl

/-- Behind a beginning of a text stands the rest of it. -/
theorem dropBytes?_append (a b : List Char) : dropBytes? (byteLength a) (a ++ b) = some b := by
  induction a with
  | nil => exact dropBytes?_zero b
  | cons c rest ih =>
      have hpos := c.utf8Size_pos
      rw [List.cons_append, dropBytes?, byteLength, if_neg (by omega), if_pos (by omega),
        Nat.add_sub_cancel_left]
      exact ih

theorem takeBytes?_append (a b : List Char) : takeBytes? (byteLength a) (a ++ b) = some a := by
  induction a with
  | nil => exact takeBytes?_zero b
  | cons c rest ih =>
      have hpos := c.utf8Size_pos
      rw [List.cons_append, takeBytes?, byteLength, if_neg (by omega), if_pos (by omega),
        Nat.add_sub_cancel_left, ih]
      rfl

theorem slice?_append (a b c : List Char) :
    slice? (byteLength a) (byteLength a + byteLength b) (a ++ (b ++ c)) = some b := by
  rw [slice?, if_pos (Nat.le_add_right _ _), dropBytes?_append, Nat.add_sub_cancel_left]
  exact takeBytes?_append b c

/-- A text is cut at an offset in one way only. -/
theorem append_inj_of_byteLength {a' b' : List Char} (h : a ++ b = a' ++ b')
    (hlength : byteLength a = byteLength a') : a = a' ∧ b = b' := by
  have hfront := takeBytes?_append a b
  rw [hlength, h, takeBytes?_append] at hfront
  obtain rfl := Option.some.inj hfront
  exact ⟨rfl, List.append_cancel_left h⟩

end SkyCatalog.Text
