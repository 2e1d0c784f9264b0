import SkyCatalog.Crossmatch.Cursor
import SkyCatalog.Proofs.Decimal.Parts

/-!
# The order of places

The place of an identifier is the number that its first sixteen characters that are no dash spell
in hexadecimal digits (`Spells`), with zeros behind them if there are fewer
(`position?_eq_some_iff`). Sixteen digits never leave the range of sixty-four bits
(`foldlM_appendDigit?`), so an identifier without a place has nothing to read or a character that is
no digit (`position?_eq_none_iff`).

Identifiers are compared character by character and places as numbers. For lower-case digits both
come to the same, though one identifier may be a beginning of the other and only some of the digits
are read (`spelled_le_of_lex`). Dashes do not disturb this where they stand at the same places
(`Aligned.undashed_lex`). Places are therefore in the order of such identifiers (`position?_mono`),
and so are the parts of the range that are reported for them (`fraction?_mono`).
-/

namespace SkyCatalog.Cursor

/-! ## Digits -/

/-- The hexadecimal digits in the order of their values. -/
def lowercase : List Char :=
  ['0', '1', '2', '3', '4', '5', '6', '7', '8', '9', 'a', 'b', 'c', 'd', 'e', 'f']

/-- The hexadecimal digits in the order of their values, with capital letters. -/
def capitals : List Char :=
  ['0', '1', '2', '3', '4', '5', '6', '7', '8', '9', 'A', 'B', 'C', 'D', 'E', 'F']

/-- A character is the hexadecimal digit of a value. -/
def Denotes (c : Char) (digit : Nat) : Prop :=
  lowercase[digit]? = some c ∨ capitals[digit]? = some c

instance (c : Char) (digit : Nat) : Decidable (Denotes c digit) :=
  inferInstanceAs (Decidable (_ ∨ _))

theorem isSome_hexValue? (c : Char) : (hexValue? c).isSome = c.isHexDigit := by
  simp only [hexValue?, Char.isHexDigit, Char.le_def]
  split_ifs <;> simp_all

theorem mem_of_isHexDigit {c : Char} (h : c.isHexDigit = true) : c ∈ lowercase ++ capitals := by
  have hsame : c = Char.ofNat c.toNat := c.ofNat_toNat.symm
  have hbounds : (48 ≤ c.toNat ∧ c.toNat ≤ 57) ∨ (97 ≤ c.toNat ∧ c.toNat ≤ 102) ∨
      (65 ≤ c.toNat ∧ c.toNat ≤ 70) := by
    simp only [Char.isHexDigit, Char.isDigit, Bool.or_eq_true, Bool.and_eq_true, decide_eq_true_eq,
      UInt32.le_iff_toNat_le] at h
    simpa [or_assoc] using h
  rw [hsame]
  generalize c.toNat = n at hbounds
  rcases hbounds with ⟨hlow, hhigh⟩ | ⟨hlow, hhigh⟩ | ⟨hlow, hhigh⟩ <;> interval_cases n <;> decide

/-- A digit is read as its place among the digits. -/
theorem hexValue?_eq_some_iff {c : Char} {digit : Nat} :
    hexValue? c = some digit ↔ Denotes c digit := by
  -- lists are gone through by `all`, because a bound on characters would be tried on every one
  have hread : (lowercase ++ capitals).all
      (fun c => Denotes c ((hexValue? c).getD 0)) = true := by decide
  have hplaces : ∀ i < 16, lowercase[i]?.all (fun c => hexValue? c = some i) = true ∧
      capitals[i]?.all (fun c => hexValue? c = some i) = true := by decide
  constructor
  · intro h
    have hmem := mem_of_isHexDigit (by rw [← isSome_hexValue?, h]; rfl)
    simpa [h] using List.all_eq_true.mp hread c hmem
  · rintro (h | h)
    · simpa [h] using (hplaces digit (List.getElem?_eq_some_iff.mp h).1).1
    · simpa [h] using (hplaces digit (List.getElem?_eq_some_iff.mp h).1).2

/-- The greater of two lower-case digits has the greater value. -/
theorem lt_of_denotes {c c' : Char} {digit digit' : Nat} (hc : c ∈ lowercase)
    (hc' : c' ∈ lowercase) (h : c < c') (hdigit : Denotes c digit) (hdigit' : Denotes c' digit') :
    digit < digit' := by
  have hvalues : lowercase.all (fun c => lowercase.all fun c' =>
      c < c' → (hexValue? c).getD 0 < (hexValue? c').getD 0) = true := by decide
  rw [← hexValue?_eq_some_iff] at hdigit hdigit'
  simpa [h, hdigit, hdigit'] using List.all_eq_true.mp (List.all_eq_true.mp hvalues c hc) c' hc'

theorem Denotes.unique {c : Char} {digit digit' : Nat} (h : Denotes c digit)
    (h' : Denotes c digit') : digit = digit' := by
  rw [← hexValue?_eq_some_iff] at h h'
  exact Option.some.inj (h.symm.trans h')

theorem Denotes.lt {c : Char} {digit : Nat} (h : Denotes c digit) : digit < 16 := by
  rcases h with h | h <;> exact (List.getElem?_eq_some_iff.mp h).1

theorem isHexDigit_iff {c : Char} : c.isHexDigit = true ↔ ∃ digit, Denotes c digit := by
  rw [← isSome_hexValue?, Option.isSome_iff_exists]
  simp only [hexValue?_eq_some_iff]

/-! ## Numbers -/

/-- Characters are the hexadecimal digits of a number, the digit of the greatest weight
first. -/
def Spells (characters : List Char) (n : Nat) : Prop :=
  ∃ digits, List.Forall₂ Denotes characters digits ∧ n = Nat.ofDigits 16 digits.reverse

theorem spells_nil {n : Nat} : Spells [] n ↔ n = 0 := by
  simp [Spells]

theorem spells_cons {c : Char} {rest : List Char} {n : Nat} :
    Spells (c :: rest) n ↔
      ∃ digit m, Denotes c digit ∧ Spells rest m ∧ n = m + 16 ^ rest.length * digit := by
  simp only [Spells, List.forall₂_cons_left_iff]
  constructor
  · rintro ⟨_, ⟨digit, digits, hdigit, hrest, rfl⟩, rfl⟩
    refine ⟨digit, _, hdigit, ⟨digits, hrest, rfl⟩, ?_⟩
    rw [Nat.ofDigits_reverse_cons, hrest.length_eq]
  · rintro ⟨digit, _, hdigit, ⟨digits, hrest, rfl⟩, rfl⟩
    refine ⟨_, ⟨digit, digits, hdigit, hrest, rfl⟩, ?_⟩
    rw [Nat.ofDigits_reverse_cons, hrest.length_eq]

theorem Spells.unique {characters : List Char} {n m : Nat} (hn : Spells characters n)
    (hm : Spells characters m) : n = m := by
  induction characters generalizing n m with
  | nil => rw [spells_nil.mp hn, spells_nil.mp hm]
  | cons c rest ih =>
      obtain ⟨digit, n', hdigit, hn', rfl⟩ := spells_cons.mp hn
      obtain ⟨digit', m', hdigit', hm', rfl⟩ := spells_cons.mp hm
      rw [ih hn' hm', hdigit.unique hdigit']

theorem forall_lt_of_denotes {characters : List Char} {digits : List Nat}
    (h : List.Forall₂ Denotes characters digits) : ∀ digit ∈ digits, digit < 16 := by
  induction h with
  | nil => simp
  | cons hdigit _ ih => exact List.forall_mem_cons.mpr ⟨hdigit.lt, ih⟩

/-- A number of `k` digits is below `16 ^ k`. -/
theorem Spells.lt {characters : List Char} {n : Nat} (h : Spells characters n) :
    n < 16 ^ characters.length := by
  obtain ⟨digits, hdigits, rfl⟩ := h
  rw [hdigits.length_eq, ← List.length_reverse]
  refine Nat.ofDigits_lt_base_pow_length (by decide) fun digit hdigit => ?_
  exact forall_lt_of_denotes hdigits digit (List.mem_reverse.mp hdigit)

/-- Characters spell a number exactly if all of them are digits. -/
theorem exists_spells_iff {characters : List Char} :
    (∃ n, Spells characters n) ↔ ∀ c ∈ characters, c.isHexDigit = true := by
  induction characters with
  | nil => simp [spells_nil]
  | cons c rest ih =>
      rw [List.forall_mem_cons, ← ih, isHexDigit_iff]
      simp only [spells_cons]
      constructor
      · rintro ⟨_, digit, m, hdigit, hrest, -⟩
        exact ⟨⟨digit, hdigit⟩, m, hrest⟩
      · rintro ⟨⟨digit, hdigit⟩, m, hrest⟩
        exact ⟨_, digit, m, hdigit, hrest, rfl⟩

/-- Zeros spell zero. -/
theorem spells_replicate_zero (k : Nat) : Spells (List.replicate k '0') 0 := by
  induction k with
  | zero => exact spells_nil.mpr rfl
  | succ k ih => exact spells_cons.mpr ⟨0, 0, Or.inl rfl, ih, by simp⟩

/-! ## Reading -/

/-- A list is read as a whole exactly if each of its members is read. -/
theorem mapM_eq_some_iff {α β : Type} {f : α → Option β} {l : List α} {r : List β} :
    l.mapM f = some r ↔ List.Forall₂ (fun a b => f a = some b) l r := by
  induction l generalizing r with
  | nil => simp [eq_comm]
  | cons a rest ih =>
      simp only [List.mapM_cons, List.forall₂_cons_left_iff, ← ih, Option.bind_eq_bind,
        Option.bind_eq_some_iff, Option.pure_def, Option.some.injEq]
      constructor
      · rintro ⟨b, hb, bs, hbs, rfl⟩
        exact ⟨b, bs, hb, hbs, rfl⟩
      · rintro ⟨b, bs, hb, hbs, rfl⟩
        exact ⟨b, hb, bs, hbs, rfl⟩

/-- **No number of sixteen digits is beyond the range.** -/
theorem foldlM_appendDigit? {digits : List Nat} (hdigits : ∀ d ∈ digits, d < 16) {n : Nat}
    (hfits : (n + 1) * 16 ^ digits.length ≤ 2 ^ 64) :
    digits.foldlM appendDigit? n =
      some (n * 16 ^ digits.length + Nat.ofDigits 16 digits.reverse) := by
  induction digits generalizing n with
  | nil => simp
  | cons d rest ih =>
      obtain ⟨hd, hrest⟩ := List.forall_mem_cons.mp hdigits
      rw [List.length_cons, Nat.pow_succ] at hfits
      have hfits' : (16 * n + d + 1) * 16 ^ rest.length ≤ 2 ^ 64 := by
        calc (16 * n + d + 1) * 16 ^ rest.length ≤ ((n + 1) * 16) * 16 ^ rest.length :=
              Nat.mul_le_mul_right _ (by omega)
          _ ≤ 2 ^ 64 := by rw [Nat.mul_assoc, Nat.mul_comm 16]; exact hfits
      have hrange : 16 * n + d < Nat.pow 2 64 := by
        have hpos : 1 ≤ 16 ^ rest.length := Nat.one_le_pow _ _ (by decide)
        calc 16 * n + d < (16 * n + d + 1) * 1 := by omega
          _ ≤ (16 * n + d + 1) * 16 ^ rest.length := Nat.mul_le_mul_left _ hpos
          _ ≤ 2 ^ 64 := hfits'
      have hstep : appendDigit? n d = some (16 * n + d) := if_pos hrange
      rw [List.foldlM_cons, hstep, Option.bind_eq_bind, Option.bind_some, ih hrest hfits',
        Nat.ofDigits_reverse_cons, List.length_cons, Nat.pow_succ]
      congr 1
      ring

theorem length_rightpad_leading (id : String) : ((leading id).rightpad 16 '0').length = 16 := by
  rw [List.length_rightpad]
  exact Nat.max_eq_left (List.length_take_le _ _)

/-- **The place of an identifier** is the number that its leading characters spell, with zeros
behind them up to sixteen digits. -/
theorem position?_eq_some_iff {id : String} {n : Nat} :
    position? id = some n ↔ leading id ≠ [] ∧ Spells ((leading id).rightpad 16 '0') n := by
  have hfits : (0 + 1) * 16 ^ 16 ≤ 2 ^ 64 := by decide
  by_cases hempty : leading id = []
  · simp [position?, hempty]
  · simp only [position?, List.isEmpty_iff, hempty, if_false, Option.bind_eq_some_iff,
      mapM_eq_some_iff, hexValue?_eq_some_iff, ne_eq, not_false_eq_true, true_and, Spells]
    refine exists_congr fun digits => and_congr_right fun hdigits => ?_
    have hread := foldlM_appendDigit? (forall_lt_of_denotes hdigits) (n := 0)
      (by rwa [← hdigits.length_eq, length_rightpad_leading])
    rw [ofHexDigits?, hread, Nat.zero_mul, Nat.zero_add, Option.some.injEq, eq_comm]

/-- An identifier has no place exactly if there is nothing to read or something that is no
digit. -/
theorem position?_eq_none_iff {id : String} :
    position? id = none ↔ leading id = [] ∨ ∃ c ∈ leading id, c.isHexDigit = false := by
  have hpadded : (∀ c ∈ (leading id).rightpad 16 '0', c.isHexDigit = true) ↔
      ∀ c ∈ leading id, c.isHexDigit = true := by
    simp only [List.rightpad, List.forall_mem_append, and_iff_left_iff_imp]
    intro _ c hc
    rw [(List.mem_replicate.mp hc).2]
    decide
  rw [Option.eq_none_iff_forall_ne_some, ← not_iff_not]
  simp only [not_forall, not_not, position?_eq_some_iff, exists_and_left, exists_spells_iff,
    hpadded, not_or, not_exists, not_and, Bool.not_eq_false]

/-! ## Order -/

/-- Identifiers that are compared by their digits: lower-case hexadecimal digits, without
dashes or, in texts of one length, with the dashes at the same places. -/
structure Aligned (a b : String) : Prop where
  left : ∀ c ∈ a.toList, c = '-' ∨ c ∈ lowercase
  right : ∀ c ∈ b.toList, c = '-' ∨ c ∈ lowercase
  layout : ('-' ∉ a.toList ∧ '-' ∉ b.toList) ∨
    a.toList.map (· == '-') = b.toList.map (· == '-')

instance (a b : String) : Decidable (Aligned a b) :=
  decidable_of_iff (a.toList.all (fun c => c = '-' ∨ c ∈ lowercase) = true ∧
      b.toList.all (fun c => c = '-' ∨ c ∈ lowercase) = true ∧
      (('-' ∉ a.toList ∧ '-' ∉ b.toList) ∨ a.toList.map (· == '-') = b.toList.map (· == '-')))
    ⟨fun ⟨ha, hb, hlayout⟩ => ⟨by simpa using ha, by simpa using hb, hlayout⟩,
      fun ⟨ha, hb, hlayout⟩ => ⟨by simpa using ha, by simpa using hb, hlayout⟩⟩

theorem isHexDigit_of_mem_lowercase {c : Char} (h : c ∈ lowercase) : c.isHexDigit = true := by
  have hall : lowercase.all (·.isHexDigit) = true := by decide
  exact List.all_eq_true.mp hall c h

theorem rightpad_take {α : Type} (n : Nat) (l : List α) (a : α) :
    (l.take n).rightpad n a = l.takeD n a := by
  induction n generalizing l with
  | zero => rfl
  | succ n ih =>
      cases l with
      | nil => simp [List.rightpad, List.replicate_succ]
      | cons head rest =>
          rw [List.takeD_succ, List.tail_cons, ← ih]
          simp [List.rightpad]

/-- Of lower-case digits the first difference decides, however many of them are read. -/
theorem spelled_le_of_lex {l l' : List Char} (h : List.Lex (· < ·) l l')
    (hl : ∀ c ∈ l, c ∈ lowercase) (hl' : ∀ c ∈ l', c ∈ lowercase) {k n n' : Nat}
    (hn : Spells (l.takeD k '0') n) (hn' : Spells (l'.takeD k '0') n') : n ≤ n' := by
  induction h generalizing k n n' with
  | nil =>
      -- behind a prefix there are zeros, which are the least digits
      rw [List.takeD_nil] at hn
      rw [hn.unique (spells_replicate_zero k)]
      exact Nat.zero_le _
  | @rel c rest c' rest' hlt =>
      cases k with
      | zero => exact (spells_nil.mp hn).le.trans (Nat.zero_le _)
      | succ k =>
          obtain ⟨digit, m, hdigit, hm, rfl⟩ := spells_cons.mp hn
          obtain ⟨digit', m', hdigit', -, rfl⟩ := spells_cons.mp hn'
          have hless : digit + 1 ≤ digit' :=
            lt_of_denotes (hl c List.mem_cons_self) (hl' c' List.mem_cons_self) hlt hdigit hdigit'
          have hrest : m < 16 ^ k := by simpa using hm.lt
          simp only [List.takeD_length]
          calc m + 16 ^ k * digit ≤ 16 ^ k * (digit + 1) := by rw [Nat.mul_succ]; omega
            _ ≤ 16 ^ k * digit' := Nat.mul_le_mul_left _ hless
            _ ≤ m' + 16 ^ k * digit' := Nat.le_add_left _ _
  | @cons c rest rest' _ ih =>
      cases k with
      | zero => exact (spells_nil.mp hn).le.trans (Nat.zero_le _)
      | succ k =>
          obtain ⟨digit, m, hdigit, hm, rfl⟩ := spells_cons.mp hn
          obtain ⟨digit', m', hdigit', hm', rfl⟩ := spells_cons.mp hn'
          have hrest : m ≤ m' := ih (fun c hc => hl c (List.mem_cons_of_mem _ hc))
            (fun c hc => hl' c (List.mem_cons_of_mem _ hc)) hm hm'
          simp only [List.takeD_length, hdigit.unique hdigit']
          exact Nat.add_le_add_right hrest _

/-- Leaving out what stands at the same places keeps the first difference. -/
theorem lex_filter {p : Char → Bool} {l l' : List Char} (h : List.Lex (· < ·) l l')
    (hsame : List.Forall₂ (fun c c' => p c = p c' ∧ (p c = false → c = c')) l l') :
    List.Lex (· < ·) (l.filter p) (l'.filter p) := by
  induction h with
  | nil => cases hsame
  | @rel c rest c' rest' hlt =>
      obtain ⟨⟨hp, heq⟩, -⟩ := List.forall₂_cons.mp hsame
      have hkept : p c = true := by
        by_contra hnot
        exact absurd hlt (heq (by simpa using hnot) ▸ lt_irrefl _)
      rw [List.filter_cons_of_pos hkept, List.filter_cons_of_pos (hp ▸ hkept)]
      exact .rel hlt
  | @cons c rest rest' _ ih =>
      obtain ⟨-, hrest⟩ := List.forall₂_cons.mp hsame
      by_cases hp : p c = true
      · rw [List.filter_cons_of_pos hp, List.filter_cons_of_pos hp]
        exact .cons (ih hrest)
      · rw [List.filter_cons_of_neg hp, List.filter_cons_of_neg hp]
        exact ih hrest

/-- The characters of an identifier without dashes. -/
def undashed (id : String) : List Char :=
  id.toList.filter (· ≠ '-')

/-- Without dashes an aligned identifier consists of lower-case digits. -/
theorem mem_lowercase_of_mem_undashed {id : String} (h : ∀ c ∈ id.toList, c = '-' ∨ c ∈ lowercase)
    {c : Char} (hc : c ∈ undashed id) : c ∈ lowercase := by
  obtain ⟨hmem, hne⟩ := List.mem_filter.mp hc
  exact (h c hmem).resolve_left (by simpa using hne)

theorem leading_eq_take (id : String) : leading id = (undashed id).take 16 := rfl

theorem leading_eq_nil_iff {id : String} : leading id = [] ↔ undashed id = [] := by
  simp [leading_eq_take]

/-- **The order of identifiers** is that of their digits. -/
theorem Aligned.undashed_lex {a b : String} (h : Aligned a b) (hab : a < b) :
    List.Lex (· < ·) (undashed a) (undashed b) := by
  have hlex : List.Lex (· < ·) a.toList b.toList := String.lt_iff_toList_lt.mp hab
  rcases h.layout with ⟨hleft, hright⟩ | hplaces
  · have hsame : ∀ l : List Char, '-' ∉ l → l.filter (· ≠ '-') = l := fun l hl =>
      List.filter_eq_self.mpr fun c hc => by simpa using ne_of_mem_of_not_mem hc hl
    rw [undashed, undashed, hsame _ hleft, hsame _ hright]
    exact hlex
  · rw [← List.forall₂_eq_eq_eq, List.forall₂_map_left_iff, List.forall₂_map_right_iff] at hplaces
    refine lex_filter hlex (hplaces.imp fun c c' hdash => ?_)
    simp_all

/-- An identifier of lower-case digits has a place. -/
theorem exists_position? {id : String} (h : ∀ c ∈ id.toList, c = '-' ∨ c ∈ lowercase)
    (hne : undashed id ≠ []) : ∃ n, position? id = some n := by
  apply Option.ne_none_iff_exists'.mp
  intro hnone
  rcases position?_eq_none_iff.mp hnone with hnil | ⟨c, hc, hnot⟩
  · exact hne (leading_eq_nil_iff.mp hnil)
  · have hdigit : c ∈ lowercase := mem_lowercase_of_mem_undashed h (List.mem_of_mem_take hc)
    exact absurd hnot (by simp [isHexDigit_of_mem_lowercase hdigit])

/-- **Places are in the order of the identifiers.** An identifier without digits has none and
comes first. -/
theorem position?_mono {a b : String} (h : Aligned a b) (hab : a ≤ b) :
    position? a ≤ position? b := by
  rcases lt_or_eq_of_le hab with hlt | rfl
  · have hlex := h.undashed_lex hlt
    have hne : undashed b ≠ [] := by
      intro hnil
      rw [hnil] at hlex
      exact List.not_lex_nil hlex
    obtain ⟨n', hb⟩ := exists_position? h.right hne
    cases ha : position? a with
    | none => exact Option.none_le
    | some n =>
        obtain ⟨-, hn⟩ := position?_eq_some_iff.mp ha
        obtain ⟨-, hn'⟩ := position?_eq_some_iff.mp hb
        rw [leading_eq_take, rightpad_take] at hn hn'
        rw [hb, Option.some_le_some]
        exact spelled_le_of_lex hlex (fun _ => mem_lowercase_of_mem_undashed h.left)
          (fun _ => mem_lowercase_of_mem_undashed h.right) hn hn'
  · cases position? a with
    | none => exact Option.none_le
    | some n => exact Option.some_le_some.mpr (Nat.le_refl n)

/-! ## Parts of the range -/

theorem lt_of_position? {id : String} {n : Nat} (h : position? id = some n) : n < 2 ^ 64 := by
  have hlt := (position?_eq_some_iff.mp h).2.lt
  rw [length_rightpad_leading] at hlt
  exact hlt.trans_eq (by decide)

theorem fraction?_eq_none_iff {id : String} : fraction? id = none ↔ position? id = none :=
  Option.map_eq_none_iff

theorem fraction?_eq_some_iff {id : String} {x : Float} :
    fraction? id = some x ↔
      ∃ n, position? id = some n ∧ Float.ofNat n / Float.ofNat (2 ^ 64 - 1) = x :=
  Option.map_eq_some_iff

theorem fraction?_mono {a b : String} (h : Aligned a b) (hab : a ≤ b) :
    fraction? a ≤ fraction? b := by
  have hle := position?_mono h hab
  unfold fraction?
  cases ha : position? a with
  | none => exact Option.none_le
  | some m =>
      cases hb : position? b with
      | none => simp [ha, hb] at hle
      | some n =>
          rw [ha, hb, Option.some_le_some] at hle
          exact Option.some_le_some.mpr (Decimal.part_mono hle (lt_of_position? hb))

end SkyCatalog.Cursor
