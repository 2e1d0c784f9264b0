import SkyCatalog.Assembly.Registry
import SkyCatalog.Proofs.Except
import SkyCatalog.Proofs.Keyed

/-!
# What constructors take

A constructor that succeeds has split the arguments it was given into those that it took and
those that it left (`Keyed.perm_cons_iff`): each of the ways to take an argument is described
by that split. As nothing may be left in the end, a constructor that takes given arguments
succeeds exactly on these, in any order (`construct_number_iff` and the others).
-/

namespace SkyCatalog

namespace Construction

variable {α β γ : Type} {s s' : Arguments α} {argument : String}

/-! ## Single steps -/

/-- One computation after another, where both succeed. -/
theorem run_bind_eq_ok_iff {c : Construction α β} {f : β → Construction α γ} {b : γ} :
    (c >>= f).run s = .ok (b, s') ↔
      ∃ a m, c.run s = .ok (a, m) ∧ (f a).run m = .ok (b, s') := by
  rw [StateT.run_bind, bind_eq_ok_iff, Prod.exists]

theorem run_pure_eq_ok_iff {a b : β} :
    (pure a : Construction α β).run s = .ok (b, s') ↔ b = a ∧ s' = s := by
  rw [StateT.run_pure]
  simp [pure, Except.pure, eq_comm]

theorem run_refuse_ne_ok {defect : ArgumentDefect} {b : β} :
    (refuse argument defect : Construction α β).run s ≠ .ok (b, s') := by
  nofun

/-- An argument was taken, and the others were left. -/
def Took (s : Arguments α) (argument : String) (a : Argument α) (s' : Arguments α) : Prop :=
  s'.part = s.part ∧ s.given.entries.Perm ((argument, a) :: s'.given.entries)

theorem run_take?_eq : (take? argument).run s =
    .ok (s.given.get? argument, { s with given := s.given.erase argument }) :=
  rfl

theorem took_iff {a : Argument α} : Took s argument a s' ↔
    s.given.get? argument = some a ∧ s' = { s with given := s.given.erase argument } := by
  obtain ⟨part, given⟩ := s
  obtain ⟨part', given'⟩ := s'
  simp only [Took, Keyed.perm_cons_iff, Arguments.mk.injEq]
  constructor
  · rintro ⟨rfl, hget, rfl⟩
    exact ⟨hget, rfl, rfl⟩
  · rintro ⟨hget, rfl, rfl⟩
    exact ⟨rfl, hget, rfl⟩

/-- What is among the arguments can be taken. -/
theorem exists_took {a : Argument α} {rest : List (String × Argument α)}
    (h : s.given.entries.Perm ((argument, a) :: rest)) :
    ∃ m, Took s argument a m ∧ m.given.entries.Perm rest := by
  have hget : s.given.get? argument = some a :=
    Keyed.mem_entries_iff.mp (h.mem_iff.mpr List.mem_cons_self)
  have htook : Took s argument a { s with given := s.given.erase argument } :=
    took_iff.mpr ⟨hget, rfl⟩
  exact ⟨_, htook, (htook.2.symm.trans h).cons_inv⟩

theorem run_take_eq_ok_iff {a : Argument α} :
    (take argument).run s = .ok (a, s') ↔ Took s argument a s' := by
  rw [took_iff, take, run_bind_eq_ok_iff]
  simp only [run_take?_eq, Except.ok.injEq, Prod.mk.injEq]
  constructor
  · rintro ⟨found, m, ⟨rfl, rfl⟩, hrest⟩
    cases hfound : s.given.get? argument with
    | none =>
        rw [hfound] at hrest
        cases hrest
    | some a' =>
        rw [hfound] at hrest
        obtain ⟨rfl, rfl⟩ := run_pure_eq_ok_iff.mp hrest
        exact ⟨rfl, rfl⟩
  · rintro ⟨hget, rfl⟩
    refine ⟨_, _, ⟨rfl, rfl⟩, ?_⟩
    rw [hget]
    rfl

theorem run_part_eq_ok_iff {a : α} :
    (part argument).run s = .ok (a, s') ↔ Took s argument (.part a) s' := by
  rw [part, run_bind_eq_ok_iff]
  simp only [run_take_eq_ok_iff]
  constructor
  · rintro ⟨_ | v, m, htook, hrest⟩
    · obtain ⟨rfl, rfl⟩ := run_pure_eq_ok_iff.mp hrest
      exact htook
    · exact absurd hrest run_refuse_ne_ok
  · intro htook
    exact ⟨_, _, htook, rfl⟩

theorem run_value_eq_ok_iff {v : Json} :
    (value argument).run s = .ok (v, s') ↔ Took s argument (.value v) s' := by
  rw [value, run_bind_eq_ok_iff]
  simp only [run_take_eq_ok_iff]
  constructor
  · rintro ⟨_ | v, m, htook, hrest⟩
    · exact absurd hrest run_refuse_ne_ok
    · obtain ⟨rfl, rfl⟩ := run_pure_eq_ok_iff.mp hrest
      exact htook
  · intro htook
    exact ⟨_, _, htook, rfl⟩

theorem run_number_eq_ok_iff {x : Float} :
    (number argument).run s = .ok (x, s') ↔
      ∃ v, Took s argument (.value v) s' ∧ v.toFloat? = some x := by
  rw [number, run_bind_eq_ok_iff]
  simp only [run_value_eq_ok_iff]
  constructor
  · rintro ⟨v, m, htook, hrest⟩
    cases hv : v.toFloat? with
    | none =>
        rw [hv] at hrest
        exact absurd hrest run_refuse_ne_ok
    | some y =>
        rw [hv] at hrest
        obtain ⟨rfl, rfl⟩ := run_pure_eq_ok_iff.mp hrest
        exact ⟨v, htook, hv⟩
  · rintro ⟨v, htook, hv⟩
    refine ⟨v, s', htook, ?_⟩
    rw [hv]
    rfl

theorem run_truthOr_eq_ok_iff {default b : Bool} :
    (truthOr argument default).run s = .ok (b, s') ↔
      Took s argument (.value (.bool b)) s' ∨
        s.given.get? argument = none ∧ b = default ∧ s' = s := by
  rw [truthOr, run_bind_eq_ok_iff, took_iff]
  simp only [run_take?_eq, Except.ok.injEq, Prod.mk.injEq]
  constructor
  · rintro ⟨found, m, ⟨rfl, rfl⟩, hrest⟩
    cases hfound : s.given.get? argument with
    | none =>
        rw [hfound] at hrest
        obtain ⟨rfl, rfl⟩ := run_pure_eq_ok_iff.mp hrest
        exact Or.inr ⟨rfl, rfl, by rw [Keyed.erase_of_get?_eq_none hfound]⟩
    | some a =>
        rw [hfound] at hrest
        split at hrest
        · next heq => cases heq
        · next heq =>
          cases heq
          obtain ⟨rfl, rfl⟩ := run_pure_eq_ok_iff.mp hrest
          exact Or.inl ⟨rfl, rfl⟩
        · exact absurd hrest run_refuse_ne_ok
  · rintro (⟨hget, rfl⟩ | ⟨hget, rfl, rfl⟩)
    · refine ⟨_, _, ⟨rfl, rfl⟩, ?_⟩
      rw [hget]
      rfl
    · refine ⟨_, _, ⟨rfl, rfl⟩, ?_⟩
      rw [hget, Keyed.erase_of_get?_eq_none hget]
      rfl

/-- A number that passes a test is taken. -/
def Checks (check : Construction α Float) (argument : String) (good : Float → Bool) : Prop :=
  ∀ s s' x, check.run s = .ok (x, s') ↔
    ∃ v, Took s argument (.value v) s' ∧ v.toFloat? = some x ∧ good x = true

theorem checks_number (good : Float → Bool) (defect : ArgumentDefect) :
    Checks (α := α) (do
      let x ← number argument
      if good x then return x else refuse argument defect) argument good := by
  intro s s' x
  rw [run_bind_eq_ok_iff]
  simp only [run_number_eq_ok_iff]
  constructor
  · rintro ⟨y, m, ⟨v, htook, hv⟩, hrest⟩
    cases hgood : good y with
    | false =>
        rw [hgood] at hrest
        exact absurd hrest run_refuse_ne_ok
    | true =>
        rw [hgood] at hrest
        obtain ⟨rfl, rfl⟩ := run_pure_eq_ok_iff.mp hrest
        exact ⟨v, htook, hv, hgood⟩
  · rintro ⟨v, htook, hv, hgood⟩
    refine ⟨x, s', ⟨v, htook, hv⟩, ?_⟩
    rw [hgood]
    rfl

end Construction

/-! ## Constructors with nothing left over -/

namespace Registry

open Construction

variable {α : Type} {name first second : String} {given : List (String × Argument α)} {a : α}

theorem construct_eq_ok_iff {c : Construction α α} : construct name c given = .ok a ↔
    ∃ left, c.run ⟨name, .ofList given⟩ = .ok (a, left) ∧ left.given.entries.Perm [] := by
  rw [construct, bind_eq_ok_iff, Prod.exists]
  constructor
  · rintro ⟨b, left, hrun, hleft⟩
    cases hkeys : left.given.keys with
    | nil =>
        simp only [hkeys] at hleft
        cases hleft
        exact ⟨left, hrun, List.map_eq_nil_iff.mp hkeys ▸ .nil⟩
    | cons k rest =>
        simp only [hkeys] at hleft
        cases hleft
  · rintro ⟨left, hrun, hleft⟩
    have hkeys : left.given.keys = [] := List.map_eq_nil_iff.mpr (List.perm_nil.mp hleft)
    refine ⟨a, left, hrun, ?_⟩
    simp only [hkeys]
    rfl

/-- A constructor of one number. -/
theorem construct_number_iff (hgiven : (given.map (·.1)).Nodup) {check : Construction α Float}
    {good : Float → Bool} (hcheck : Checks check first good) {f : Float → α} :
    construct name (do return f (← check)) given = .ok a ↔
      ∃ v x, given.Perm [(first, .value v)] ∧ v.toFloat? = some x ∧ good x = true ∧ a = f x := by
  have hentries := Keyed.perm_entries_ofList hgiven
  rw [construct_eq_ok_iff]
  simp only [run_bind_eq_ok_iff, run_pure_eq_ok_iff, hcheck _ _ _]
  constructor
  · rintro ⟨left, ⟨x, m, ⟨v, htook, hv, hgood⟩, rfl, rfl⟩, hnil⟩
    exact ⟨v, x, hentries.symm.trans (htook.2.trans (hnil.cons _)), hv, hgood, rfl⟩
  · rintro ⟨v, x, hperm, hv, hgood, rfl⟩
    obtain ⟨m, htook, hnil⟩ :=
      exists_took (s := ⟨name, .ofList given⟩) (hentries.trans hperm)
    exact ⟨m, ⟨x, m, ⟨v, htook, hv, hgood⟩, rfl, rfl⟩, hnil⟩

/-- A constructor of one part. -/
theorem construct_part_iff (hgiven : (given.map (·.1)).Nodup) {f : α → α} :
    construct name (do return f (← part first)) given = .ok a ↔
      ∃ b, given.Perm [(first, .part b)] ∧ a = f b := by
  have hentries := Keyed.perm_entries_ofList hgiven
  rw [construct_eq_ok_iff]
  simp only [run_bind_eq_ok_iff, run_pure_eq_ok_iff, run_part_eq_ok_iff]
  constructor
  · rintro ⟨left, ⟨b, m, htook, rfl, rfl⟩, hnil⟩
    exact ⟨b, hentries.symm.trans (htook.2.trans (hnil.cons _)), rfl⟩
  · rintro ⟨b, hperm, rfl⟩
    obtain ⟨m, htook, hnil⟩ :=
      exists_took (s := ⟨name, .ofList given⟩) (hentries.trans hperm)
    exact ⟨m, ⟨b, m, htook, rfl, rfl⟩, hnil⟩

/-- A constructor of two parts. -/
theorem construct_parts_iff (hgiven : (given.map (·.1)).Nodup) {f : α → α → α} :
    construct name (do
      let left ← part first
      let right ← part second
      return f left right) given = .ok a ↔
      ∃ b c, given.Perm [(first, .part b), (second, .part c)] ∧ a = f b c := by
  have hentries := Keyed.perm_entries_ofList hgiven
  rw [construct_eq_ok_iff]
  simp only [run_bind_eq_ok_iff, run_pure_eq_ok_iff, run_part_eq_ok_iff]
  constructor
  · rintro ⟨left, ⟨b, m, htook, c, m', htook', rfl, rfl⟩, hnil⟩
    have hrest := htook'.2.trans (hnil.cons _)
    exact ⟨b, c, hentries.symm.trans (htook.2.trans (hrest.cons _)), rfl⟩
  · rintro ⟨b, c, hperm, rfl⟩
    obtain ⟨m, htook, hrest⟩ :=
      exists_took (s := ⟨name, .ofList given⟩) (hentries.trans hperm)
    obtain ⟨m', htook', hnil⟩ := exists_took hrest
    exact ⟨m', ⟨b, m, htook, c, m', htook', rfl, rfl⟩, hnil⟩

/-- A constructor of one number and a truth value that may be left out. -/
theorem construct_number_truthOr_iff (hgiven : (given.map (·.1)).Nodup)
    {check : Construction α Float} {good : Float → Bool} (hcheck : Checks check first good)
    {default : Bool} {f : Float → Bool → α} :
    construct name (do
      let x ← check
      let b ← truthOr second default
      return f x b) given = .ok a ↔
      ∃ v x b, v.toFloat? = some x ∧ good x = true ∧ a = f x b ∧
        (given.Perm [(first, .value v), (second, .value (.bool b))] ∨
          b = default ∧ given.Perm [(first, .value v)]) := by
  have hentries := Keyed.perm_entries_ofList hgiven
  rw [construct_eq_ok_iff]
  simp only [run_bind_eq_ok_iff, run_pure_eq_ok_iff, hcheck _ _ _, run_truthOr_eq_ok_iff]
  constructor
  · rintro ⟨left, ⟨x, m, ⟨v, htook, hv, hgood⟩, b, m', hflag, rfl, rfl⟩, hnil⟩
    refine ⟨v, x, b, hv, hgood, rfl, ?_⟩
    rcases hflag with htook' | ⟨-, rfl, rfl⟩
    · have hrest := htook'.2.trans (hnil.cons _)
      exact Or.inl (hentries.symm.trans (htook.2.trans (hrest.cons _)))
    · exact Or.inr ⟨rfl, hentries.symm.trans (htook.2.trans (hnil.cons _))⟩
  · rintro ⟨v, x, b, hv, hgood, rfl, hperm | ⟨rfl, hperm⟩⟩
    · obtain ⟨m, htook, hrest⟩ :=
        exists_took (s := ⟨name, .ofList given⟩) (hentries.trans hperm)
      obtain ⟨m', htook', hnil⟩ := exists_took hrest
      exact ⟨m', ⟨x, m, ⟨v, htook, hv, hgood⟩, b, m', Or.inl htook', rfl, rfl⟩, hnil⟩
    · obtain ⟨m, htook, hnil⟩ :=
        exists_took (s := ⟨name, .ofList given⟩) (hentries.trans hperm)
      have hnone : m.given.get? second = none := by
        simp [Keyed.get?, List.perm_nil.mp hnil, Keyed.find?]
      exact ⟨m, ⟨x, m, ⟨v, htook, hv, hgood⟩, b, m, Or.inr ⟨hnone, rfl, rfl⟩, rfl, rfl⟩, hnil⟩

end Registry

end SkyCatalog
