import SkyCatalog.Proofs.Assembly.Building

/-!
# What holds of every part that is built

A property of parts that every constructor of a registry hands on, from the parts that it is given
to the part that it makes, holds of every part that the registry builds (`build_invariant`). To
show it for a constructor one follows what it takes (`Took.partsSatisfy`).
-/

namespace SkyCatalog

variable {α : Type} {P : α → Prop}

/-- A property of every part among the arguments. -/
def PartsSatisfy (P : α → Prop) (s : Arguments α) : Prop :=
  ∀ argument a, (argument, Argument.part a) ∈ s.given.entries → P a

namespace Construction

variable {s s' : Arguments α} {argument : String}

/-- What holds of all the parts holds of those that are left when an argument is taken. -/
theorem Took.partsSatisfy {taken : Argument α} (htook : Took s argument taken s')
    (h : PartsSatisfy P s) : PartsSatisfy P s' :=
  fun name a hmem => h name a (htook.2.mem_iff.mpr (List.mem_cons_of_mem _ hmem))

/-- What holds of all the parts holds of the one that is taken. -/
theorem Took.satisfies {a : α} (htook : Took s argument (.part a) s') (h : PartsSatisfy P s) :
    P a :=
  h argument a (htook.2.mem_iff.mpr List.mem_cons_self)

/-- A constructor of one number makes its part of a number that passes the test. -/
theorem Checks.exists_of_run {check : Construction α Float} {good : Float → Bool} {f : Float → α}
    {a : α} (hcheck : Checks check argument good)
    (h : (do return f (← check) : Construction α α).run s = .ok (a, s')) :
    ∃ x, good x = true ∧ a = f x := by
  obtain ⟨x, m, hx, hmake⟩ := run_bind_eq_ok_iff.mp h
  obtain ⟨-, -, -, hgood⟩ := (hcheck _ _ _).mp hx
  exact ⟨x, hgood, (run_pure_eq_ok_iff.mp hmake).1⟩

/-- A constructor of one part makes its part of one that satisfies what they all do. -/
theorem exists_of_run_part (hparts : PartsSatisfy P s) {f : α → α} {a : α}
    (h : (do return f (← part argument) : Construction α α).run s = .ok (a, s')) :
    ∃ b, P b ∧ a = f b := by
  obtain ⟨b, m, htook, hmake⟩ := run_bind_eq_ok_iff.mp h
  exact ⟨b, (run_part_eq_ok_iff.mp htook).satisfies hparts, (run_pure_eq_ok_iff.mp hmake).1⟩

end Construction

namespace Registry

variable {r : Registry α} {given : List (String × Argument α)} {a : α} {v : Json}

/-- The parts among the arguments are built from fields. -/
theorem exists_field_of_part {plain : List (String × Json)} {argument : String} {b : α}
    (h : List.Forall₂ r.Gives plain given) (hb : (argument, Argument.part b) ∈ given) :
    ∃ v, (argument, v) ∈ plain ∧ r.build v = .ok b := by
  induction h with
  | nil => cases hb
  | cons first _ ih =>
      rcases List.mem_cons.mp hb with heq | hrest
      · cases first with
        | part hbuild =>
            cases heq
            exact ⟨_, List.mem_cons_self, hbuild⟩
        | value => cases heq
      · obtain ⟨v, hv, hbuild⟩ := ih hrest
        exact ⟨v, List.mem_cons_of_mem _ hv, hbuild⟩

/-- **What every constructor hands on holds of every part that is built.** -/
theorem build_invariant
    (hstep : ∀ name c s a s', r.constructors.get? name = some c → PartsSatisfy P s →
      c.run s = .ok (a, s') → P a)
    (h : r.build v = .ok a) : P a := by
  -- by induction on the size of the value: the parts are built from the values of its fields
  induction hsize : sizeOf v using Nat.strong_induction_on generalizing v a with
  | h n ih =>
    subst hsize
    cases v with
    | object fields =>
        obtain ⟨name, c, given, -, hc, hgiven, hconstruct⟩ := build_object_cases h
        obtain ⟨left, hrun, -⟩ := construct_eq_ok_iff.mp hconstruct
        have hnone : ∀ e ∈ (Keyed.empty : Keyed String (Argument α)).entries, e ∈ given :=
          fun e he => absurd he List.not_mem_nil
        have hparts : PartsSatisfy P ⟨name, .ofList given⟩ := by
          intro argument b hb
          have hmem := Keyed.forall_entries_putAll hnone (fun e he => he) _ hb
          obtain ⟨v, hv, hbuild⟩ := exists_field_of_part (buildArguments_eq_ok_iff.mp hgiven) hmem
          exact ih _ (Json.sizeOf_lt_object (List.mem_of_mem_filter hv)) hbuild rfl
        exact hstep name c _ a left hc hparts hrun
    | _ => cases h

end Registry

end SkyCatalog
