import SkyCatalog.Crossmatch.Solver
import SkyCatalog.Proofs.Keyed

/-!
# What a tree of solvers decides

A tree decides as its first leaf does that sees no collision, and as its last leaf if all see one
(`exists_decidedBy`). So the order of the leaves matters, and how they are nested does not.

Where the leaves compare scores with thresholds, every outcome of the tree has its grounds in them
(`justifies_solve`): a new object in a leaf that finds all scores below its threshold, an existing
one in a leaf whose threshold exactly one score reaches, and a collision, which is always that of
all candidates, in the lack of such leaves. None of this depends on the order of the scores
(`solve_perm`). Scores may be anything, also what is no number, which neither reaches a threshold
nor lies below it. The main statement is `solve_of_thresholds`.
-/

namespace SkyCatalog

/-- A collision does not depend on the order of the objects in it. -/
theorem Outcome.collisionOf_perm {pgcs pgcs' : List Int} (h : pgcs.Perm pgcs') :
    collisionOf pgcs = collisionOf pgcs' := by
  refine congrArg Outcome.collision (Keyed.ext_keys fun pgc => ?_)
  rw [Keyed.mem_keys_ofList, Keyed.mem_keys_ofList]
  exact ((h.map _).map _).mem_iff

namespace Solver

/-- All rules of the tree compare scores with a threshold. -/
def ByThresholds : Solver → Prop
  | .onlyOneAbove _ => True
  | .allBelow _ => True
  | .orElse first second => first.ByThresholds ∧ second.ByThresholds
  | .custom _ => False

/-- The simple rules of a tree, from left to right. -/
def leaves : Solver → List Solver
  | .orElse first second => first.leaves ++ second.leaves
  | leaf => [leaf]

variable {s first second third : Solver} {scored scored' : List Scored}

/-! ## The leaf that decides -/

/-- The leaf among others whose outcome stands: the first that sees no collision, or the last one
if all see a collision. -/
def DecidedBy (scored : List Scored) (among : List Solver) (leaf : Solver) : Prop :=
  ∃ before after, among = before ++ leaf :: after ∧
    (∀ l ∈ before, (l.solve scored).isCollision = true) ∧
    ((leaf.solve scored).isCollision = true → after = [])

theorem solve_orElse : (orElse first second).solve scored =
    if (first.solve scored).isCollision = true then second.solve scored
    else first.solve scored := by
  rw [solve]
  cases first.solve scored <;> rfl

theorem decidedBy_singleton (leaf : Solver) : DecidedBy scored [leaf] leaf :=
  ⟨[], [], rfl, by simp, fun _ => rfl⟩

/-- Where a leaf that sees a collision decides, all see one. -/
theorem DecidedBy.all_collide {among : List Solver} {leaf : Solver}
    (h : DecidedBy scored among leaf) (hcollides : (leaf.solve scored).isCollision = true) :
    ∀ l ∈ among, (l.solve scored).isCollision = true := by
  obtain ⟨before, after, rfl, hbefore, hafter⟩ := h
  obtain rfl := hafter hcollides
  simpa [or_imp, forall_and] using ⟨hbefore, hcollides⟩

/-- **The leaf that decides.** A tree decides as the first of its leaves that sees no collision,
or as the last one. -/
theorem exists_decidedBy (s : Solver) (scored : List Scored) :
    ∃ leaf, DecidedBy scored s.leaves leaf ∧ s.solve scored = leaf.solve scored := by
  induction s with
  | onlyOneAbove | allBelow | custom => exact ⟨_, decidedBy_singleton _, rfl⟩
  | orElse first second ihfirst ihsecond =>
      obtain ⟨leaf, hdecided, hsolve⟩ := ihfirst
      rw [solve_orElse, hsolve]
      split
      · next hcollides =>
        -- all leaves of the first part stand before the one that decides in the second
        have hall := hdecided.all_collide hcollides
        obtain ⟨leaf', ⟨before, after, hleaves, hbefore, hafter⟩, hsolve'⟩ := ihsecond
        refine ⟨leaf', ⟨first.leaves ++ before, after, ?_, ?_, hafter⟩, hsolve'⟩
        · rw [leaves, hleaves, List.append_assoc]
        · intro l hl
          exact (List.mem_append.mp hl).elim (hall l) (hbefore l)
      · next hdistinct =>
        obtain ⟨before, after, hleaves, hbefore, -⟩ := hdecided
        refine ⟨leaf, ⟨before, after ++ second.leaves, ?_, hbefore, ?_⟩, rfl⟩
        · rw [leaves, hleaves, List.append_assoc, List.cons_append]
        · exact fun hcollides => absurd hcollides hdistinct

/-- Nesting to the left or to the right is the same. -/
theorem solve_orElse_assoc : ((first.orElse second).orElse third).solve scored =
    (first.orElse (second.orElse third)).solve scored := by
  simp only [solve_orElse]
  by_cases hfirst : (first.solve scored).isCollision = true <;> simp [hfirst]

/-! ## The grounds of an outcome -/

/-- One entry reaches a threshold, and no other one does. -/
def OnlyReaching (threshold : Float) (scored : List Scored) (e : Scored) : Prop :=
  ∃ before after, scored = before ++ e :: after ∧ threshold ≤ e.2 ∧
    ∀ other ∈ before ++ after, ¬threshold ≤ other.2

/-- What a simple rule recognises in the scores. -/
inductive Recognises (scored : List Scored) : Solver → Outcome → Prop where
  /-- All scores lie below the threshold. -/
  | new {threshold : Float} (below : ∀ e ∈ scored, e.2 < threshold) :
      Recognises scored (.allBelow threshold) .new
  /-- A single score reaches the threshold. -/
  | existing {threshold : Float} {e : Scored} (only : OnlyReaching threshold scored e) :
      Recognises scored (.onlyOneAbove threshold) (.existing e.1.pgc)

/-- The leaves of a tree give grounds for an outcome. -/
inductive Justifies (s : Solver) (scored : List Scored) : Outcome → Prop where
  /-- A leaf recognises it. -/
  | recognised {leaf : Solver} {o : Outcome} (mem : leaf ∈ s.leaves)
      (recognises : Recognises scored leaf o) : Justifies s scored o
  /-- No leaf recognises anything, and all candidates collide. -/
  | collision {candidates : Keyed Int Unit}
      (unrecognised : ∀ leaf ∈ s.leaves, ∀ o, ¬Recognises scored leaf o)
      (exactly : ∀ pgc, pgc ∈ candidates.keys ↔ ∃ e ∈ scored, e.1.pgc = pgc) :
      Justifies s scored (.collision candidates)

theorem Recognises.isCollision_eq_false {leaf : Solver} {o : Outcome}
    (h : Recognises scored leaf o) : o.isCollision = false := by
  cases h <;> rfl

/-- What the first part of a tree recognises, the tree does. -/
theorem Justifies.orElse_left {o : Outcome} (h : first.Justifies scored o)
    (ho : o.isCollision = false) : (first.orElse second).Justifies scored o := by
  cases h with
  | recognised mem recognises => exact .recognised (List.mem_append_left _ mem) recognises
  | collision => cases ho

/-- Where the first part of a tree sees a collision, the second gives the grounds. -/
theorem Justifies.orElse_right {o o' : Outcome} (hfirst : first.Justifies scored o')
    (ho' : o'.isCollision = true) (h : second.Justifies scored o) :
    (first.orElse second).Justifies scored o := by
  cases hfirst with
  | recognised _ recognises => simp [recognises.isCollision_eq_false] at ho'
  | collision hnone =>
      cases h with
      | recognised mem recognises => exact .recognised (List.mem_append_right _ mem) recognises
      | collision hnone' exactly =>
          refine .collision (fun leaf hleaf => ?_) exactly
          exact (List.mem_append.mp hleaf).elim (hnone leaf) (hnone' leaf)

/-- A leaf that recognises nothing lets all candidates collide. -/
theorem justifies_collisionOfAll (hleaves : s.leaves = [s])
    (hnone : ∀ o, ¬Recognises scored s o) : s.Justifies scored (collisionOfAll scored) := by
  refine .collision ?_ fun pgc => ?_
  · rw [hleaves]
    exact List.forall_mem_singleton.mpr hnone
  · rw [Keyed.mem_keys_ofList, List.map_map, List.map_map, List.mem_map]
    rfl

theorem onlyReaching_iff {threshold : Float} {e : Scored} :
    OnlyReaching threshold scored e ↔ scored.filter (fun x => threshold ≤ x.2) = [e] := by
  simp only [OnlyReaching, List.filter_eq_cons_iff, List.filter_eq_nil_iff, decide_eq_true_iff,
    List.mem_append, or_imp, forall_and]
  constructor
  · rintro ⟨before, after, rfl, hreaches, hbefore, hafter⟩
    exact ⟨before, after, rfl, hbefore, hreaches, hafter⟩
  · rintro ⟨before, after, rfl, hbefore, hreaches, hafter⟩
    exact ⟨before, after, rfl, hreaches, hbefore, hafter⟩

/-- The entries that reach a threshold stay the same in another order. -/
theorem OnlyReaching.perm {threshold : Float} {e : Scored} (h : OnlyReaching threshold scored e)
    (hperm : scored.Perm scored') : OnlyReaching threshold scored' e := by
  rw [onlyReaching_iff] at h ⊢
  have hfilter := hperm.filter fun x => threshold ≤ x.2
  rw [h] at hfilter
  exact List.perm_singleton.mp hfilter.symm

theorem OnlyReaching.solve_eq {threshold : Float} {e : Scored}
    (h : OnlyReaching threshold scored e) :
    (onlyOneAbove threshold).solve scored = .existing e.1.pgc := by
  rw [solve, onlyReaching_iff.mp h]

theorem solve_onlyOneAbove_of_not {threshold : Float}
    (h : ∀ e, ¬OnlyReaching threshold scored e) :
    (onlyOneAbove threshold).solve scored = collisionOfAll scored := by
  rw [solve]
  split
  · next e heq => exact absurd (onlyReaching_iff.mpr heq) (h e)
  · rfl

/-- **Every outcome has its grounds**: a leaf recognises it, or none recognises anything and all
candidates collide. -/
theorem justifies_solve (hs : s.ByThresholds) (scored : List Scored) :
    s.Justifies scored (s.solve scored) := by
  induction s with
  | onlyOneAbove threshold =>
      by_cases hone : ∃ e, OnlyReaching threshold scored e
      · obtain ⟨e, he⟩ := hone
        rw [he.solve_eq]
        exact .recognised List.mem_cons_self (.existing he)
      · -- no entry reaches the threshold, or several do
        rw [solve_onlyOneAbove_of_not (not_exists.mp hone)]
        refine justifies_collisionOfAll rfl fun o ho => ?_
        cases ho with
        | existing only => exact hone ⟨_, only⟩
  | allBelow threshold =>
      by_cases hbelow : ∀ e ∈ scored, e.2 < threshold
      · rw [solve, if_pos (by simpa using hbelow)]
        exact .recognised List.mem_cons_self (.new hbelow)
      · -- one that is not below may still not reach it, so nothing more is known of the scores
        rw [solve, if_neg (by simpa using hbelow)]
        refine justifies_collisionOfAll rfl fun o ho => ?_
        cases ho with
        | new below => exact hbelow below
  | orElse first second ihfirst ihsecond =>
      have hfirst := ihfirst hs.1
      rw [solve_orElse]
      split
      · next hcollides =>
        -- a collision of the first part means that none of its leaves recognises anything
        exact hfirst.orElse_right hcollides (ihsecond hs.2)
      · next hdistinct => exact hfirst.orElse_left (Bool.eq_false_iff.mpr hdistinct)
  | custom solve => exact hs.elim

/-- **The order of the scores does not matter.** -/
theorem solve_perm (hs : s.ByThresholds) (h : scored.Perm scored') :
    s.solve scored' = s.solve scored := by
  have hcollision : collisionOfAll scored' = collisionOfAll scored :=
    Outcome.collisionOf_perm (h.symm.map _)
  induction s with
  | onlyOneAbove threshold =>
      by_cases hone : ∃ e, OnlyReaching threshold scored e
      · obtain ⟨e, he⟩ := hone
        rw [he.solve_eq, (he.perm h).solve_eq]
      · have hnone : ∀ e, ¬OnlyReaching threshold scored' e := fun e he => hone ⟨e, he.perm h.symm⟩
        rw [solve_onlyOneAbove_of_not hnone, solve_onlyOneAbove_of_not (not_exists.mp hone),
          hcollision]
  | allBelow threshold => rw [solve, solve, h.all_eq, hcollision]
  | orElse first second ihfirst ihsecond =>
      rw [solve_orElse, solve_orElse, ihfirst hs.1, ihsecond hs.2]
  | custom solve => exact hs.elim

/-- **What a tree decides.** The outcome is that of the first leaf that sees no collision, or of
the last leaf, so that nesting does not matter. It is justified by the scores and does not depend
on their order. -/
theorem solve_of_thresholds {s : Solver} (hs : s.ByThresholds) (scored : List Scored) :
    (∃ leaf, DecidedBy scored s.leaves leaf ∧ s.solve scored = leaf.solve scored) ∧
      (∀ first second third : Solver, ((first.orElse second).orElse third).solve scored =
        (first.orElse (second.orElse third)).solve scored) ∧
      s.Justifies scored (s.solve scored) ∧
      ∀ scored' : List Scored, scored.Perm scored' → s.solve scored' = s.solve scored := by
  refine ⟨exists_decidedBy s scored, ?_, justifies_solve hs scored, ?_⟩
  · intro first second third
    exact solve_orElse_assoc
  · intro scored' hperm
    exact solve_perm hs hperm

/-- Only the last leaf recognises anything: of three entries, two of them for one object and one
without a proper score, exactly one reaches its threshold, in whatever order they are listed. -/
theorem solve_of_thresholds_last_leaf :
    let s : Solver := ((onlyOneAbove 0.9).orElse (allBelow 0.1)).orElse (onlyOneAbove 0.5)
    let scored : List Scored := [(⟨4, []⟩, 0.2), (⟨5, []⟩, 0.0 / 0.0), (⟨4, []⟩, 0.5)]
    s.ByThresholds ∧ scored.Perm scored.reverse ∧
      s.solve scored.reverse = s.solve scored ∧ (s.solve scored).text = "existing(4)" := by
  intro s scored
  have hs : s.ByThresholds := ⟨⟨trivial, trivial⟩, trivial⟩
  have hperm : scored.Perm scored.reverse := (List.reverse_perm scored).symm
  exact ⟨hs, hperm, (solve_of_thresholds hs scored).2.2.2 _ hperm, by decide +kernel⟩

end Solver

end SkyCatalog
