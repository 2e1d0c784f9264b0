import SkyCatalog.Crossmatch.Matcher
import SkyCatalog.Crossmatch.Solver
import SkyCatalog.Proofs.Assembly.Building

/-!
# Configurations and the trees they build

A value configures a matcher if it writes the tree of it, each part as an object with its type
and its arguments and with no other field (`Matcher.Configures`). The registry builds a matcher
from a value exactly if the value configures it, and each matcher whose numbers lie in their
ranges is configured by some value (`Matcher.configures_configuration`). The same holds for
solvers. The main statement is `configurations_and_trees`.
-/

namespace SkyCatalog

/-- A finite number that is not negative. -/
def isNotNegative (x : Float) : Bool :=
  x.isFinite && 0.0 ≤ x

/-- A number from 0 to 1. -/
def isScore (x : Float) : Bool :=
  0.0 ≤ x && x ≤ 1.0

/-- The value is the number `x`, which passes a test. -/
def Json.Denotes (v : Json) (good : Float → Bool) (x : Float) : Prop :=
  v.toFloat? = some x ∧ good x = true

namespace Matcher

/-- A tree of the kinds that the registry knows, with its numbers in their ranges. -/
def Admissible : Matcher → Prop
  | .circle radius => isNotNegative radius = true
  | .names maxDistance _ => isNotNegative maxDistance = true
  | .velocity tolerance => isNotNegative tolerance = true
  | .constant score => isScore score = true
  | .both left right => left.Admissible ∧ right.Admissible
  | .ifNamed inner => inner.Admissible
  | .ifVelocity inner => inner.Admissible
  | .custom _ => False

/-- The configuration that writes a tree. -/
def configuration : Matcher → Json
  | .circle radius => .object [("radius_arcsec", .real radius), ("type", .text "circle")]
  | .names maxDistance ignoreCase =>
      .object [("ignore_case", .bool ignoreCase), ("max_distance", .real maxDistance),
        ("type", .text "levenshtein")]
  | .velocity tolerance =>
      .object [("type", .text "velocity_close"), ("velocity_variance", .real tolerance)]
  | .constant score => .object [("type", .text "constant"), ("value", .real score)]
  | .both left right =>
      .object [("matcher1", left.configuration), ("matcher2", right.configuration),
        ("type", .text "and")]
  | .ifNamed inner =>
      .object [("matcher", inner.configuration), ("type", .text "ignore_no_name")]
  | .ifVelocity inner =>
      .object [("matcher", inner.configuration), ("type", .text "ignore_no_redshift")]
  | .custom _ => .null

/-- A value writes a tree: its fields are the type and the arguments, in any order. -/
inductive Configures : Json → Matcher → Prop where
  | circle {fields : List (String × Json)} {v : Json} {x : Float}
      (exactly : fields.Perm [("type", .text "circle"), ("radius_arcsec", v)])
      (number : v.Denotes isNotNegative x) : Configures (.object fields) (.circle x)
  | names {fields : List (String × Json)} {v : Json} {x : Float} {b : Bool}
      (exactly : fields.Perm [("type", .text "levenshtein"), ("max_distance", v),
        ("ignore_case", .bool b)])
      (number : v.Denotes isNotNegative x) : Configures (.object fields) (.names x b)
  /-- Case matters if nothing is said about it. -/
  | namesInCase {fields : List (String × Json)} {v : Json} {x : Float}
      (exactly : fields.Perm [("type", .text "levenshtein"), ("max_distance", v)])
      (number : v.Denotes isNotNegative x) : Configures (.object fields) (.names x false)
  | velocity {fields : List (String × Json)} {v : Json} {x : Float}
      (exactly : fields.Perm [("type", .text "velocity_close"), ("velocity_variance", v)])
      (number : v.Denotes isNotNegative x) : Configures (.object fields) (.velocity x)
  | constant {fields : List (String × Json)} {v : Json} {x : Float}
      (exactly : fields.Perm [("type", .text "constant"), ("value", v)])
      (number : v.Denotes isScore x) : Configures (.object fields) (.constant x)
  | both {fields : List (String × Json)} {v w : Json} {left right : Matcher}
      (exactly : fields.Perm [("type", .text "and"), ("matcher1", v), ("matcher2", w)])
      (first : Configures v left) (second : Configures w right) :
      Configures (.object fields) (.both left right)
  | ifNamed {fields : List (String × Json)} {v : Json} {inner : Matcher}
      (exactly : fields.Perm [("type", .text "ignore_no_name"), ("matcher", v)])
      (part : Configures v inner) : Configures (.object fields) (.ifNamed inner)
  | ifVelocity {fields : List (String × Json)} {v : Json} {inner : Matcher}
      (exactly : fields.Perm [("type", .text "ignore_no_redshift"), ("matcher", v)])
      (part : Configures v inner) : Configures (.object fields) (.ifVelocity inner)

theorem configures_configuration {m : Matcher} (h : m.Admissible) :
    Configures m.configuration m := by
  induction m with
  | circle radius => exact .circle (.swap _ _ _) ⟨rfl, h⟩
  | names maxDistance ignoreCase => exact .names (List.reverse_perm [_, _, _]) ⟨rfl, h⟩
  | velocity tolerance => exact .velocity (.refl _) ⟨rfl, h⟩
  | constant score => exact .constant (.refl _) ⟨rfl, h⟩
  | both left right ihleft ihright =>
      exact .both (List.perm_append_singleton _ [_, _]) (ihleft h.1) (ihright h.2)
  | ifNamed inner ih => exact .ifNamed (.swap _ _ _) (ih h)
  | ifVelocity inner ih => exact .ifVelocity (.swap _ _ _) (ih h)
  | custom score => exact h.elim

/-- The constructors that the registry holds. -/
theorem get?_constructors_iff {name : String} {c : Construction Matcher Matcher} :
    registry.constructors.get? name = some c ↔
      (name = "circle" ∧ c = do return .circle (← notNegative "radius_arcsec")) ∨
      (name = "levenshtein" ∧ c = do
        let maxDistance ← notNegative "max_distance"
        let ignoreCase ← Construction.truthOr "ignore_case" false
        return .names maxDistance ignoreCase) ∨
      (name = "velocity_close" ∧ c = do return .velocity (← notNegative "velocity_variance")) ∨
      (name = "constant" ∧ c = do return .constant (← scoreArgument "value")) ∨
      (name = "and" ∧ c = do
        let left ← Construction.part "matcher1"
        let right ← Construction.part "matcher2"
        return .both left right) ∨
      (name = "ignore_no_name" ∧ c = do return .ifNamed (← Construction.part "matcher")) ∨
      (name = "ignore_no_redshift" ∧ c = do return .ifVelocity (← Construction.part "matcher")) := by
  rw [registry, Registry.ofList, Keyed.get?_ofList_eq_some_iff (by decide)]
  simp only [List.mem_cons, Prod.mk.injEq, List.not_mem_nil, or_false]

theorem checks_notNegative (argument : String) :
    Construction.Checks (notNegative argument) argument isNotNegative :=
  Construction.checks_number isNotNegative .negative

theorem checks_scoreArgument (argument : String) :
    Construction.Checks (scoreArgument argument) argument isScore :=
  Construction.checks_number isScore .scoreOutside

/-- What is built from a value is the tree that the value writes. -/
theorem configures_of_build {v : Json} {m : Matcher} (hv : v.Distinct)
    (h : registry.build v = .ok m) : Configures v m := by
  -- by induction on the value: the parts are built from the values of its fields
  induction hv generalizing m with
  | object names values ih =>
    obtain ⟨name, c, htype, hc⟩ := Registry.exists_type_of_build names h
    rcases get?_constructors_iff.mp hc with ⟨rfl, rfl⟩ | ⟨rfl, rfl⟩ | ⟨rfl, rfl⟩ | ⟨rfl, rfl⟩ |
      ⟨rfl, rfl⟩ | ⟨rfl, rfl⟩ | ⟨rfl, rfl⟩
    · obtain ⟨v, x, hfields, hv, hx, rfl⟩ :=
        (Registry.build_number_iff names htype hc (checks_notNegative _)).mp h
      exact .circle hfields ⟨hv, hx⟩
    · obtain ⟨v, x, b, hv, hx, rfl, hfields | ⟨rfl, hfields⟩⟩ :=
        (Registry.build_number_truthOr_iff names htype hc (checks_notNegative _)).mp h
      · exact .names hfields ⟨hv, hx⟩
      · exact .namesInCase hfields ⟨hv, hx⟩
    · obtain ⟨v, x, hfields, hv, hx, rfl⟩ :=
        (Registry.build_number_iff names htype hc (checks_notNegative _)).mp h
      exact .velocity hfields ⟨hv, hx⟩
    · obtain ⟨v, x, hfields, hv, hx, rfl⟩ :=
        (Registry.build_number_iff names htype hc (checks_scoreArgument _)).mp h
      exact .constant hfields ⟨hv, hx⟩
    · obtain ⟨v, w, left, right, hfields, hleft, hright, rfl⟩ :=
        (Registry.build_parts_iff names htype hc).mp h
      have hv : ("matcher1", v) ∈ _ := hfields.mem_iff.mpr (by simp)
      have hw : ("matcher2", w) ∈ _ := hfields.mem_iff.mpr (by simp)
      exact .both hfields (ih _ hv hleft) (ih _ hw hright)
    · obtain ⟨v, inner, hfields, hinner, rfl⟩ := (Registry.build_part_iff names htype hc).mp h
      have hv : ("matcher", v) ∈ _ := hfields.mem_iff.mpr (by simp)
      exact .ifNamed hfields (ih _ hv hinner)
    · obtain ⟨v, inner, hfields, hinner, rfl⟩ := (Registry.build_part_iff names htype hc).mp h
      have hv : ("matcher", v) ∈ _ := hfields.mem_iff.mpr (by simp)
      exact .ifVelocity hfields (ih _ hv hinner)
  | null | bool | int | real | text | array => cases h

/-- From a value that writes a tree the tree is built. -/
theorem build_of_configures {v : Json} {m : Matcher} (h : Configures v m) :
    registry.build v = .ok m := by
  induction h with
  | circle hfields hx =>
      obtain ⟨hnames, htype⟩ := Registry.names_of_perm hfields (by simp)
      exact (Registry.build_number_iff hnames htype rfl
        (checks_notNegative _)).mpr ⟨_, _, hfields, hx.1, hx.2, rfl⟩
  | names hfields hx =>
      obtain ⟨hnames, htype⟩ := Registry.names_of_perm hfields (by simp)
      exact (Registry.build_number_truthOr_iff hnames htype rfl
        (checks_notNegative _)).mpr ⟨_, _, _, hx.1, hx.2, rfl, Or.inl hfields⟩
  | namesInCase hfields hx =>
      obtain ⟨hnames, htype⟩ := Registry.names_of_perm hfields (by simp)
      exact (Registry.build_number_truthOr_iff hnames htype rfl
        (checks_notNegative _)).mpr ⟨_, _, _, hx.1, hx.2, rfl, Or.inr ⟨rfl, hfields⟩⟩
  | velocity hfields hx =>
      obtain ⟨hnames, htype⟩ := Registry.names_of_perm hfields (by simp)
      exact (Registry.build_number_iff hnames htype rfl
        (checks_notNegative _)).mpr ⟨_, _, hfields, hx.1, hx.2, rfl⟩
  | constant hfields hx =>
      obtain ⟨hnames, htype⟩ := Registry.names_of_perm hfields (by simp)
      exact (Registry.build_number_iff hnames htype rfl
        (checks_scoreArgument _)).mpr ⟨_, _, hfields, hx.1, hx.2, rfl⟩
  | both hfields _ _ ihleft ihright =>
      obtain ⟨hnames, htype⟩ := Registry.names_of_perm hfields (by simp)
      exact (Registry.build_parts_iff hnames htype rfl).mpr
        ⟨_, _, _, _, hfields, ihleft, ihright, rfl⟩
  | ifNamed hfields _ ih =>
      obtain ⟨hnames, htype⟩ := Registry.names_of_perm hfields (by simp)
      exact (Registry.build_part_iff hnames htype rfl).mpr
        ⟨_, _, hfields, ih, rfl⟩
  | ifVelocity hfields _ ih =>
      obtain ⟨hnames, htype⟩ := Registry.names_of_perm hfields (by simp)
      exact (Registry.build_part_iff hnames htype rfl).mpr
        ⟨_, _, hfields, ih, rfl⟩

theorem admissible_of_configures {v : Json} {m : Matcher} (h : Configures v m) :
    m.Admissible := by
  induction h with
  | circle _ hx => exact hx.2
  | names _ hx => exact hx.2
  | namesInCase _ hx => exact hx.2
  | velocity _ hx => exact hx.2
  | constant _ hx => exact hx.2
  | both _ _ _ ihleft ihright => exact ⟨ihleft, ihright⟩
  | ifNamed _ _ ih => exact ih
  | ifVelocity _ _ ih => exact ih

end Matcher

namespace Solver

/-- A tree of the kinds that the registry knows, with its numbers in their ranges. -/
def Admissible : Solver → Prop
  | .onlyOneAbove threshold => isScore threshold = true
  | .allBelow threshold => isScore threshold = true
  | .orElse first second => first.Admissible ∧ second.Admissible
  | .custom _ => False

/-- The configuration that writes a tree. -/
def configuration : Solver → Json
  | .onlyOneAbove threshold =>
      .object [("threshold", .real threshold),
        ("type", .text "existing_only_one_above_threshold")]
  | .allBelow threshold =>
      .object [("threshold", .real threshold), ("type", .text "new_all_below_threshold")]
  | .orElse first second =>
      .object [("solver1", first.configuration), ("solver2", second.configuration),
        ("type", .text "or")]
  | .custom _ => .null

/-- A value writes a tree: its fields are the type and the arguments, in any order. -/
inductive Configures : Json → Solver → Prop where
  | onlyOneAbove {fields : List (String × Json)} {v : Json} {x : Float}
      (exactly : fields.Perm [("type", .text "existing_only_one_above_threshold"),
        ("threshold", v)])
      (number : v.Denotes isScore x) : Configures (.object fields) (.onlyOneAbove x)
  | allBelow {fields : List (String × Json)} {v : Json} {x : Float}
      (exactly : fields.Perm [("type", .text "new_all_below_threshold"), ("threshold", v)])
      (number : v.Denotes isScore x) : Configures (.object fields) (.allBelow x)
  | orElse {fields : List (String × Json)} {v w : Json} {first second : Solver}
      (exactly : fields.Perm [("type", .text "or"), ("solver1", v), ("solver2", w)])
      (left : Configures v first) (right : Configures w second) :
      Configures (.object fields) (.orElse first second)

theorem configures_configuration {s : Solver} (h : s.Admissible) :
    Configures s.configuration s := by
  induction s with
  | onlyOneAbove threshold => exact .onlyOneAbove (.swap _ _ _) ⟨rfl, h⟩
  | allBelow threshold => exact .allBelow (.swap _ _ _) ⟨rfl, h⟩
  | orElse first second ihfirst ihsecond =>
      exact .orElse (List.perm_append_singleton _ [_, _]) (ihfirst h.1) (ihsecond h.2)
  | custom solve => exact h.elim

/-- The constructors that the registry holds. -/
theorem get?_constructors_iff {name : String} {c : Construction Solver Solver} :
    registry.constructors.get? name = some c ↔
      (name = "existing_only_one_above_threshold" ∧ c = do return .onlyOneAbove (← threshold)) ∨
      (name = "new_all_below_threshold" ∧ c = do return .allBelow (← threshold)) ∨
      (name = "or" ∧ c = do
        let first ← Construction.part "solver1"
        let second ← Construction.part "solver2"
        return .orElse first second) := by
  rw [registry, Registry.ofList, Keyed.get?_ofList_eq_some_iff (by decide)]
  simp only [List.mem_cons, Prod.mk.injEq, List.not_mem_nil, or_false]

theorem checks_threshold : Construction.Checks threshold "threshold" isScore :=
  Construction.checks_number isScore .thresholdOutside

/-- What is built from a value is the tree that the value writes. -/
theorem configures_of_build {v : Json} {s : Solver} (hv : v.Distinct)
    (h : registry.build v = .ok s) : Configures v s := by
  -- by induction on the value: the parts are built from the values of its fields
  induction hv generalizing s with
  | object names values ih =>
    obtain ⟨name, c, htype, hc⟩ := Registry.exists_type_of_build names h
    rcases get?_constructors_iff.mp hc with ⟨rfl, rfl⟩ | ⟨rfl, rfl⟩ | ⟨rfl, rfl⟩
    · obtain ⟨v, x, hfields, hv, hx, rfl⟩ :=
        (Registry.build_number_iff names htype hc checks_threshold).mp h
      exact .onlyOneAbove hfields ⟨hv, hx⟩
    · obtain ⟨v, x, hfields, hv, hx, rfl⟩ :=
        (Registry.build_number_iff names htype hc checks_threshold).mp h
      exact .allBelow hfields ⟨hv, hx⟩
    · obtain ⟨v, w, first, second, hfields, hfirst, hsecond, rfl⟩ :=
        (Registry.build_parts_iff names htype hc).mp h
      have hv : ("solver1", v) ∈ _ := hfields.mem_iff.mpr (by simp)
      have hw : ("solver2", w) ∈ _ := hfields.mem_iff.mpr (by simp)
      exact .orElse hfields (ih _ hv hfirst) (ih _ hw hsecond)
  | null | bool | int | real | text | array => cases h

/-- From a value that writes a tree the tree is built. -/
theorem build_of_configures {v : Json} {s : Solver} (h : Configures v s) :
    registry.build v = .ok s := by
  induction h with
  | onlyOneAbove hfields hx =>
      obtain ⟨hnames, htype⟩ := Registry.names_of_perm hfields (by simp)
      exact (Registry.build_number_iff hnames htype rfl checks_threshold).mpr
        ⟨_, _, hfields, hx.1, hx.2, rfl⟩
  | allBelow hfields hx =>
      obtain ⟨hnames, htype⟩ := Registry.names_of_perm hfields (by simp)
      exact (Registry.build_number_iff hnames htype rfl checks_threshold).mpr
        ⟨_, _, hfields, hx.1, hx.2, rfl⟩
  | orElse hfields _ _ ihfirst ihsecond =>
      obtain ⟨hnames, htype⟩ := Registry.names_of_perm hfields (by simp)
      exact (Registry.build_parts_iff hnames htype rfl).mpr
        ⟨_, _, _, _, hfields, ihfirst, ihsecond, rfl⟩

theorem admissible_of_configures {v : Json} {s : Solver} (h : Configures v s) :
    s.Admissible := by
  induction h with
  | onlyOneAbove _ hx => exact hx.2
  | allBelow _ hx => exact hx.2
  | orElse _ _ _ ihfirst ihsecond => exact ⟨ihfirst, ihsecond⟩

end Solver

/-- **Configurations and trees correspond.** Every tree with its numbers in their ranges is
built from the configuration that writes it. From a value in which no object has two fields of
one name a tree is built exactly if the value writes it; then each object has the fields of its
type and no others, at every depth, and the numbers of the tree are in their ranges. -/
theorem configurations_and_trees :
    ((∀ m : Matcher, m.Admissible → Matcher.registry.build m.configuration = .ok m) ∧
      ∀ (v : Json) (m : Matcher), v.Distinct →
        (Matcher.registry.build v = .ok m ↔ Matcher.Configures v m) ∧
        (Matcher.registry.build v = .ok m → m.Admissible)) ∧
    ((∀ s : Solver, s.Admissible → Solver.registry.build s.configuration = .ok s) ∧
      ∀ (v : Json) (s : Solver), v.Distinct →
        (Solver.registry.build v = .ok s ↔ Solver.Configures v s) ∧
        (Solver.registry.build v = .ok s → s.Admissible)) := by
  refine ⟨⟨fun m hm => ?_, fun v m hv => ⟨⟨?_, ?_⟩, fun h => ?_⟩⟩,
    ⟨fun s hs => ?_, fun v s hv => ⟨⟨?_, ?_⟩, fun h => ?_⟩⟩⟩
  · exact Matcher.build_of_configures (Matcher.configures_configuration hm)
  · exact Matcher.configures_of_build hv
  · exact Matcher.build_of_configures
  · exact Matcher.admissible_of_configures (Matcher.configures_of_build hv h)
  · exact Solver.build_of_configures (Solver.configures_configuration hs)
  · exact Solver.configures_of_build hv
  · exact Solver.build_of_configures
  · exact Solver.admissible_of_configures (Solver.configures_of_build hv h)

/-- A nested configuration, and one with a field too many inside. -/
theorem configurations_and_trees_nested :
    let inner (more : List (String × Json)) : Json :=
      .object [("matcher", .object ([("max_distance", .int 3), ("type", .text "levenshtein")] ++
        more)), ("type", .text "ignore_no_name")]
    let outer (inner : Json) : Json :=
      .object [("matcher1", .object [("radius_arcsec", .int 10), ("type", .text "circle")]),
        ("matcher2", inner), ("type", .text "and")]
    Matcher.Configures (outer (inner []))
      (.both (.circle (Float.ofInt 10)) (.ifNamed (.names (Float.ofInt 3) false))) ∧
    ¬∃ m, Matcher.Configures (outer (inner [("weight", .int 1)])) m := by
  intro inner outer
  have hfirst : (outer (inner [])).Distinct := Json.distinct_tidy (outer (inner []))
  have hsecond : (outer (inner [("weight", .int 1)])).Distinct :=
    Json.distinct_tidy (outer (inner [("weight", .int 1)]))
  refine ⟨(configurations_and_trees.1.2 _ _ hfirst).1.mp rfl, ?_⟩
  rintro ⟨m, hm⟩
  have hbuild := (configurations_and_trees.1.2 _ _ hsecond).1.mpr hm
  cases hbuild

end SkyCatalog
