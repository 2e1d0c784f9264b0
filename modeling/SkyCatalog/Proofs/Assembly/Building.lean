import Mathlib.Data.List.Perm.Basic
import SkyCatalog.Proofs.Assembly.Construction
import SkyCatalog.Proofs.Json.Tidy

/-!
# Building from the fields of a configuration

The fields of a configuration are its type and what is given as arguments, in any order
(`Configured`). A registry builds a part from an object exactly if its constructor of that type
does so from these arguments (`build_object_eq_ok_iff`).
-/

namespace SkyCatalog

namespace Registry

variable {α : Type} (r : Registry α) {fields plain : List (String × Json)}
  {given given' : List (String × Argument α)} {name : String} {a : α} {v : Json}

/-- A part is built from the configuration of a part only. -/
theorem isPart_of_build (h : r.build v = .ok a) : isPart v = true := by
  cases v with
  | object fields =>
      rw [build] at h
      split at h
      · next hlookup => simp [isPart, hlookup]
      · cases h
  | _ => cases h

theorem isPart_of_toFloat? {x : Float} (h : v.toFloat? = some x) : isPart v = false := by
  cases v with
  | object fields => cases h
  | _ => rfl

/-- What a field gives as an argument: a part is built, any other value is handed on. -/
inductive Gives : String × Json → String × Argument α → Prop where
  | part {argument : String} {v : Json} {a : α} (h : r.build v = .ok a) :
      Gives (argument, v) (argument, .part a)
  | value {argument : String} {v : Json} (h : isPart v = false) :
      Gives (argument, v) (argument, .value v)

variable {r}

theorem names_of_gives (h : List.Forall₂ r.Gives plain given) :
    given.map (·.1) = plain.map (·.1) := by
  induction h with
  | nil => rfl
  | cons first _ ih =>
      rw [List.map_cons, List.map_cons, ih]
      cases first <;> rfl

theorem gives_iff_of_isPart {argument : String} {b : String × Argument α}
    (h : isPart v = true) :
    r.Gives (argument, v) b ↔ ∃ a, r.build v = .ok a ∧ b = (argument, .part a) := by
  constructor
  · rintro (hbuild | hvalue)
    · exact ⟨_, hbuild, rfl⟩
    · simp [h] at hvalue
  · rintro ⟨a, hbuild, rfl⟩
    exact .part hbuild

theorem gives_iff_of_not_isPart {argument : String} {b : String × Argument α}
    (h : isPart v = false) : r.Gives (argument, v) b ↔ b = (argument, .value v) := by
  constructor
  · rintro (hbuild | hvalue)
    · simp [isPart_of_build r hbuild] at h
    · rfl
  · rintro rfl
    exact .value h

theorem buildArguments_eq_ok_iff : r.buildArguments fields = .ok given ↔
    List.Forall₂ r.Gives (fields.filter (·.1 ≠ "type")) given := by
  induction fields generalizing given with
  | nil =>
      rw [buildArguments, List.filter_nil, List.forall₂_nil_left_iff]
      simp [eq_comm]
  | cons field rest ih =>
      obtain ⟨argument, v⟩ := field
      by_cases htype : argument = "type"
      · rw [buildArguments, if_pos htype, List.filter_cons_of_neg (by simpa using htype), ih]
      · rw [buildArguments, if_neg htype, List.filter_cons_of_pos (by simpa using htype),
          List.forall₂_cons_left_iff]
        cases hpart : isPart v with
        | true =>
            simp only [if_true, bind_eq_ok_iff, map_eq_ok_iff, gives_iff_of_isPart hpart, ih]
            constructor
            · rintro ⟨-, ⟨a, ha, rfl⟩, others, hothers, hgiven⟩
              cases hgiven
              exact ⟨_, others, ⟨a, ha, rfl⟩, hothers, rfl⟩
            · rintro ⟨-, others, ⟨a, ha, rfl⟩, hothers, rfl⟩
              exact ⟨_, ⟨a, ha, rfl⟩, others, hothers, rfl⟩
        | false =>
            simp only [Bool.false_eq_true, if_false, bind_eq_ok_iff,
              gives_iff_of_not_isPart hpart, ih]
            constructor
            · rintro ⟨b, hvalue, others, hothers, hgiven⟩
              cases hvalue
              cases hgiven
              exact ⟨_, others, rfl, hothers, rfl⟩
            · rintro ⟨-, others, rfl, hothers, rfl⟩
              exact ⟨_, rfl, others, hothers, rfl⟩

/-- The fields of an object are its type and what gives the arguments, in any order. -/
def Configured (r : Registry α) (fields : List (String × Json)) (name : String)
    (given : List (String × Argument α)) : Prop :=
  ∃ plain, fields.Perm (("type", .text name) :: plain) ∧ List.Forall₂ r.Gives plain given

theorem Configured.perm (h : Configured r fields name given) (hperm : given.Perm given') :
    Configured r fields name given' := by
  obtain ⟨plain, hfields, hgives⟩ := h
  have hcomp : Relation.Comp (List.Forall₂ r.Gives) List.Perm plain given' := ⟨given, hgives, hperm⟩
  rw [List.forall₂_comp_perm_eq_perm_comp_forall₂] at hcomp
  obtain ⟨plain', hplain, hgives'⟩ := hcomp
  exact ⟨plain', hfields.trans (hplain.cons _), hgives'⟩

theorem Configured.nodup (h : Configured r fields name given)
    (hfields : (fields.map (·.1)).Nodup) : (given.map (·.1)).Nodup := by
  obtain ⟨plain, hperm, hgives⟩ := h
  rw [names_of_gives hgives]
  have hnodup := (hperm.map (·.1)).nodup_iff.mp hfields
  exact (List.nodup_cons.mp hnodup).2

/-- The order in which arguments are given does not matter. -/
theorem construct_perm {c : Construction α α} (h : given.Perm given')
    (hgiven : (given.map (·.1)).Nodup) : construct name c given = construct name c given' := by
  have hgiven' : (given'.map (·.1)).Nodup := (h.map (·.1)).nodup_iff.mp hgiven
  have hsame : Keyed.ofList given = Keyed.ofList given' := by
    refine Keyed.ext_mem fun e => ?_
    rw [(Keyed.perm_entries_ofList hgiven).mem_iff, (Keyed.perm_entries_ofList hgiven').mem_iff,
      h.mem_iff]
  rw [construct, construct, hsame]

/-- The arguments that the fields give one after the other. -/
theorem configured_iff (hfields : (fields.map (·.1)).Nodup) :
    Configured r fields name given ↔ Json.lookup "type" fields = some (.text name) ∧
      ∃ listed, r.buildArguments fields = .ok listed ∧ listed.Perm given := by
  rw [Json.lookup_eq_some_iff hfields]
  constructor
  · rintro ⟨plain, hperm, hgives⟩
    have hnodup := (hperm.map (·.1)).nodup_iff.mp hfields
    refine ⟨hperm.mem_iff.mpr List.mem_cons_self, ?_⟩
    -- the type is none of the other fields
    have hplain : plain.filter (·.1 ≠ "type") = plain := by
      refine List.filter_eq_self.mpr fun field hfield => ?_
      have hne : field.1 ≠ "type" := fun htype =>
        (List.nodup_cons.mp hnodup).1 (List.mem_map.mpr ⟨field, hfield, htype⟩)
      simpa using hne
    have hfilter := hperm.filter (·.1 ≠ "type")
    rw [List.filter_cons_of_neg (by simp), hplain] at hfilter
    obtain ⟨listed, hlisted, hgiven⟩ := List.perm_comp_forall₂ hfilter hgives
    exact ⟨listed, buildArguments_eq_ok_iff.mpr hlisted, hgiven⟩
  · rintro ⟨hmem, listed, hlisted, hgiven⟩
    have hsplit := perm_cons_filter hfields hmem fun field =>
      decide_eq_true_iff (p := field.1 ≠ "type")
    exact Configured.perm ⟨_, hsplit, buildArguments_eq_ok_iff.mp hlisted⟩ hgiven

/-- A part that is built from an object is made by the constructor of its type, from the arguments
that the other fields give. -/
theorem build_object_cases (h : r.build (.object fields) = .ok a) :
    ∃ name c given, Json.lookup "type" fields = some (.text name) ∧
      r.constructors.get? name = some c ∧ r.buildArguments fields = .ok given ∧
      construct name c given = .ok a := by
  rw [build] at h
  split at h
  · next name hlookup =>
    split at h
    · next c hc =>
      obtain ⟨given, hgiven, hconstruct⟩ := bind_eq_ok_iff.mp h
      exact ⟨name, c, given, hlookup, hc, hgiven, hconstruct⟩
    · cases h
  · cases h

theorem exists_type_of_build (hnames : (fields.map (·.1)).Nodup)
    (h : r.build (.object fields) = .ok a) :
    ∃ name c, ("type", .text name) ∈ fields ∧ r.constructors.get? name = some c := by
  obtain ⟨name, c, -, hlookup, hc, -⟩ := build_object_cases h
  exact ⟨name, c, (Json.lookup_eq_some_iff hnames).mp hlookup, hc⟩

/-- A constructor builds a part from an object of its type exactly if it makes the part of the
arguments that the other fields give. -/
theorem build_object_iff {c : Construction α α} (hnames : (fields.map (·.1)).Nodup)
    (htype : ("type", .text name) ∈ fields) (hc : r.constructors.get? name = some c) :
    r.build (.object fields) = .ok a ↔
      ∃ given, Configured r fields name given ∧ construct name c given = .ok a := by
  have hlookup := (Json.lookup_eq_some_iff hnames).mpr htype
  have hbuild : r.build (.object fields) = r.buildArguments fields >>= construct name c := by
    rw [build, hlookup]
    simp only [hc]
  rw [hbuild, bind_eq_ok_iff]
  constructor
  · rintro ⟨given, hgiven, hconstruct⟩
    exact ⟨given, (configured_iff hnames).mpr ⟨hlookup, given, hgiven, .refl _⟩, hconstruct⟩
  · rintro ⟨given, hconfigured, hconstruct⟩
    obtain ⟨-, listed, hlisted, hperm⟩ := (configured_iff hnames).mp hconfigured
    refine ⟨listed, hlisted, ?_⟩
    rw [← hconstruct]
    exact (construct_perm hperm.symm (hconfigured.nodup hnames)).symm

/-! ## Objects with given fields -/

/-- An object whose fields are a type and others, all of different names. -/
theorem names_of_perm (h : fields.Perm (("type", .text name) :: plain))
    (hplain : ("type" :: plain.map (·.1)).Nodup) :
    (fields.map (·.1)).Nodup ∧ ("type", .text name) ∈ fields :=
  ⟨(h.map Prod.fst).nodup_iff.mpr hplain, h.mem_iff.mpr List.mem_cons_self⟩

section Shapes

variable {first second : String} {check : Construction α Float} {good : Float → Bool}

/-- An object with one number. -/
theorem build_number_iff {f : Float → α} (hnames : (fields.map (·.1)).Nodup)
    (htype : ("type", .text name) ∈ fields)
    (hc : r.constructors.get? name = some (do return f (← check)))
    (hcheck : Construction.Checks check first good) :
    r.build (.object fields) = .ok a ↔ ∃ v x,
      fields.Perm [("type", .text name), (first, v)] ∧ v.toFloat? = some x ∧ good x = true ∧
        a = f x := by
  rw [build_object_iff hnames htype hc]
  constructor
  · rintro ⟨given, hconfigured, hconstruct⟩
    obtain ⟨v, x, hperm, hv, hgood, rfl⟩ :=
      (construct_number_iff (hconfigured.nodup hnames) hcheck).mp hconstruct
    obtain ⟨plain, hfields, hgives⟩ := hconfigured.perm hperm
    cases hgives with
    | cons hfirst hrest =>
      cases hfirst
      cases hrest
      exact ⟨v, x, hfields, hv, hgood, rfl⟩
  · rintro ⟨v, x, hfields, hv, hgood, rfl⟩
    have hconfigured : Configured r fields name [(first, .value v)] :=
      ⟨_, hfields, .cons (.value (isPart_of_toFloat? hv)) .nil⟩
    exact ⟨_, hconfigured, (construct_number_iff (hconfigured.nodup hnames) hcheck).mpr
      ⟨v, x, .refl _, hv, hgood, rfl⟩⟩

/-- An object with one part. -/
theorem build_part_iff {f : α → α} (hnames : (fields.map (·.1)).Nodup)
    (htype : ("type", .text name) ∈ fields)
    (hc : r.constructors.get? name = some (do return f (← Construction.part first))) :
    r.build (.object fields) = .ok a ↔ ∃ v b,
      fields.Perm [("type", .text name), (first, v)] ∧ r.build v = .ok b ∧ a = f b := by
  rw [build_object_iff hnames htype hc]
  constructor
  · rintro ⟨given, hconfigured, hconstruct⟩
    obtain ⟨b, hperm, rfl⟩ := (construct_part_iff (hconfigured.nodup hnames)).mp hconstruct
    obtain ⟨plain, hfields, hgives⟩ := hconfigured.perm hperm
    cases hgives with
    | cons hfirst hrest =>
      cases hfirst with
      | part hbuild =>
        cases hrest
        exact ⟨_, b, hfields, hbuild, rfl⟩
  · rintro ⟨v, b, hfields, hbuild, rfl⟩
    have hconfigured : Configured r fields name [(first, .part b)] :=
      ⟨_, hfields, .cons (.part hbuild) .nil⟩
    exact ⟨_, hconfigured, (construct_part_iff (hconfigured.nodup hnames)).mpr
      ⟨b, .refl _, rfl⟩⟩

/-- An object with two parts. -/
theorem build_parts_iff {f : α → α → α} (hnames : (fields.map (·.1)).Nodup)
    (htype : ("type", .text name) ∈ fields)
    (hc : r.constructors.get? name = some (do
      let left ← Construction.part first
      let right ← Construction.part second
      return f left right)) :
    r.build (.object fields) = .ok a ↔ ∃ v w b c,
      fields.Perm [("type", .text name), (first, v), (second, w)] ∧ r.build v = .ok b ∧
        r.build w = .ok c ∧ a = f b c := by
  rw [build_object_iff hnames htype hc]
  constructor
  · rintro ⟨given, hconfigured, hconstruct⟩
    obtain ⟨b, c, hperm, rfl⟩ := (construct_parts_iff (hconfigured.nodup hnames)).mp hconstruct
    obtain ⟨plain, hfields, hgives⟩ := hconfigured.perm hperm
    cases hgives with
    | cons hfirst hrest =>
      cases hfirst with
      | part hbuild =>
        cases hrest with
        | cons hsecond hrest =>
          cases hsecond with
          | part hbuild' =>
            cases hrest
            exact ⟨_, _, b, c, hfields, hbuild, hbuild', rfl⟩
  · rintro ⟨v, w, b, c, hfields, hbuild, hbuild', rfl⟩
    have hconfigured : Configured r fields name [(first, .part b), (second, .part c)] :=
      ⟨_, hfields, .cons (.part hbuild) (.cons (.part hbuild') .nil)⟩
    exact ⟨_, hconfigured, (construct_parts_iff (hconfigured.nodup hnames)).mpr
      ⟨b, c, .refl _, rfl⟩⟩

/-- An object with one number and a truth value that may be left out. -/
theorem build_number_truthOr_iff {default : Bool} {f : Float → Bool → α}
    (hnames : (fields.map (·.1)).Nodup) (htype : ("type", .text name) ∈ fields)
    (hc : r.constructors.get? name = some (do
      let x ← check
      let b ← Construction.truthOr second default
      return f x b))
    (hcheck : Construction.Checks check first good) :
    r.build (.object fields) = .ok a ↔ ∃ v x b, v.toFloat? = some x ∧ good x = true ∧ a = f x b ∧
      (fields.Perm [("type", .text name), (first, v), (second, .bool b)] ∨
        b = default ∧ fields.Perm [("type", .text name), (first, v)]) := by
  rw [build_object_iff hnames htype hc]
  constructor
  · rintro ⟨given, hconfigured, hconstruct⟩
    obtain ⟨v, x, b, hv, hgood, rfl, hperm⟩ :=
      (construct_number_truthOr_iff (hconfigured.nodup hnames) hcheck).mp hconstruct
    refine ⟨v, x, b, hv, hgood, rfl, ?_⟩
    rcases hperm with hperm | ⟨hdefault, hperm⟩
    · obtain ⟨plain, hfields, hgives⟩ := hconfigured.perm hperm
      cases hgives with
      | cons hfirst hrest =>
        cases hfirst
        cases hrest with
        | cons hsecond hrest =>
          cases hsecond
          cases hrest
          exact Or.inl hfields
    · obtain ⟨plain, hfields, hgives⟩ := hconfigured.perm hperm
      cases hgives with
      | cons hfirst hrest =>
        cases hfirst
        cases hrest
        exact Or.inr ⟨hdefault, hfields⟩
  · rintro ⟨v, x, b, hv, hgood, rfl, hfields | ⟨hdefault, hfields⟩⟩
    · have hconfigured : Configured r fields name [(first, .value v), (second, .value (.bool b))] :=
        ⟨_, hfields, .cons (.value (isPart_of_toFloat? hv)) (.cons (.value rfl) .nil)⟩
      exact ⟨_, hconfigured, (construct_number_truthOr_iff (hconfigured.nodup hnames) hcheck).mpr
        ⟨v, x, b, hv, hgood, rfl, Or.inl (.refl _)⟩⟩
    · have hconfigured : Configured r fields name [(first, .value v)] :=
        ⟨_, hfields, .cons (.value (isPart_of_toFloat? hv)) .nil⟩
      exact ⟨_, hconfigured, (construct_number_truthOr_iff (hconfigured.nodup hnames) hcheck).mpr
        ⟨v, x, b, hv, hgood, rfl, Or.inr ⟨hdefault, .refl _⟩⟩⟩

end Shapes

end Registry

end SkyCatalog
