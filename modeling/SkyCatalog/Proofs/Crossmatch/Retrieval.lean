import SkyCatalog.Proofs.Crossmatch.Candidates
import SkyCatalog.Proofs.Holdings

/-!
# What the searches of a record retrieve

A record is searched for by its first name and its first position, while matchers compare all
names and all positions of both sides. Where the catalogue has no identifier twice and the limit
cuts nothing off, the candidates are exactly the objects that carry the first name or lie near
the first position (`candidates_iff_searchedFor`). That is every object that is related to the
record if its names differ in the case of letters at most and its positions are at one place;
an alias that is not the first name is missed otherwise (`candidates_miss_alias`).
-/

namespace SkyCatalog

theorem Text.eqIgnoringCase_trans {a b c : String} (hab : eqIgnoringCase a b = true)
    (hbc : eqIgnoringCase b c = true) : eqIgnoringCase a c = true := by
  simp only [eqIgnoringCase, beq_iff_eq] at hab hbc ⊢
  exact hab.trans hbc

/-! ## Records of one name at one place -/

namespace Record

/-- The names of the record differ in the case of ASCII letters at most. -/
def OfOneName (r : Record) : Prop :=
  ∀ d ∈ Holdings.designations r, ∀ d' ∈ Holdings.designations r,
    Text.eqIgnoringCase d.name d'.name = true

/-- The positions of the record are at one place. -/
def AtOnePlace (r : Record) : Prop :=
  ∀ p ∈ Holdings.positions r, ∀ q ∈ Holdings.positions r, p.ra = q.ra ∧ p.dec = q.dec

instance (r : Record) : Decidable r.OfOneName :=
  inferInstanceAs (Decidable (∀ d ∈ Holdings.designations r, ∀ d' ∈ Holdings.designations r,
    Text.eqIgnoringCase d.name d'.name = true))

instance (r : Record) : Decidable r.AtOnePlace :=
  inferInstanceAs (Decidable (∀ p ∈ Holdings.positions r, ∀ q ∈ Holdings.positions r,
    p.ra = q.ra ∧ p.dec = q.dec))

end Record

/-! ## What an object has in common with a record -/

namespace ReferenceObject

/-- The object carries a name, whatever the case of its ASCII letters. -/
def Carries (o : ReferenceObject) (name : String) : Prop :=
  ∃ d ∈ Holdings.designations o, Text.eqIgnoringCase d.name name = true

/-- A position of the object lies within a radius of another. -/
def LiesNear (o : ReferenceObject) (radius : Float) (p : Position) : Prop :=
  ∃ q ∈ Holdings.positions o, Sky.separation q.ra q.dec p.ra p.dec ≤ radius

theorem Carries.of_eqIgnoringCase {o : ReferenceObject} {name name' : String}
    (h : o.Carries name) (heq : Text.eqIgnoringCase name name' = true) : o.Carries name' := by
  obtain ⟨d, hd, hname⟩ := h
  exact ⟨d, hd, Text.eqIgnoringCase_trans hname heq⟩

end ReferenceObject

theorem Search.accepts_name_iff {o : ReferenceObject} {wanted : String} :
    (Search.name wanted).accepts o = true ↔ o.Carries wanted := by
  simp [Search.accepts, ReferenceObject.Carries]

theorem Search.accepts_cone_iff {o : ReferenceObject} {p : Position} {radius : Float} :
    (Search.cone p.ra p.dec radius).accepts o = true ↔ o.LiesNear radius p := by
  simp [Search.accepts, ReferenceObject.LiesNear]

namespace Identification

variable (i : Identification)

/-- An object is related to a record: it carries one of the names, or lies near one of the
positions. -/
def Related (r : Record) (o : ReferenceObject) : Prop :=
  (∃ d ∈ Holdings.designations r, o.Carries d.name) ∨
    ∃ p ∈ Holdings.positions r, o.LiesNear i.searchRadius p

/-- An object is searched for: it carries the first of the names, or lies near the first of the
positions. -/
def SearchedFor (r : Record) (o : ReferenceObject) : Prop :=
  (∃ d ∈ (Holdings.designations r).head?, o.Carries d.name) ∨
    ∃ p ∈ (Holdings.positions r).head?, o.LiesNear i.searchRadius p

variable {i} {r : Record} {o : ReferenceObject} {catalogue : List ReferenceObject}

theorem SearchedFor.related (h : i.SearchedFor r o) : i.Related r o := by
  rcases h with ⟨d, hd, hcarries⟩ | ⟨p, hp, hnear⟩
  · exact Or.inl ⟨d, List.mem_of_mem_head? hd, hcarries⟩
  · exact Or.inr ⟨p, List.mem_of_mem_head? hp, hnear⟩

/-- A record of one name at one place has nothing that is not searched for. -/
theorem Related.searchedFor (h : i.Related r o) (hname : r.OfOneName) (hplace : r.AtOnePlace) :
    i.SearchedFor r o := by
  rcases h with ⟨d, hd, hcarries⟩ | ⟨p, hp, hnear⟩
  · -- the first name is the same but for the case of letters
    let first := (Holdings.designations r).head (List.ne_nil_of_mem hd)
    have hfirst : first ∈ (Holdings.designations r).head? := List.head_mem_head? _
    refine Or.inl ⟨first, hfirst, ?_⟩
    exact hcarries.of_eqIgnoringCase (hname d hd first (List.mem_of_mem_head? hfirst))
  · let first := (Holdings.positions r).head (List.ne_nil_of_mem hp)
    have hfirst : first ∈ (Holdings.positions r).head? := List.head_mem_head? _
    refine Or.inr ⟨first, hfirst, ?_⟩
    obtain ⟨q, hq, hle⟩ := hnear
    obtain ⟨hra, hdec⟩ := hplace p hp first (List.mem_of_mem_head? hfirst)
    rw [hra, hdec] at hle
    exact ⟨q, hq, hle⟩

theorem exists_search_accepts_iff :
    (∃ s ∈ i.searches r, s.accepts o = true) ↔ i.SearchedFor r o := by
  simp only [searches, List.mem_append, Option.mem_toList, Option.map_eq_some_iff, or_and_right,
    exists_or, Record.designation?_eq_head?, Record.position?_eq_head?, SearchedFor]
  refine or_congr ?_ ?_
  · constructor
    · rintro ⟨-, ⟨d, hd, rfl⟩, haccepts⟩
      exact ⟨d, hd, Search.accepts_name_iff.mp haccepts⟩
    · rintro ⟨d, hd, hcarries⟩
      exact ⟨_, ⟨d, hd, rfl⟩, Search.accepts_name_iff.mpr hcarries⟩
  · constructor
    · rintro ⟨-, ⟨p, hp, rfl⟩, haccepts⟩
      exact ⟨p, hp, Search.accepts_cone_iff.mp haccepts⟩
    · rintro ⟨p, hp, hnear⟩
      exact ⟨_, ⟨p, hp, rfl⟩, Search.accepts_cone_iff.mpr hnear⟩

/-! ## The candidates -/

/-- If the limit cuts nothing off, a search finds all that it looks for. -/
theorem mem_pool_iff (hlimit : catalogue.length ≤ i.candidateLimit) :
    o ∈ i.pool catalogue r ↔ o ∈ catalogue ∧ i.SearchedFor r o := by
  have hall : ∀ s : Search, i.found catalogue s = catalogue.filter fun o => s.accepts o := by
    intro s
    exact List.take_of_length_le ((List.length_filter_le _ _).trans hlimit)
  simp only [pool, hall, List.mem_flatMap, List.mem_filter, ← exists_search_accepts_iff]
  constructor
  · rintro ⟨s, hs, hmem, haccepts⟩
    exact ⟨hmem, s, hs, haccepts⟩
  · rintro ⟨hmem, s, hs, haccepts⟩
    exact ⟨s, hs, hmem, haccepts⟩

/-- Where no identifier stands twice in the catalogue, pooling drops no object. -/
theorem mem_candidates_iff_mem_pool (hpgc : (catalogue.map (·.pgc)).Nodup)
    (hlimit : catalogue.length ≤ i.candidateLimit) :
    o ∈ i.candidates catalogue r ↔ o ∈ i.pool catalogue r := by
  rw [mem_candidates]
  constructor
  · exact List.mem_of_find?_eq_some
  · intro hmem
    have hfound : ((i.pool catalogue r).find? (·.pgc = o.pgc)).isSome = true :=
      List.find?_isSome.mpr ⟨o, hmem, by simp⟩
    obtain ⟨first, hfirst⟩ := Option.isSome_iff_exists.mp hfound
    -- the first object of the identifier is in the catalogue, and so it is the same
    have hsame : first = o := by
      apply List.inj_on_of_nodup_map hpgc
      · exact ((mem_pool_iff hlimit).mp (List.mem_of_find?_eq_some hfirst)).1
      · exact ((mem_pool_iff hlimit).mp hmem).1
      · simpa using List.find?_some hfirst
    rw [hfirst, hsame]

/-- **The candidates are the objects that are searched for.** In a catalogue without repeated
identifiers, and with a limit that it does not exceed, a record is decided on with exactly the
objects that carry its first name or lie near its first position. All of them are related to
the record, and they are all that are if the record is of one name and at one place. -/
theorem candidates_iff_searchedFor (i : Identification) {catalogue : List ReferenceObject}
    (hpgc : (catalogue.map (·.pgc)).Nodup) (hlimit : catalogue.length ≤ i.candidateLimit)
    {records : List Record} (hids : (records.map (·.id)).Nodup) {r : Record} (hr : r ∈ records) :
    ∃ candidates : List ReferenceObject,
      (i.identify catalogue records).get? r.id =
        some (i.solver.solve (candidates.map fun o => (o, i.matcher.score r o))) ∧
      (∀ o, o ∈ candidates ↔ o ∈ catalogue ∧ i.SearchedFor r o) ∧
      (∀ o ∈ candidates, i.Related r o) ∧
      (r.OfOneName → r.AtOnePlace → ∀ o ∈ catalogue, i.Related r o → o ∈ candidates) := by
  have hmem : ∀ o, o ∈ i.candidates catalogue r ↔ o ∈ catalogue ∧ i.SearchedFor r o := by
    intro o
    rw [mem_candidates_iff_mem_pool hpgc hlimit, mem_pool_iff hlimit]
  refine ⟨i.candidates catalogue r, i.get?_identify catalogue hids hr, hmem, ?_, ?_⟩
  · intro o ho
    exact ((hmem o).mp ho).2.related
  · intro hname hplace o ho hrelated
    exact (hmem o).mpr ⟨ho, hrelated.searchedFor hname hplace⟩

section Alias

/-- Names decide, with the usual thresholds. -/
def byName : Identification :=
  ⟨.names 3.0 false, .orElse (.allBelow 0.1) (.onlyOneAbove 0.9), 10.0, 100⟩

/-- A reference object known by one name. -/
def triangulum : ReferenceObject :=
  ⟨5818, [.designation ⟨"M33"⟩]⟩

/-- A record of that name alone finds the object. -/
theorem candidates_iff_searchedFor_one_name :
    ∃ candidates : List ReferenceObject, triangulum ∈ candidates ∧
      (byName.identify [triangulum] [⟨"r", [.designation ⟨"m33"⟩]⟩]).get? "r" =
        some (byName.solver.solve (candidates.map fun o =>
          (o, byName.matcher.score ⟨"r", [.designation ⟨"m33"⟩]⟩ o))) := by
  obtain ⟨candidates, hdecided, -, -, hall⟩ :=
    @candidates_iff_searchedFor byName [triangulum] (by decide) (by decide)
      [⟨"r", [.designation ⟨"m33"⟩]⟩] (by decide) _ List.mem_cons_self
  refine ⟨candidates, ?_, hdecided⟩
  refine hall ?_ ?_ triangulum List.mem_cons_self (Or.inl ⟨⟨"m33"⟩, ?_, ⟨"M33"⟩, ?_, ?_⟩)
  · decide
  · decide
  · decide
  · decide
  · decide

/-- A record that carries the name behind another is related to the object, and would be
matched perfectly; but the object is not among the candidates, and the record is taken for
new. -/
theorem candidates_miss_alias :
    let r : Record := ⟨"r", [.designation ⟨"NGC 598"⟩, .designation ⟨"M33"⟩]⟩
    ([triangulum].map (·.pgc)).Nodup ∧ [triangulum].length ≤ byName.candidateLimit ∧
      byName.Related r triangulum ∧ byName.matcher.score r triangulum = 1.0 ∧
      triangulum ∉ byName.candidates [triangulum] r ∧
      ((byName.identify [triangulum] [r]).get? "r").map Outcome.text = some "new" ∧
      (byName.decide r [triangulum]).text = "existing(5818)" := by
  intro r
  have hrelated : byName.Related r triangulum :=
    Or.inl ⟨⟨"M33"⟩, by decide, ⟨"M33"⟩, by decide, by decide⟩
  refine ⟨by decide, by decide, hrelated, ?_, ?_, ?_, ?_⟩
  · decide +kernel
  · decide +kernel
  · decide +kernel
  · decide +kernel

end Alias

end Identification

end SkyCatalog
