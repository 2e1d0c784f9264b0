import SkyCatalog.Proofs.Crossmatch.Batching

/-!
# Which data a completed pass keeps

The store keeps one datum for a family and an identifier, and the key that told two objects
of a row apart is not part of either. Of the data that a row yields in a family it is the
last that is held after a pass that is completed, so all of them are held exactly if they are
equal (`completed_run_keeps_last_of_family`). A plan with at most one object of each family
loses nothing: then a row yields at most one datum of a family (`nodup_families_lenientData`).
-/

namespace SkyCatalog

/-- The store holds a datum under the identifier of a row of a table. -/
def UploadStore.Holds (s : UploadStore) (table : Int) (id : String) (d : Datum) : Prop :=
  (s.dataOf table d.family).get? id = some d

instance (s : UploadStore) (table : Int) (id : String) (d : Datum) :
    Decidable (s.Holds table id d) :=
  inferInstanceAs (Decidable ((s.dataOf table d.family).get? id = some d))

namespace Record

/-- No two data of a record that differ are of one family. -/
def OneOfEach (r : Record) : Prop :=
  ∀ d ∈ r.data, ∀ d' ∈ r.data, d.family = d'.family → d = d'

/-- The last datum of a family. -/
def last? (r : Record) (family : Family) : Option Datum :=
  (r.data.filter (·.family = family)).getLast?

theorem mem_of_last? {r : Record} {family : Family} {d : Datum} (h : r.last? family = some d) :
    d ∈ r.data ∧ d.family = family := by
  simpa using List.mem_filter.mp (List.mem_of_getLast? h)

/-- There is a last datum of each family that a record has data of. -/
theorem exists_last? {r : Record} {d : Datum} (h : d ∈ r.data) :
    ∃ last, r.last? d.family = some last := by
  refine Option.ne_none_iff_exists'.mp fun hnone => ?_
  have hempty := List.getLast?_eq_none_iff.mp hnone
  have hmem : d ∈ r.data.filter (·.family = d.family) := List.mem_filter.mpr ⟨h, by simp⟩
  rw [hempty] at hmem
  cases hmem

/-- All data are the last of their family exactly if no two of a family differ. -/
theorem forall_last?_iff {r : Record} :
    (∀ d ∈ r.data, r.last? d.family = some d) ↔ r.OneOfEach := by
  constructor
  · intro h d hd d' hd' hfamily
    have hlast := h d hd
    rw [hfamily, h d' hd'] at hlast
    exact (Option.some.inj hlast).symm
  · intro h d hd
    obtain ⟨last, hlast⟩ := exists_last? hd
    obtain ⟨hmem, hfamily⟩ := mem_of_last? hlast
    rw [hlast, h last hmem d hd hfamily]

/-- Data of families that differ from each other. -/
theorem oneOfEach_of_nodup {r : Record} (h : (r.data.map Datum.family).Nodup) : r.OneOfEach :=
  fun _ hd _ hd' hfamily => List.inj_on_of_nodup_map h hd hd' hfamily

end Record

namespace Plan

variable (p : Plan)

/-- The data of a row come from different objects of the plan, in the order of these. -/
theorem sublist_families_lenientData (r : Row) :
    ((p.lenientData r).map Datum.family).Sublist (p.objects.map (·.family)) := by
  rw [lenientData, attempts, objects, Keyed.keys, List.map_map]
  induction p.groups.entries with
  | nil => exact .slnil
  | cons e rest ih =>
      rcases hbuild : e.2.build? e.1.family r with _ | e' | d
      · -- the object has no cell
        simpa [hbuild] using ih.cons _
      · -- the object cannot be built
        have hskip : Except.toOption (.error e' : Except ConstructionError Datum) = none := rfl
        simpa [hbuild, hskip] using ih.cons _
      · have hfamily : d.family = e.1.family := by
          simp only [Group.build?] at hbuild
          split at hbuild
          · cases hbuild
          · exact Datum.family_ofParameters (Option.some.inj hbuild)
        have htake : Except.toOption (.ok d : Except ConstructionError Datum) = some d := rfl
        simpa [hbuild, htake, hfamily] using ih.cons_cons e.1.family

/-- A plan with at most one object of each family yields at most one datum of each. -/
theorem nodup_families_lenientData (h : (p.objects.map (·.family)).Nodup) (r : Row) :
    ((p.lenientData r).map Datum.family).Nodup :=
  h.sublist (p.sublist_families_lenientData r)

/-- The record of a row holds the data that can be built, in strict conversion as well. -/
theorem data_of_record? {strictness : Strictness} {r : Row} {record : Record}
    (h : p.record? strictness r = some record) : record.data = p.lenientData r := by
  have hdata : ∀ data, p.data strictness r = .ok data → data = p.lenientData r := by
    intro data hok
    cases strictness with
    | lenient =>
        cases hok
        rfl
    | strict =>
        rw [Plan.data, strictData_eq] at hok
        split at hok
        · cases hok
        · cases hok
          rfl
  unfold record? at h
  split at h
  · cases h
  · next data _ hok =>
    cases h
    exact hdata data hok
  · cases h

end Plan

namespace Job

variable {j : Job} {rows : List Row} {s : UploadStore}

/-- What is held of a row of a batch that was accepted: the last of the data that the row
yields in a family. -/
theorem holds_settle_iff (h : Ascending rows) (haccepts : ∀ r ∈ rows, j.Accepts s r)
    {record : Record} (hrecord : record ∈ j.records rows) {d : Datum} (hd : d ∈ record.data) :
    (j.settle rows s).Holds j.table record.id d ↔ record.last? d.family = some d := by
  obtain ⟨r, hr, hyield⟩ := List.mem_filterMap.mp hrecord
  have hdata : j.dataOf d.family r = record.data.filter (·.family = d.family) := by
    rw [dataOf, hyield]
    simp
  have hallowed : s.rejected ≠ some d.family := by
    intro hrejected
    have hnil := dataOf_eq_nil_of_accepts (haccepts r hr) hrejected
    rw [hdata] at hnil
    simpa using List.filter_eq_nil_iff.mp hnil d hd
  have hread : ((j.settle rows s).dataOf j.table d.family).get? record.id =
      record.last? d.family := by
    obtain ⟨last, hlast⟩ := record.exists_last? hd
    rw [j.id_of_record? hyield, get?_dataOf_settle h hr, if_pos ⟨rfl, hallowed⟩, hdata,
      ← Record.last?, hlast]
    rfl
  rw [UploadStore.Holds, hread]

end Job

namespace Pass

/-- **A completed pass holds the last datum of each family that a row yields.** The records are
those of the rows in the range. A datum of a record is held exactly if no other follows it in
its family; so everything is held exactly if no record has two data of a family that differ,
and always if the plan has at most one object of each family. -/
theorem completed_run_keeps_last_of_family (p : Pass) (catalogue : List ReferenceObject)
    (table : Int) (range : Range) (around : Surroundings) (s : UploadStore) {reached : Reached}
    (h : (p.run catalogue table range around s).ending = .ok (.completed reached)) :
    let kept := (p.run catalogue table range around s).store
    ∃ stored plan records, s.table table = .ok stored ∧
      Plan.resolve s.rules s.constants stored.table = .ok plan ∧
      plan.apply p.strictness (stored.covered range) = .ok records ∧
      (∀ record ∈ records, ∀ d ∈ record.data,
        kept.Holds table record.id d ↔ record.last? d.family = some d) ∧
      ((∀ record ∈ records, ∀ d ∈ record.data, kept.Holds table record.id d) ↔
        ∀ record ∈ records, record.OneOfEach) ∧
      ((plan.objects.map (·.family)).Nodup →
        ∀ record ∈ records, ∀ d ∈ record.data, kept.Holds table record.id d) := by
  intro kept
  cases htable : s.table table with
  | error e => simp [Pass.run, htable] at h
  | ok stored =>
    cases hstale : stored.statistics.isUpToDate with
    | true => simp [Pass.run, htable, hstale] at h
    | false =>
      cases hplan : Plan.resolve s.rules s.constants stored.table with
      | error e => simp [Pass.run, htable, hstale, hplan] at h
      | ok plan =>
        let j : Job := ⟨p, catalogue, plan, table⟩
        have hrun : p.run catalogue table range around s =
            j.runFrom range around (.start range) s := by
          simp only [Pass.run, htable, hstale, hplan, Bool.false_eq_true, if_false]
          rfl
        have hcovered : stored.covered ⟨(Reached.start range).cursor, range.endAt⟩ =
            stored.covered range := rfl
        rw [hrun] at h
        obtain ⟨haccepts, hthrough⟩ := Job.through_of_completed htable hcovered h
        have hconvert := (j.accepts_iff_forall.mp haccepts).1
        have hholds : ∀ record ∈ j.records (stored.covered range), ∀ d ∈ record.data,
            kept.Holds table record.id d ↔ record.last? d.family = some d := by
          intro record hrecord d hd
          rw [← Job.holds_settle_iff (stored.ascending_covered range) haccepts hrecord hd]
          simp only [UploadStore.Holds, kept, hrun, hthrough.store, Job.dataOf_mark]
          exact Iff.rfl
        have hall : (∀ record ∈ j.records (stored.covered range), ∀ d ∈ record.data,
            kept.Holds table record.id d) ↔
              ∀ record ∈ j.records (stored.covered range), record.OneOfEach := by
          refine forall₂_congr fun record hrecord => ?_
          rw [← Record.forall_last?_iff]
          exact forall₂_congr fun d hd => hholds record hrecord d hd
        refine ⟨stored, plan, j.records (stored.covered range), rfl, hplan,
          plan.apply_eq_ok p.strictness hconvert, hholds, hall, fun hnodup => ?_⟩
        apply hall.mpr
        intro record hrecord
        obtain ⟨r, -, hyield⟩ := List.mem_filterMap.mp hrecord
        apply Record.oneOfEach_of_nodup
        rw [plan.data_of_record? hyield]
        exact plan.nodup_families_lenientData hnodup r

section Aliases

/-- A row that names an object twice. -/
def aliasRow : Row :=
  ⟨"r", .ofList [("name", .text "M31"), ("other", .text "NGC 224")]⟩

/-- The table of the row. -/
def aliasTable : Table :=
  ⟨7, "names", [⟨"name", .text, none, none, none, false⟩,
    ⟨"other", .text, none, none, none, false⟩]⟩

/-- Rules that keep the two names apart by their keys. -/
def aliasRules : List Rule :=
  [⟨⟨⟨.designation, "a"⟩, "design"⟩, .columnName "name", 0⟩,
    ⟨⟨⟨.designation, "b"⟩, "design"⟩, .columnName "other", 0⟩]

/-- The store before a pass over the table. -/
def aliasStore : UploadStore :=
  (UploadStore.empty.setRules aliasRules).addTable aliasTable [aliasRow] ⟨0, 0⟩

/-- A pass over the table. -/
def aliasRun : Run :=
  (⟨⟨.constant 1.0, .onlyOneAbove 0.5, 10.0, 3⟩, .strict, 1, Nat.zero_lt_one⟩ : Pass).run [] 7 .full
    ⟨fun _ => false, fun _ _ => true, ⟨5, 0⟩⟩ aliasStore

/-- What the row yields. -/
theorem apply_aliasRow : ((Plan.resolve aliasRules [] aliasTable).toOption.bind fun plan =>
    (plan.apply .strict [aliasRow]).toOption) =
      some [⟨"r", [.designation ⟨"M31"⟩, .designation ⟨"NGC 224"⟩]⟩] := by
  decide +kernel

/-- Did a pass end with every row of its range? -/
def Ending.isCompleted : Ending → Bool
  | .completed _ => true
  | .stopped _ => false
  | .skipped => false

theorem aliasRun_completed : ∃ reached, aliasRun.ending = .ok (.completed reached) := by
  have hcompleted : aliasRun.ending.toOption.any Ending.isCompleted = true := by decide +kernel
  cases hending : aliasRun.ending with
  | error e => simp [hending, Except.toOption] at hcompleted
  | ok ending =>
    cases ending with
    | stopped reached => simp [hending, Except.toOption, Ending.isCompleted] at hcompleted
    | skipped => simp [hending, Except.toOption, Ending.isCompleted] at hcompleted
    | completed reached => exact ⟨reached, rfl⟩

/-- The row yields two names, and so not all that it yields is held. -/
theorem completed_run_keeps_last_of_family_aliases :
    ∃ plan records, Plan.resolve aliasRules [] aliasTable = .ok plan ∧
      plan.apply .strict [aliasRow] = .ok records ∧
      ¬∀ record ∈ records, ∀ d ∈ record.data, aliasRun.store.Holds 7 record.id d := by
  obtain ⟨reached, hending⟩ := aliasRun_completed
  obtain ⟨stored, plan, records, htable, hplan, happly, -, hall, -⟩ :=
    completed_run_keeps_last_of_family _ [] 7 .full _ aliasStore hending
  have hstored : stored.table = aliasTable ∧ stored.covered .full = [aliasRow] := by
    cases htable
    exact ⟨rfl, rfl⟩
  have hplan : Plan.resolve aliasRules [] aliasTable = .ok plan := hstored.1 ▸ hplan
  have happly : plan.apply .strict [aliasRow] = .ok records := hstored.2 ▸ happly
  refine ⟨plan, records, hplan, happly, fun hheld => ?_⟩
  have hrecords := apply_aliasRow
  simp only [hplan, happly, Except.toOption, Option.bind_some, Option.some.injEq] at hrecords
  subst hrecords
  have hequal := hall.mp hheld _ List.mem_cons_self (.designation ⟨"M31"⟩) List.mem_cons_self
    (.designation ⟨"NGC 224"⟩) (by simp) rfl
  exact absurd hequal (by decide)

/-- The pass is completed and the row yields both names, but the one with the later key is all
that is held. -/
theorem completed_run_drops_first_name :
    (∃ reached, aliasRun.ending = .ok (.completed reached)) ∧
      ((Plan.resolve aliasRules [] aliasTable).toOption.bind fun plan =>
        (plan.apply .strict [aliasRow]).toOption) =
          some [⟨"r", [.designation ⟨"M31"⟩, .designation ⟨"NGC 224"⟩]⟩] ∧
      ¬aliasRun.store.Holds 7 "r" (.designation ⟨"M31"⟩) ∧
      aliasRun.store.Holds 7 "r" (.designation ⟨"NGC 224"⟩) := by
  refine ⟨aliasRun_completed, apply_aliasRow, ?_, ?_⟩
  · decide +kernel
  · decide +kernel

end Aliases

end Pass

end SkyCatalog
