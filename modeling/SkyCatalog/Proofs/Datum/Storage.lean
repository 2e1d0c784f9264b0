import SkyCatalog.Proofs.Datum.Checked

/-!
# Data that are stored and read back

The columns of a valid datum hold what its constructor gives back (`Datum.ofColumns_columns`).
Their order does not matter, nor do other columns between them (`Datum.ofColumns_of_perm`); the
stored form is read through its columns (`Datum.ofWritten?_of_perm`).

`data_survive_storage` puts this together: whatever was built is valid, and a position, a
designation or a velocity comes back as it was, to the last bit.
-/

namespace SkyCatalog

open Json (lookup)

theorem Written.ofFields_eq_map (fields : List (String × Json)) :
    Written.ofFields fields = fields.map fun f => (f.1, Written.ofJson f.2) := by
  induction fields with
  | nil => rfl
  | cons field rest ih => rw [Written.ofFields, ih, List.map_cons]

namespace Datum

theorem nodup_columns (d : Datum) : (d.columns.map (·.1)).Nodup := by
  cases d with
  | icrs p => simp [columns]
  | designation n => simp [columns]
  | redshift r =>
      obtain ⟨velocity, error⟩ := r
      cases error <;> simp [columns]
  | pgc i => simp [columns]

/-- A name that is valid is neither blank nor altered. -/
theorem ofCell?_name {n : Designation} (h : n.Valid) :
    Parameter.ofCell? (.text n.name) .dimensionless = some (.text n.name) := by
  obtain ⟨hname, htrim⟩ := h
  have hblank : Text.isBlankText n.name = false := by
    rw [Bool.eq_false_iff]
    intro hblank
    exact hname (htrim.symm.trans (Text.trim_of_isBlankText hblank))
  simp [Parameter.ofCell?, hblank]

/-- **Encoding and decoding.** The columns of a valid datum hold what its constructor gives back. -/
theorem ofColumns_columns {d : Datum} (hd : d.Valid) (hfamily : d.family ≠ .pgc) :
    ofColumns d.family d.columns = .ok d := by
  have hparams := get?_parametersOfColumns d.nodup_columns
  unfold ofColumns
  generalize parametersOfColumns d.columns = params at hparams
  cases d with
  | icrs p =>
      have hmake := Position.make_of_valid hd
      obtain ⟨hra, hdec, hraError, hdecError, -⟩ := hd
      have hread : ∀ {name : String} {x : Float}, x.isFinite = true →
          lookup name (icrs p).columns = some (.ofFloat x) →
          params.number .icrs name .degree = .ok x := by
        intro name x hx hname
        apply Parameters.number_of_real _ _ hx
        rw [hparams, hname]
        exact ofCell?_ofFloat hx
      refine map_eq_ok_iff.mpr ⟨p, ?_, rfl⟩
      simp only [Position.ofParameters, bind_eq_ok_iff]
      exact ⟨p.ra, hread hra rfl, p.dec, hread hdec rfl, p.raError, hread hraError rfl,
        p.decError, hread hdecError rfl, hmake⟩
  | designation n =>
      have hdesign : params.get? "design" = some (.text n.name) :=
        (hparams "design").trans (ofCell?_name hd)
      refine map_eq_ok_iff.mpr ⟨n, ?_, rfl⟩
      rw [Designation.ofParameters, hdesign]
      exact Designation.make_of_valid hd
  | redshift r =>
      have hmake := Redshift.make_of_valid hd
      obtain ⟨velocity, error⟩ := r
      obtain ⟨hvelocity, herror⟩ := hd
      have hcz := Parameters.number?_of_real .redshift .kilometerPerSecond hvelocity
        ((hparams "cz").trans (ofCell?_ofFloat hvelocity))
      refine map_eq_ok_iff.mpr ⟨_, ?_, rfl⟩
      rw [Redshift.ofParameters, hcz]
      refine bind_eq_ok_iff.mpr ⟨_, rfl, bind_eq_ok_iff.mpr ⟨error, ?_, hmake⟩⟩
      cases error with
      | none =>
          have hnone : params.get? "e_cz" = none := hparams "e_cz"
          rw [Parameters.number?, hnone]
      | some e =>
          have hfinite := (herror e rfl).1
          exact Parameters.number?_of_real _ _ hfinite
            ((hparams "e_cz").trans (ofCell?_ofFloat hfinite))
  | pgc i => exact absurd rfl hfamily

/-- A datum is read back from its columns, whatever others stand between them. -/
theorem ofColumns_of_perm {d : Datum} (hd : d.Valid) (hfamily : d.family ≠ .pgc)
    {extra columns : List (String × Json)} (hcolumns : columns.Perm (d.columns ++ extra))
    (hnames : (columns.map (·.1)).Nodup) (hextra : ∀ c ∈ extra, c.1 ∉ d.family.reads) :
    ofColumns d.family columns = .ok d := by
  have hsame : ofColumns d.family columns = ofColumns d.family d.columns := by
    refine ofParameters_congr fun name hname => ?_
    rw [get?_parametersOfColumns hnames, get?_parametersOfColumns d.nodup_columns]
    congr 1
    apply Option.ext
    intro cell
    rw [Json.lookup_eq_some_iff hnames, Json.lookup_eq_some_iff d.nodup_columns,
      hcolumns.mem_iff, List.mem_append]
    exact or_iff_left fun hmem => hextra _ hmem hname
  exact hsame.trans (ofColumns_columns hd hfamily)

/-- The columns of a datum are tidy. -/
theorem tidy_of_mem_columns {d : Datum} {c : String × Json} (h : c ∈ d.columns) :
    c.2.tidy = c.2 := by
  have hfloat : ∀ x : Float, (Json.ofFloat x).tidy = Json.ofFloat x := by
    intro x
    unfold Json.ofFloat
    split <;> rfl
  cases d with
  | icrs p =>
      simp only [columns, List.mem_cons, List.not_mem_nil, or_false] at h
      rcases h with rfl | rfl | rfl | rfl <;> exact hfloat _
  | designation n =>
      obtain rfl := List.mem_singleton.mp h
      rfl
  | redshift r =>
      obtain ⟨velocity, error⟩ := r
      cases error with
      | none =>
          obtain rfl := List.mem_singleton.mp h
          exact hfloat _
      | some e =>
          simp only [columns, List.mem_cons, List.not_mem_nil, or_false] at h
          rcases h with rfl | rfl <;> exact hfloat _
  | pgc i =>
      obtain rfl := List.mem_singleton.mp h
      rfl

/-- Reading a stored form is reading its columns, tidied. -/
theorem ofWritten?_eq (family : Family) {columns : List (String × Json)}
    (hcatalog : "catalog" ∉ columns.map (·.1)) :
    ofWritten? (Written.ofJson (.object (("catalog", .text family.text) :: columns))) =
      (ofColumns family (Json.tidyFields [] columns)).toOption := by
  have hfields : Written.ofJson (.object (("catalog", .text family.text) :: columns)) =
    .object (("catalog", .text family.text) :: Written.ofFields columns) := rfl
  have hother : ∀ f ∈ Written.ofFields columns, f.1 ≠ "catalog" := by
    intro f hf hname
    rw [Written.ofFields_eq_map] at hf
    obtain ⟨c, hc, rfl⟩ := List.mem_map.mp hf
    exact hcatalog (List.mem_map.mpr ⟨c, hc, hname⟩)
  have hname : (Written.ofFields columns).filter (·.1 == "catalog") = [] :=
    List.filter_eq_nil_iff.mpr fun f hf => by simpa using hother f hf
  have hrest : (Written.ofFields columns).filter (·.1 != "catalog") = Written.ofFields columns :=
    List.filter_eq_self.mpr fun f hf => by simpa using hother f hf
  have hread : Family.ofWritten? (.text family.text) = some family := Family.read?_text _
  rw [hfields]
  simp only [ofWritten?, List.filter_cons, beq_self_eq_true, if_true, hname, bne_self_eq_false,
    Bool.false_eq_true, if_false, hrest, hread, Option.bind_eq_bind, Option.bind_some,
    Written.fieldValues?_ofFields fun field _ => Written.value?_ofJson field.2]
  cases ofColumns family (Json.tidyFields [] columns) <;> rfl

/-- A datum is read back from its stored form. -/
theorem ofWritten?_of_perm {d : Datum} (hd : d.Valid) (hfamily : d.family ≠ .pgc)
    {extra columns : List (String × Json)} (hcolumns : columns.Perm (d.columns ++ extra))
    (hnames : (columns.map (·.1)).Nodup) (hextra : ∀ c ∈ extra, c.1 ∉ d.family.reads)
    (hcatalog : "catalog" ∉ columns.map (·.1)) :
    ofWritten? (Written.ofJson (.object (("catalog", .text d.family.text) :: columns))) =
      some d := by
  rw [ofWritten?_eq d.family hcatalog, toOption_eq_some_iff]
  have hsame : d.columns.map (fun c => (c.1, c.2.tidy)) = d.columns := by
    refine (List.map_congr_left fun c hc => ?_).trans (List.map_id _)
    rw [tidy_of_mem_columns hc]
    rfl
  -- tidying changes the order of the columns and what the others hold, but not their names
  have htidied := Json.tidyFields_perm hnames
  have hperm := htidied.trans (hcolumns.map _)
  rw [List.map_append, hsame] at hperm
  refine ofColumns_of_perm hd hfamily hperm ?_ ?_
  · rw [(htidied.map _).nodup_iff, List.map_map]
    exact hnames
  · intro c hc
    obtain ⟨given, hgiven, rfl⟩ := List.mem_map.mp hc
    exact hextra given hgiven

end Datum

/-- **Data stay valid and survive storage.** A datum that was built in whatever way satisfies the
invariant of its family. A position, a designation or a velocity is read back from its columns and
from its stored form, and other columns whose names its family does not look at may be added. -/
theorem data_survive_storage {d : Datum} (h : d.Built) :
    d.Valid ∧
    (d.family ≠ .pgc → ∀ extra columns : List (String × Json),
      columns.Perm (d.columns ++ extra) → (columns.map (·.1)).Nodup →
      (∀ c ∈ extra, c.1 ∉ d.family.reads) →
      Datum.ofColumns d.family columns = .ok d ∧
      ("catalog" ∉ columns.map (·.1) → Datum.ofWritten?
        (Written.ofJson (.object (("catalog", .text d.family.text) :: columns))) = some d)) := by
  have hvalid := h.valid
  refine ⟨hvalid, fun hfamily extra columns hcolumns hnames hextra => ?_⟩
  exact ⟨Datum.ofColumns_of_perm hvalid hfamily hcolumns hnames hextra,
    Datum.ofWritten?_of_perm hvalid hfamily hcolumns hnames hextra⟩

/-- A position west of the origin, given as texts and numbers, comes to lie on the circle and is
read back from there, with a note between its columns. -/
theorem data_survive_storage_wrapped :
    let p : Position := ⟨350.0, 45.5, 0.0, 0.5⟩
    let stored : List (String × Json) :=
      [("dec", .real 45.5), ("e_dec", .real 0.5), ("e_ra", .real 0.0), ("note", .bool true),
        ("ra", .real 350.0)]
    Datum.ofColumns .icrs [("ra", .real (-10.0)), ("dec", .text " 45.5 "), ("e_ra", .int 0),
      ("e_dec", .real 0.5)] = .ok (.icrs p) ∧
    p.Valid ∧ Datum.ofColumns .icrs stored = .ok (.icrs p) ∧
    Datum.ofWritten? (Written.ofJson (.object (("catalog", .text "icrs") :: stored))) =
      some (.icrs p) := by
  intro p stored
  have hbuilt : Datum.ofColumns .icrs [("ra", .real (-10.0)), ("dec", .text " 45.5 "),
    ("e_ra", .int 0), ("e_dec", .real 0.5)] = .ok (.icrs p) := by decide +kernel
  obtain ⟨hvalid, hstored⟩ := data_survive_storage (.columns hbuilt)
  have hcolumns : stored.Perm ((Datum.icrs p).columns ++ [("note", .bool true)]) := by
    obtain ⟨hra, hdec, hraError, hdecError, -⟩ : p.Valid := hvalid
    simp only [Datum.columns, Json.ofFloat, hra, hdec, hraError, hdecError, if_true]
    exact (((List.Perm.swap _ _ []).cons _).cons _).cons _
  obtain ⟨hread, hwritten⟩ := hstored (by decide) _ stored hcolumns (by decide) (by decide)
  exact ⟨hbuilt, hvalid, hread, hwritten (by decide)⟩

end SkyCatalog
