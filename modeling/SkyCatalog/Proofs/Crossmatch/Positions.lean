import SkyCatalog.Proofs.Crossmatch.Cursor
import SkyCatalog.Proofs.Crossmatch.Processed

/-!
# The positions that a run reports

A run reports the last row of each batch that it keeps. The identifiers that are reported are
therefore some of those it had left, in their order, each with its place as a part of the whole
range, however the run ends (`Job.sublist_reports`). Where the rows have identifiers that are
compared by their digits, the places do not decrease from one report to a later one
(`Job.pairwise_places`).
-/

namespace SkyCatalog

namespace Job

variable {j : Job} {range : Range} {around : Surroundings} {reached : Reached} {s : UploadStore}
  {t : StoredTable}

/-- **What a run reports of places.** The identifiers are some of those of the rows it had left,
in their order, each with its place as a part of the whole range. -/
theorem sublist_reports (around : Surroundings) (ht : s.table j.table = .ok t) {left : List Row}
    (hleft : t.covered ⟨reached.cursor, range.endAt⟩ = left) :
    ((j.runFrom range around reached s).progress.map fun p => (p.cursor, p.fraction)).Sublist
      (left.map fun r => (r.id, Cursor.fraction? r.id)) := by
  -- by induction on the number of rows left: a batch takes at least one of them
  induction hn : left.length using Nat.strongRecOn generalizing left reached s with
  | _ n ih =>
    cases hstop : around.stop reached.batches with
    | true => simp [runFrom_of_stop hstop]
    | false =>
      rcases round_cases ht range (around.lands reached.batches) reached.cursor hleft with
        ⟨rfl, hround⟩ | ⟨last, isLast, hlast, -, -, hround⟩ | ⟨keep, e, -, hround⟩
      · simp [runFrom_of_exhausted hstop hround, finish_of_table ht]
      · have hkept : (j.settle (j.batch left) s).table j.table = .ok t := by rw [table_settle, ht]
        have hsplit : left.map (fun r => (r.id, Cursor.fraction? r.id)) =
            (j.batch left).map (fun r => (r.id, Cursor.fraction? r.id)) ++
              (left.drop j.pass.batchSize).map fun r => (r.id, Cursor.fraction? r.id) := by
          rw [← List.map_append, batch_append_drop]
        have hreport : [(last.id, Cursor.fraction? last.id)].Sublist
            ((j.batch left).map fun r => (r.id, Cursor.fraction? r.id)) :=
          List.singleton_sublist.mpr (List.mem_map_of_mem (List.mem_of_getLast? hlast))
        rw [runFrom_of_processed hstop hround, hsplit]
        -- the batch is reported by its last row, and the rows behind it by what comes later
        refine hreport.append ?_
        cases isLast with
        | true => simp [finish_of_table hkept]
        | false =>
            let next := reached.advance (.ofBatch (reached.batches + 1)
              (j.pass.identification.identify j.catalogue (j.records (j.batch left))) last.id)
            have hnext : t.covered ⟨next.cursor, range.endAt⟩ = left.drop j.pass.batchSize :=
              covered_after_batch hleft hlast
            exact ih _ (hn ▸ length_drop_lt hlast) hkept hnext rfl
      · simp [runFrom_of_failed hstop hround]

/-- Places do not decrease from one report to a later one. -/
theorem pairwise_places (around : Surroundings) (ht : s.table j.table = .ok t) {left : List Row}
    (hleft : t.covered ⟨reached.cursor, range.endAt⟩ = left)
    (haligned : ∀ a ∈ left, ∀ b ∈ left, Cursor.Aligned a.id b.id) :
    (j.runFrom range around reached s).progress.Pairwise fun earlier later =>
      Cursor.position? earlier.cursor ≤ Cursor.position? later.cursor ∧
        earlier.fraction ≤ later.fraction := by
  have hascending : Ascending left := hleft ▸ t.ascending_covered _
  have hrows : (left.map fun r => (r.id, Cursor.fraction? r.id)).Pairwise fun x y =>
      Cursor.position? x.1 ≤ Cursor.position? y.1 ∧ x.2 ≤ y.2 := by
    refine List.pairwise_map.mpr (hascending.imp_of_mem fun ha hb hlt => ?_)
    have hab := haligned _ ha _ hb
    exact ⟨Cursor.position?_mono hab hlt.le, Cursor.fraction?_mono hab hlt.le⟩
  exact List.pairwise_map.mp (hrows.sublist (sublist_reports around ht hleft))

end Job

namespace Cursor

/-- **Places follow identifiers.** An identifier has a place exactly if its first sixteen characters
that are no dash are hexadecimal digits and there is one; the place is the number of sixty-four
bits that they spell with zeros behind them. Of two identifiers that are compared by their digits
the later one does not have the earlier place, and so places do not decrease along a run. -/
theorem positions_follow_identifiers :
    (∀ id, (fraction? id = none ↔ leading id = [] ∨ ∃ c ∈ leading id, c.isHexDigit = false) ∧
      ∀ x, fraction? id = some x → 0.0 ≤ x ∧ x ≤ 1.0 ∧
        ∃ n < 2 ^ 64, position? id = some n ∧ Spells ((leading id).rightpad 16 '0') n ∧
          x = Float.ofNat n / Float.ofNat (2 ^ 64 - 1)) ∧
    (∀ a b, Aligned a b → a ≤ b → position? a ≤ position? b ∧ fraction? a ≤ fraction? b) ∧
    ∀ (p : Pass) (catalogue : List ReferenceObject) (table : Int) (range : Range)
      (around : Surroundings) (s : UploadStore),
      (∀ stored, s.table table = .ok stored → ∀ a ∈ stored.covered range,
        ∀ b ∈ stored.covered range, Aligned a.id b.id) →
      (p.run catalogue table range around s).progress.Pairwise fun earlier later =>
        position? earlier.cursor ≤ position? later.cursor ∧ earlier.fraction ≤ later.fraction := by
  refine ⟨fun id => ⟨fraction?_eq_none_iff.trans position?_eq_none_iff, ?_⟩, ?_, ?_⟩
  · intro x hx
    obtain ⟨n, hn, rfl⟩ := fraction?_eq_some_iff.mp hx
    have hlt := lt_of_position? hn
    obtain ⟨hlow, hhigh⟩ := Decimal.part_mem_unit hlt
    exact ⟨hlow, hhigh, n, hlt, hn, (position?_eq_some_iff.mp hn).2, rfl⟩
  · exact fun a b h hab => ⟨position?_mono h hab, fraction?_mono h hab⟩
  · intro p catalogue table range around s haligned
    rcases p.run_cases catalogue table range around s with
      ⟨e, -, hrun⟩ | ⟨stored, -, -, hrun⟩ | ⟨stored, plan, htable, -, hrun⟩
    · rw [hrun]
      exact .nil
    · rw [hrun]
      exact .nil
    · rw [hrun]
      exact Job.pairwise_places around htable rfl (haligned stored htable)

/-- Identifiers of which one is the beginning of another, up to the end of the range and beyond. -/
theorem positions_follow_identifiers_prefixes :
    let p : Pass := ⟨⟨.constant 1.0, .onlyOneAbove 0.5, 10.0, 3⟩, .strict, 1, by decide⟩
    let named : ColumnFilter := .columnName "name"
    let s := (UploadStore.empty.setRules [⟨⟨⟨.designation, ""⟩, "design"⟩, named, 0⟩]).addTable
      ⟨7, "names", [⟨"name", .text, none, none, none, false⟩]⟩
      [⟨"0f00", .empty⟩, ⟨"ffffffffffffffff1", .empty⟩, ⟨"", .empty⟩, ⟨"0f", .empty⟩,
        ⟨"ffffffffffffffff", .empty⟩] ⟨0, 0⟩
    let run := p.run [] 7 .full ⟨fun _ => false, fun _ _ => true, ⟨5, 0⟩⟩ s
    run.progress.map (fun report => (report.cursor, position? report.cursor)) =
      [("", none), ("0f", some 0x0f00000000000000), ("0f00", some 0x0f00000000000000),
        ("ffffffffffffffff", some (2 ^ 64 - 1)), ("ffffffffffffffff1", some (2 ^ 64 - 1))] ∧
      (run.progress.Pairwise fun earlier later =>
        position? earlier.cursor ≤ position? later.cursor ∧ earlier.fraction ≤ later.fraction) ∧
      fraction? "0f-a" ≤ fraction? "10-0" := by
  intro p named s run
  obtain ⟨hpair, hrun⟩ := positions_follow_identifiers.2
  refine ⟨by decide +kernel, ?_, (hpair "0f-a" "10-0" (by decide +kernel) (by decide)).2⟩
  obtain ⟨stored, htable, hids⟩ : ∃ stored, s.table 7 = .ok stored ∧
      (stored.covered .full).map (·.id) =
        ["", "0f", "0f00", "ffffffffffffffff", "ffffffffffffffff1"] := ⟨_, rfl, by decide +kernel⟩
  refine hrun p [] 7 .full _ s fun stored' hstored a ha b hb => ?_
  obtain rfl : stored = stored' := Except.ok.inj (htable.symm.trans hstored)
  have hall : ((stored.covered .full).map (·.id)).all (fun a =>
      ((stored.covered .full).map (·.id)).all fun b => Aligned a b) = true := by
    rw [hids]
    decide +kernel
  simp only [List.all_eq_true, decide_eq_true_eq] at hall
  exact hall _ (List.mem_map_of_mem ha) _ (List.mem_map_of_mem hb)

end Cursor

end SkyCatalog
