import SkyCatalog.Proofs.Crossmatch.Batching
import SkyCatalog.Proofs.Crossmatch.HistoryInvariant
import SkyCatalog.Proofs.Crossmatch.Processed

/-!
# Interruptions and pieces cannot be seen

Whatever the pieces of a cut, the order of the batches, the stops and the failures: once
all pieces are completed the outcomes and the data are those of one pass over the whole
range. A pass that is stopped has given outcomes to just those of its rows with a record that it
went past. This is read from the stores: of one run from the store that it leaves and the store
that it found (`Invariant.gives_of_run`), and of passes whose batches take turns with others from
the store where the pass stands and the store where it began (`Attempt.Sound.gives`). The main
statement is `interruption_invisible`.
-/

namespace SkyCatalog

namespace Job

/-- The goal gives to all rows. -/
theorem gives_goal (j : Job) (stored : StoredTable) (s : UploadStore) :
    j.Gives (stored.covered .full) (fun _ => True) s (j.goal stored s) := by
  have hgives := @gives_settle j (stored.covered .full) (s.reject none)
    (stored.ascending_covered .full) fun r _ family hrejected => by cases hrejected
  exact ⟨hgives.outcome, hgives.datum, hgives.others⟩

/-- Where rows are settled they have been given what the goal gives them. -/
theorem gives_of_settledAt {j : Job} {stored : StoredTable} {s : UploadStore} {rows : List Row}
    {among : String → Prop} {before u : UploadStore} (hsub : ∀ r ∈ rows, r ∈ stored.covered .full)
    (hsettled : ∀ r ∈ rows, SettledAt (j.goal stored s) u r.id)
    (hothers : ∀ id, among id → (∀ r ∈ rows, (j.record? r).isSome → r.id ≠ id) →
      u.outcomes.get? id = before.outcomes.get? id) :
    j.Gives rows among before u where
  outcome r hr hyields := by
    rw [(hsettled r hr).outcome]
    exact (j.gives_goal stored s).outcome r (hsub r hr) hyields
  datum r hr family d hd := by
    rw [(hsettled r hr).datum]
    exact (j.gives_goal stored s).datum r (hsub r hr) family d hd
  others := hothers

/-- The size of its batches does not matter for what a job gives. -/
theorem Gives.of_resized {j : Job} {size : Nat} {rows : List Row} {among : String → Prop}
    {s u : UploadStore} (h : (j.resized size).Gives rows among s u) : j.Gives rows among s u :=
  ⟨h.outcome, h.datum, h.others⟩

end Job

/-! ## Where a pass is stopped -/

section Stops

variable {one : Job} {s : UploadStore} {stored : StoredTable} {pieces : List Range}
  {σ : World pieces} {i : Fin pieces.length}

/-- **What a pass has given where it stands**, of what its piece alone covers: the rows from its
start up to its cursor read what they were given, and all else reads as where the pass began. -/
theorem Attempt.Sound.gives {u : UploadStore} {a : Attempt} (h : a.Sound one stored i u)
    (hdone : one.Done (one.goal stored s) u (stored.covered (pieces.get i))
      (stored.covered ⟨a.reached.cursor, (pieces.get i).endAt⟩)) :
    one.Gives (stored.coveredUpTo (a.range (pieces.get i)) a.reached.cursor)
      (Range.OnlyIn pieces i) a.before u := by
  apply Job.gives_of_settledAt
  · intro r hr
    exact mem_covered_full (stored.mem_coveredUpTo.mp hr).1
  · intro r hr
    obtain ⟨hmem, hnot⟩ := stored.mem_coveredUpTo_iff_notMem.mp hr
    exact (hdone r (h.start r hmem) hnot).1
  · exact h.others

/-- **What a run has given that is stopped**: the rows of its range up to its cursor read what they
were given, and all else reads as before the run. -/
theorem Invariant.gives_of_run (h : Invariant one s stored σ)
    (hplan : ∀ plan, Plan.resolve s.rules s.constants stored.table = .ok plan → plan = one.plan)
    {size : Nat} {range : Range} {around : Surroundings} {run : Run}
    (heq : (one.pass.withBatchSize size).run one.catalogue one.table range around σ.store = run)
    {last : Option String} (hstopped : run.stoppedAt? = some last) :
    Plan.resolve s.rules s.constants stored.table = .ok one.plan ∧
      one.Gives (stored.coveredUpTo range last) (fun _ => True) σ.store run.store := by
  subst heq
  obtain ⟨t, ht, hrows, hdescription⟩ := h.kept.table
  rcases (one.pass.withBatchSize size).run_cases one.catalogue one.table range around σ.store with
    ⟨e, -, hrun⟩ | ⟨stored', -, -, hrun⟩ | ⟨stored', plan, ht', hresolve, hrun⟩
  · -- a run that does not begin is not stopped
    rw [hrun] at hstopped
    cases hstopped
  · rw [hrun] at hstopped
    cases hstopped
  · obtain rfl : t = stored' := Except.ok.inj (ht.symm.trans ht')
    rw [h.kept.rules, h.kept.constants, hdescription] at hresolve
    obtain rfl := hplan _ hresolve
    have hleaves := (one.resized size).leaves_start ht range around
    have hcovered : stored.coveredUpTo range last = t.coveredUpTo range last := by
      rw [StoredTable.coveredUpTo, StoredTable.coveredUpTo, Kept.covered_eq hrows]
    rw [hrun] at hstopped ⊢
    obtain ⟨stand, hending, rfl⟩ := Run.stoppedAt?_eq_some_iff.mp hstopped
    have hgives : (one.resized size).Gives
        (t.coveredUpTo ⟨range.startAfter, range.endAt⟩ stand.cursor) (fun _ => True) σ.store
        ((one.resized size).runFrom range around (.start range) σ.store).store :=
      hleaves.gives_of_stopped rfl hending
    rw [hcovered]
    exact ⟨hresolve, hgives.of_resized⟩

end Stops

/-! ## The end of a history -/

section EndOfHistory

variable {one : Job} {s : UploadStore} {stored : StoredTable}

/-- Where all pieces of a cut are completed every row is accepted, and the store is as the
goal. -/
theorem Invariant.completed {ends : List String} {σ : World (Range.cut ends)}
    (h : Invariant one s stored σ) (hcompleted : ∀ i, σ.stage i = .completed) :
    Plan.resolve s.rules s.constants stored.table = .ok one.plan ∧
      (∀ r ∈ stored.covered .full, one.Accepts (s.reject none) r) ∧
      ∀ id, SettledAt (one.goal stored s) σ.store id := by
  have hpiece : ∀ id, ∃ i : Fin (Range.cut ends).length,
      ((Range.cut ends).get i).covers id = true := by
    intro id
    obtain ⟨range, hrange, hcovers⟩ := Range.exists_covers_of_cut ends id
    obtain ⟨k, hk, rfl⟩ := List.getElem_of_mem hrange
    exact ⟨⟨k, hk⟩, hcovers⟩
  -- every row lies in one of the pieces, and all of these are settled
  have hdone : ∀ r ∈ stored.covered .full,
      SettledAt (one.goal stored s) σ.store r.id ∧ one.plan.Converts one.pass.strictness r := by
    intro r hr
    obtain ⟨i, hcovers⟩ := hpiece r.id
    have hsound := h.sound i
    rw [hcompleted i] at hsound
    have hcovered := stored.mem_covered.mpr ⟨(stored.mem_covered.mp hr).1, hcovers⟩
    exact hsound.2 r hcovered List.not_mem_nil
  refine ⟨?_, fun r hr => ⟨(hdone r hr).2, ?_⟩, fun id => ?_⟩
  · obtain ⟨i, -⟩ := hpiece ""
    have hsound := h.sound i
    rw [hcompleted i] at hsound
    exact hsound.1
  · intro record _ d _
    simp [UploadStore.reject]
  · by_cases hrow : ∃ r ∈ stored.covered .full, r.id = id
    · obtain ⟨r, hr, rfl⟩ := hrow
      exact (hdone r hr).1
    · exact Job.settledAt_of_forall_ne (fun r hr heq => hrow ⟨r, hr, heq⟩) h.toward

end EndOfHistory

namespace Pass

/-- **Interruptions and pieces cannot be seen.** All identifiers are cut into pieces that
are passed over in any interleaving of batches of any sizes, with any stops and failures.

Every run of a pass over a piece is a history of such turns. If it is stopped, the rows of its
range up to its cursor that yield a record read what this record turns out to be, and all other
identifiers read as before the run. A turn gives outcomes at most to rows that are left to the one
pass whose turn it is; and wherever a pass stands stopped, whatever the turns of other passes, of
the identifiers that only its piece covers just those of its rows up to its cursor that yield a
record have been given an outcome since it began. At ascending ends these are all identifiers of
the piece (`Range.onlyIn_of_covers`).

And once all pieces are completed every row has been given what it yields, and one pass over the
whole range, never stopped and never refused anything, completes as well and leaves the same
outcomes and data. -/
theorem interruption_invisible (p : Pass) (catalogue : List ReferenceObject) {table : Int}
    {s : UploadStore} {stored : StoredTable} (htable : s.table table = .ok stored)
    (hstale : stored.statistics.isUpToDate = false) (ends : List String)
    {σ : World (Range.cut ends)} (h : History p catalogue table (.start s) σ) :
    (∀ i cursor size around, (σ.stage i).next? = some cursor →
      let range : Range := ⟨cursor, ((Range.cut ends).get i).endAt⟩
      let run := (p.withBatchSize size).run catalogue table range around σ.store
      Realised p catalogue table σ i cursor σ.store cursor run ∧
        ∀ last, run.stoppedAt? = some last →
          ∃ plan, Plan.resolve s.rules s.constants stored.table = .ok plan ∧
            Job.Gives ⟨p, catalogue, plan, table⟩ (stored.coveredUpTo range last) (fun _ => True)
              σ.store run.store) ∧
    (∀ σ', Turn p catalogue table σ σ' → σ'.store.outcomes = σ.store.outcomes ∨
      ∃ i a, σ.stage i = .running a ∧ (∀ k, k ≠ i → σ'.stage k = σ.stage k) ∧
        OutcomesWithin (stored.covered ⟨a.reached.cursor, ((Range.cut ends).get i).endAt⟩)
          σ.store σ'.store) ∧
    (∀ i a, σ.stage i = .stopped a →
      ∃ plan, Plan.resolve s.rules s.constants stored.table = .ok plan ∧
        Job.Gives ⟨p, catalogue, plan, table⟩
          (stored.coveredUpTo (a.range ((Range.cut ends).get i)) a.reached.cursor)
          (Range.OnlyIn (Range.cut ends) i) a.before σ.store) ∧
    ((∀ i, σ.stage i = .completed) →
      ∃ plan, Plan.resolve s.rules s.constants stored.table = .ok plan ∧
        Job.Gives ⟨p, catalogue, plan, table⟩ (stored.covered .full) (fun _ => True) s σ.store ∧
        ∀ around : Surroundings, (∀ n, around.stop n = false) →
          let whole := p.run catalogue table .full around (s.reject none)
          (∃ reached, whole.ending = .ok (.completed reached)) ∧
            σ.store.outcomes = whole.store.outcomes ∧
            ∀ t f, σ.store.dataOf t f = whole.store.dataOf t f) := by
  -- a plan, or one that is never used if there is none
  obtain ⟨plan, hplan⟩ : ∃ plan, ∀ other,
      Plan.resolve s.rules s.constants stored.table = .ok other → other = plan := by
    cases hresolve : Plan.resolve s.rules s.constants stored.table with
    | error e => exact ⟨⟨.empty⟩, nofun⟩
    | ok plan => exact ⟨plan, fun other hother => by cases hother; rfl⟩
  let one : Job := ⟨p, catalogue, plan, table⟩
  have hinvariant : Invariant one s stored σ := (Invariant.start htable).history hplan h
  refine ⟨?_, ?_, ?_, ?_⟩
  · intro i cursor size around hnext range run
    refine ⟨history_of_run hnext size around, ?_⟩
    intro last hstopped
    exact ⟨plan, hinvariant.gives_of_run hplan rfl hstopped⟩
  · intro σ' hturn
    exact hinvariant.outcomesWithin_turn hturn
  · intro i a hstage
    have hsound := hinvariant.sound i
    rw [hstage] at hsound
    obtain ⟨hresolve, hattempt, hdone⟩ := hsound
    exact ⟨plan, hresolve, hattempt.gives hdone⟩
  · intro hcompleted
    obtain ⟨hresolve, haccepts, hsettled⟩ := hinvariant.completed hcompleted
    have hgives : one.Gives (stored.covered .full) (fun _ => True) s σ.store := by
      refine Job.gives_of_settledAt (fun r hr => hr) (fun r _ => hsettled r.id) ?_
      intro id _ hnone
      rw [(hsettled id).outcome]
      exact (one.gives_goal stored s).others id trivial hnone
    refine ⟨plan, hresolve, hgives, ?_⟩
    intro around hstop whole
    have htable' : (s.reject none).table table = .ok stored := htable
    have hresolve' : Plan.resolve (s.reject none).rules (s.reject none).constants stored.table =
        .ok plan := hresolve
    have hwhole : whole = one.runFrom .full around (.start .full) (s.reject none) := by
      simp only [whole, Pass.run, htable', hstale, hresolve', Bool.false_eq_true, if_false]
      rfl
    have hthrough : one.Through .full around (.start .full) (stored.covered .full)
        (s.reject none) whole := hwhole ▸ Job.through_runFrom hstop htable' rfl haccepts
    refine ⟨⟨_, hthrough.ending⟩, ?_, fun t f => ?_⟩
    · rw [hthrough.store, Job.outcomes_mark]
      exact Keyed.ext_get? fun id => (hsettled id).outcome
    · rw [hthrough.store, Job.dataOf_mark]
      exact Keyed.ext_get? fun id => (hsettled id).datum t f

/-- Two pieces; the pass over the first one is stopped, and it is taken up when the second
one is completed. Where it is stopped only its first row has an outcome, and its second row has
none until it is taken up. -/
theorem interruption_invisible_taken_up :
    let p : Pass := ⟨⟨.constant 1.0, .onlyOneAbove 0.5, 10.0, 3⟩, .strict, 1, by decide⟩
    let catalogue : List ReferenceObject := [⟨9, [.designation ⟨"M33"⟩]⟩]
    let named : ColumnFilter := .columnName "name"
    let s := (UploadStore.empty.setRules [⟨⟨⟨.designation, ""⟩, "design"⟩, named, 0⟩]).addTable
      ⟨7, "names", [⟨"name", .text, none, none, none, false⟩]⟩
      [⟨"c", .ofList [("name", .text "M33")]⟩, ⟨"a", .ofList [("name", .text "M31")]⟩,
        ⟨"b", .ofList [("name", .text "M33")]⟩] ⟨0, 0⟩
    let calm : Surroundings := ⟨fun _ => false, fun _ _ => true, ⟨5, 0⟩⟩
    let first : Fin (Range.cut ["b"]).length := ⟨0, by decide⟩
    let texts (σ : World (Range.cut ["b"])) := σ.store.outcomes.entries.map fun e => (e.1, e.2.text)
    ∃ (σ₁ σ₂ σ : World (Range.cut ["b"])) (a : Attempt),
      (History p catalogue 7 (.start s) σ₁ ∧ σ₁.stage first = .stopped a ∧
        texts σ₁ = [("a", "collision([])")] ∧
        ∀ id, id ≠ "a" → σ₁.store.outcomes.get? id = none) ∧
      (History p catalogue 7 σ₁ σ₂ ∧ σ₂.stage first = .stopped a ∧
        texts σ₂ = [("a", "collision([])"), ("c", "existing(9)")] ∧
        σ₂.store.outcomes.get? "b" = none) ∧
      History p catalogue 7 σ₂ σ ∧ (∀ i, σ.stage i = .completed) ∧
      texts σ = [("a", "collision([])"), ("b", "existing(9)"), ("c", "existing(9)")] ∧
      σ.store.outcomes = (p.run catalogue 7 .full calm (s.reject none)).store.outcomes := by
  intro p catalogue named s calm first texts
  let second : Fin (Range.cut ["b"]).length := ⟨1, by decide⟩
  have hneither : second ≠ first := by decide
  obtain ⟨stored, htable, hstale, hpassed⟩ : ∃ stored, s.table 7 = .ok stored ∧
      stored.statistics.isUpToDate = false ∧
      (stored.coveredUpTo ⟨none, some "b"⟩ (some "a")).map (·.id) = ["a"] :=
    ⟨_, rfl, by decide +kernel, by decide +kernel⟩
  have honlyA : ∀ r ∈ stored.coveredUpTo ⟨none, some "b"⟩ (some "a"), r.id = "a" := by
    intro r hr
    exact List.mem_singleton.mp (hpassed ▸ List.mem_map_of_mem hr)
  -- the first piece is stopped after its first batch, …
  obtain ⟨⟨σ₁, hhistory₁, hstore₁, hothers₁, hleft₁⟩, hgiven₁⟩ :=
    (interruption_invisible p catalogue htable hstale ["b"] .refl).1 first none 1
      ⟨fun n => n == 1, fun _ _ => true, ⟨5, 0⟩⟩ rfl
  have hstoppedAt : ((p.withBatchSize 1).run catalogue 7 ⟨none, some "b"⟩
      ⟨fun n => n == 1, fun _ _ => true, ⟨5, 0⟩⟩ s).stoppedAt? = some (some "a") := by
    decide +kernel
  obtain ⟨a, hstopped, hstart, hbefore, hcursor⟩ := hleft₁.stopped hstoppedAt
  have hnone : ∀ id, id ≠ "a" → σ₁.store.outcomes.get? id = none := by
    intro id hid
    obtain ⟨plan, -, hgives⟩ := hgiven₁ _ hstoppedAt
    rw [hstore₁]
    exact hgives.others id trivial fun r hr _ heq => hid (heq.symm.trans (honlyA r hr))
  -- … the second one is completed, …
  have hwaiting : (σ₁.stage second).next? = some (some "b") := by
    rw [hothers₁ second hneither]
    rfl
  obtain ⟨⟨σ₂, hhistory₂, hstore₂, hothers₂, hleft₂⟩, -⟩ :=
    (interruption_invisible p catalogue htable hstale ["b"] hhistory₁).1 second _ 2 calm hwaiting
  have hstill : σ₂.stage first = .stopped a := by rw [hothers₂ first hneither.symm, hstopped]
  have hlater₂ := hhistory₁.trans hhistory₂
  have hnotB : σ₂.store.outcomes.get? "b" = none := by
    obtain ⟨plan, -, hgives⟩ :=
      (interruption_invisible p catalogue htable hstale ["b"] hlater₂).2.2.1 first a hstill
    rw [Attempt.range, hstart, hcursor, hbefore] at hgives
    have honly : Range.OnlyIn (Range.cut ["b"]) first "b" :=
      Range.onlyIn_of_covers (List.pairwise_singleton _ _) (by decide +kernel)
    refine hgives.others "b" honly fun r hr _ heq => ?_
    exact absurd (heq.symm.trans (honlyA r hr)) (by decide)
  -- … and then the first one is taken up
  have hagain : (σ₂.stage first).next? = some (some "a") := by
    rw [hstill, ← hcursor]
    rfl
  obtain ⟨⟨σ₃, hhistory₃, hstore₃, hothers₃, hleft₃⟩, -⟩ :=
    (interruption_invisible p catalogue htable hstale ["b"] hlater₂).1 first _ 3 calm hagain
  rw [hstore₁] at hstore₂ hleft₂
  rw [hstore₂] at hstore₃ hleft₃
  have hcompleted : ∀ i, σ₃.stage i = .completed := by
    have hfirst := hleft₃.completed (by decide +kernel)
    have hsecond : σ₃.stage second = .completed := by
      rw [hothers₃ second hneither]
      exact hleft₂.completed (by decide +kernel)
    have hlength : (Range.cut ["b"]).length = 2 := rfl
    rintro ⟨k, hk⟩
    obtain rfl | rfl : k = 0 ∨ k = 1 := by omega
    · exact hfirst
    · exact hsecond
  obtain ⟨plan, -, -, hwhole⟩ := (interruption_invisible p catalogue htable hstale ["b"]
    (hlater₂.trans hhistory₃)).2.2.2 hcompleted
  refine ⟨σ₁, σ₂, σ₃, a, ⟨hhistory₁, hstopped, ?_, hnone⟩, ⟨hhistory₂, hstill, ?_, hnotB⟩,
    hhistory₃, hcompleted, ?_, (hwhole calm fun _ => rfl).2.1⟩
  · simp only [texts, hstore₁]
    decide +kernel
  · simp only [texts, hstore₂]
    decide +kernel
  · simp only [texts, hstore₃]
    decide +kernel

end Pass

end SkyCatalog
