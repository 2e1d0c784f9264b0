import SkyCatalog.Proofs.Crossmatch.Given
import SkyCatalog.Proofs.Crossmatch.History
import SkyCatalog.Proofs.Crossmatch.Toward

/-!
# What every turn of a history preserves

Passes leave the rows of the table, the rules and the constants alone (`Kept`). Every
turn leads toward the store in which all rows are kept, the goal. A piece is settled up to its
cursor (`Stage.Sound`), and what it alone covers reads the outcome that it had when the pass
began, the rows up to the cursor apart (`Attempt.Sound`). These make up the `Invariant`. It holds
at the start, is preserved by one turn (`Invariant.turn`) and so by a whole history
(`Invariant.history`). Under it a turn gives outcomes at most to the rows that are left to one
pass (`Invariant.outcomesWithin_turn`).
-/

namespace SkyCatalog

/-! ## What passes do not change -/

/-- The rows of a table, its description, the rules and the constants are what they
were. -/
structure Kept (s : UploadStore) (table : Int) (stored : StoredTable) (u : UploadStore) : Prop where
  table : ∃ t, u.table table = .ok t ∧ t.rows = stored.rows ∧ t.table = stored.table
  rules : u.rules = s.rules
  constants : u.constants = s.constants

namespace Kept

variable {s u : UploadStore} {table : Int} {stored : StoredTable}

theorem settle (h : Kept s table stored u) (j : Job) (rows : List Row) :
    Kept s table stored (j.settle rows u) := by
  refine ⟨?_, ?_, ?_⟩
  · rw [Job.table_settle]
    exact h.table
  · rw [Job.settle_frame]
    exact h.rules
  · rw [Job.settle_frame]
    exact h.constants

theorem foldl_keepPiece (h : Kept s table stored u) (id : Int) (keep : Family → Bool)
    (records : List Record) : Kept s table stored
      (((Job.pieces records).filter fun piece => keep piece.1).foldl (Job.keepPiece id) u) := by
  rw [Job.foldl_keepPiece_frame fun piece hpiece =>
    Job.placed_of_mem_pieces (List.mem_filter.mp hpiece).1]
  exact ⟨h.table, h.rules, h.constants⟩

theorem mark (h : Kept s table stored u) (range : Range) (now : Time.Instant) :
    Kept s table stored (Job.mark table range now u) := by
  obtain ⟨t, ht, hrows, hdescription⟩ := h.table
  rw [Job.mark, UploadStore.setLastProcessed, UploadStore.updateTable, ht]
  by_cases hfull : range.isFull = true
  · rw [if_pos hfull]
    let marked : StoredTable := { t with statistics.lastProcessed := some now }
    have hput : UploadStore.table { u with tables := u.tables.put table marked } table =
        .ok marked := by
      rw [UploadStore.table, Keyed.get?_put, if_pos Std.ReflCmp.compare_self]
    exact ⟨⟨marked, hput, hrows, hdescription⟩, h.rules, h.constants⟩
  · rw [if_neg hfull]
    exact h

theorem covered_eq {t : StoredTable} (h : t.rows = stored.rows) (range : Range) :
    t.covered range = stored.covered range := by
  rw [StoredTable.covered, h, StoredTable.covered]

end Kept

/-! ## How far the pieces are settled -/

namespace Job

/-- The same job with batches of another size. -/
def resized (j : Job) (size : Nat) : Job :=
  ⟨j.pass.withBatchSize size, j.catalogue, j.plan, j.table⟩

/-- The store in which all rows of a table are kept. -/
def goal (j : Job) (stored : StoredTable) (s : UploadStore) : UploadStore :=
  j.settle (stored.covered .full) (s.reject none)

/-- The rows that are not left are accepted and as in the goal. -/
def Done (j : Job) (goal u : UploadStore) (rows left : List Row) : Prop :=
  ∀ r ∈ rows, r ∉ left → SettledAt goal u r.id ∧ j.plan.Converts j.pass.strictness r

theorem Done.mono {j : Job} {goal u u' : UploadStore} {rows left : List Row}
    (h : j.Done goal u rows left) (htoward : Toward goal u u') : j.Done goal u' rows left :=
  fun r hr hleft => ⟨(h r hr hleft).1.mono htoward, (h r hr hleft).2⟩

end Job

section Invariant

variable (one : Job) (s : UploadStore) (stored : StoredTable) {pieces : List Range}

/-- A pass goes through rows of its piece from its start on. What its piece alone covers reads the
outcome that it had when the pass began, except for the rows up to the cursor with a record. -/
structure Attempt.Sound (i : Fin pieces.length) (u : UploadStore) (a : Attempt) : Prop where
  job : ∃ size, a.job = one.resized size
  start : ∀ r ∈ stored.covered ⟨a.start, (pieces.get i).endAt⟩, r ∈ stored.covered (pieces.get i)
  within : ∀ r ∈ stored.covered ⟨a.reached.cursor, (pieces.get i).endAt⟩,
    r ∈ stored.covered ⟨a.start, (pieces.get i).endAt⟩
  others : ∀ id, Range.OnlyIn pieces i id →
    (∀ r ∈ stored.coveredUpTo (a.range (pieces.get i)) a.reached.cursor,
      (one.record? r).isSome → r.id ≠ id) →
    u.outcomes.get? id = a.before.outcomes.get? id

/-- A piece is settled up to its cursor, and the rows behind the cursor are rows of the piece. -/
def Stage.Sound (i : Fin pieces.length) (u : UploadStore) : Stage → Prop
  | .waiting cursor =>
      (∀ r ∈ stored.covered ⟨cursor, (pieces.get i).endAt⟩, r ∈ stored.covered (pieces.get i)) ∧
        one.Done (one.goal stored s) u (stored.covered (pieces.get i))
          (stored.covered ⟨cursor, (pieces.get i).endAt⟩)
  | .running a | .stopped a =>
      Plan.resolve s.rules s.constants stored.table = .ok one.plan ∧
        a.Sound one stored i u ∧ one.Done (one.goal stored s) u (stored.covered (pieces.get i))
          (stored.covered ⟨a.reached.cursor, (pieces.get i).endAt⟩)
  | .completed =>
      Plan.resolve s.rules s.constants stored.table = .ok one.plan ∧
        one.Done (one.goal stored s) u (stored.covered (pieces.get i)) []

/-- What every turn preserves. -/
structure Invariant (σ : World pieces) : Prop where
  kept : Kept s one.table stored σ.store
  toward : Toward (one.goal stored s) s σ.store
  sound : ∀ i, (σ.stage i).Sound one s stored i σ.store

variable {one s stored} {σ σ' : World pieces} {i : Fin pieces.length} {u u' : UploadStore}
  {a : Attempt}

/-- The rows behind the cursor of a pass are rows of its piece. -/
theorem Attempt.Sound.mem_piece (h : a.Sound one stored i u) :
    ∀ r ∈ stored.covered ⟨a.reached.cursor, (pieces.get i).endAt⟩,
      r ∈ stored.covered (pieces.get i) :=
  fun r hr => h.start r (h.within r hr)

/-- A pass is sound as long as nobody else gives outcomes to what its piece alone covers. -/
theorem Attempt.Sound.mono (h : a.Sound one stored i u)
    (hsame : ∀ id, Range.OnlyIn pieces i id → u'.outcomes.get? id = u.outcomes.get? id) :
    a.Sound one stored i u' :=
  ⟨h.job, h.start, h.within, fun id honly hnone =>
    (hsame id honly).trans (h.others id honly hnone)⟩

theorem Stage.Sound.mono {stage : Stage} (h : stage.Sound one s stored i u)
    (htoward : Toward (one.goal stored s) u u')
    (hsame : ∀ id, Range.OnlyIn pieces i id → u'.outcomes.get? id = u.outcomes.get? id) :
    stage.Sound one s stored i u' := by
  cases stage with
  | waiting cursor => exact ⟨h.1, h.2.mono htoward⟩
  | running a => exact ⟨h.1, h.2.1.mono hsame, h.2.2.mono htoward⟩
  | stopped a => exact ⟨h.1, h.2.1.mono hsame, h.2.2.mono htoward⟩
  | completed => exact ⟨h.1, h.2.mono htoward⟩

/-- What holds of a piece that may be taken up. -/
theorem Stage.Sound.of_next? {stage : Stage} {cursor : Option String}
    (h : stage.Sound one s stored i u) (hnext : stage.next? = some cursor) :
    (∀ r ∈ stored.covered ⟨cursor, (pieces.get i).endAt⟩, r ∈ stored.covered (pieces.get i)) ∧
      one.Done (one.goal stored s) u (stored.covered (pieces.get i))
        (stored.covered ⟨cursor, (pieces.get i).endAt⟩) := by
  cases stage with
  | waiting c =>
      cases hnext
      exact h
  | running a => cases hnext
  | stopped a =>
      cases hnext
      obtain ⟨-, hattempt, hdone⟩ := h
      exact ⟨hattempt.mem_piece, hdone⟩
  | completed => cases hnext

/-- What holds of a pass that goes on. -/
theorem Invariant.running (h : Invariant one s stored σ) (hstage : σ.stage i = .running a) :
    Plan.resolve s.rules s.constants stored.table = .ok one.plan ∧
      a.Sound one stored i σ.store ∧
      one.Done (one.goal stored s) σ.store (stored.covered (pieces.get i))
        (stored.covered ⟨a.reached.cursor, (pieces.get i).endAt⟩) := by
  have hsound := h.sound i
  rw [hstage] at hsound
  exact hsound

/-- One piece comes to another stage, and the store on toward the goal. -/
theorem Invariant.put (h : Invariant one s stored σ) {stage : Stage}
    (hkept : Kept s one.table stored u) (htoward : Toward (one.goal stored s) σ.store u)
    (hwithin : OutcomesWithin (stored.covered (pieces.get i)) σ.store u)
    (hstage : stage.Sound one s stored i u) :
    Invariant one s stored (σ.put i stage u) := by
  refine ⟨hkept, h.toward.trans htoward, fun k => ?_⟩
  -- what the other pieces have settled stays settled, and what they alone cover stays as it is
  by_cases hk : k = i
  · subst hk
    rw [World.stage_put_self]
    exact hstage
  · rw [World.stage_put_of_ne hk]
    refine (h.sound k).mono htoward fun id honly => hwithin id fun r hr heq => ?_
    have hcovers := (stored.mem_covered.mp hr).2
    rw [heq, honly i (Ne.symm hk)] at hcovers
    cases hcovers

/-! ## One turn -/

/-- With one more batch only rows up to the new cursor were given outcomes. -/
theorem Attempt.Sound.advance {left : List Row} {last : Row} (h : a.Sound one stored i u)
    (hleft : stored.covered ⟨a.reached.cursor, (pieces.get i).endAt⟩ = left)
    (hlast : (a.job.batch left).getLast? = some last) (outcomes : Keyed String Outcome) :
    (a.advance outcomes last.id).Sound one stored i (one.settle (a.job.batch left) u) := by
  have hascending : Ascending left := hleft ▸ stored.ascending_covered _
  have hbatch : Ascending (a.job.batch left) := hascending.sublist (List.take_sublist _ _)
  have hrest : stored.covered ⟨some last.id, (pieces.get i).endAt⟩ =
      left.drop a.job.pass.batchSize := Job.covered_after_batch hleft hlast
  refine ⟨h.job, h.start, fun r hr => ?_, fun id honly hnone => ?_⟩
  · have hdrop : r ∈ left.drop a.job.pass.batchSize := hrest ▸ hr
    exact h.within r (hleft ▸ List.mem_of_mem_drop hdrop)
  · have hnew : ∀ r ∈ a.job.batch left,
        r ∈ stored.coveredUpTo (a.range (pieces.get i)) (some last.id) := by
      intro r hr
      -- no row stands twice, so one of the batch is not among those after it
      have hdisjoint : (a.job.batch left).Disjoint (left.drop a.job.pass.batchSize) :=
        List.disjoint_take_drop hascending.nodup.of_map le_rfl
      refine stored.mem_coveredUpTo_iff_notMem.mpr ⟨?_, fun hdrop => hdisjoint hr (hrest ▸ hdrop)⟩
      exact h.within r (hleft ▸ Job.mem_of_mem_batch hr)
    have hold : ∀ r ∈ stored.coveredUpTo (a.range (pieces.get i)) a.reached.cursor,
        r ∈ stored.coveredUpTo (a.range (pieces.get i)) (some last.id) := by
      intro r hr
      obtain ⟨hmem, hnot⟩ := stored.mem_coveredUpTo_iff_notMem.mp hr
      refine stored.mem_coveredUpTo_iff_notMem.mpr ⟨hmem, fun hdrop => hnot ?_⟩
      exact hleft ▸ List.mem_of_mem_drop (hrest ▸ hdrop)
    calc (one.settle (a.job.batch left) u).outcomes.get? id = u.outcomes.get? id :=
          Job.get?_outcomes_settle_of_forall hbatch (fun r hr => hnone r (hnew r hr)) u
      _ = a.before.outcomes.get? id := h.others id honly fun r hr => hnone r (hold r hr)

/-- A batch settles its rows. -/
theorem Job.Done.settle {piece : Range} {left b rest : List Row} {u : UploadStore}
    (h : one.Done (one.goal stored s) u (stored.covered piece) left) (hsplit : b ++ rest = left)
    (hleft : ∀ r ∈ left, r ∈ stored.covered .full) (hb : Ascending b)
    (htoward : Toward (one.goal stored s) s u) (haccepts : ∀ r ∈ b, one.Accepts u r) :
    one.Done (one.goal stored s) (one.settle b u) (stored.covered piece) rest := by
  have hsub : ∀ r ∈ b, r ∈ stored.covered .full :=
    fun r hr => hleft r (hsplit ▸ List.mem_append_left rest hr)
  intro r hr hrest
  -- the rows of the batch are settled by it, and those behind it were before
  by_cases hmem : r ∈ b
  · exact ⟨Job.settledAt_settle (stored.ascending_covered _) hb hsub htoward haccepts hmem,
      (haccepts r hmem).1⟩
  · have hnot : r ∉ left := by
      rw [← hsplit, List.mem_append]
      exact fun h => h.elim hmem hrest
    exact h.mono (Job.toward_settle (stored.ascending_covered _) hb hsub u) r hr hnot

theorem mem_covered_full {range : Range} {r : Row} (h : r ∈ stored.covered range) :
    r ∈ stored.covered .full :=
  stored.mem_covered.mpr ⟨(stored.mem_covered.mp h).1, rfl⟩

section Round

variable {lands : Family → Bool}

/-- A round is that of the one job, the size of its batch apart. -/
theorem Invariant.round_cases (h : Invariant one s stored σ) (hstage : σ.stage i = .running a)
    (lands : Family → Bool) {left : List Row}
    (hleft : stored.covered ⟨a.reached.cursor, (pieces.get i).endAt⟩ = left) :
    (left = [] ∧
      a.job.round (a.range (pieces.get i)) lands a.reached.cursor σ.store = .exhausted) ∨
    (∃ last isLast, (a.job.batch left).getLast? = some last ∧
      (∀ r ∈ a.job.batch left, one.Accepts σ.store r) ∧
      (isLast = true → left.drop a.job.pass.batchSize = []) ∧
      a.job.round (a.range (pieces.get i)) lands a.reached.cursor σ.store =
        .processed (one.settle (a.job.batch left) σ.store) (a.job.pass.identification.identify
          a.job.catalogue (a.job.records (a.job.batch left))) last.id isLast) ∨
    (∃ (keep : Family → Bool) (e : PassError),
      a.job.round (a.range (pieces.get i)) lands a.reached.cursor σ.store = .failed
        (((Job.pieces (one.records (a.job.batch left))).filter fun piece => keep piece.1).foldl
          (Job.keepPiece one.table) σ.store) e) := by
  obtain ⟨-, hattempt, -⟩ := h.running hstage
  obtain ⟨size, hjob⟩ := hattempt.job
  obtain ⟨t, ht, hrows, -⟩ := h.kept.table
  -- nothing else depends on the size of the batches
  have hsettle : a.job.settle = one.settle := by rw [hjob]; rfl
  have haccept : a.job.Accepts = one.Accepts := by rw [hjob]; rfl
  have hrecords : a.job.records = one.records := by rw [hjob]; rfl
  have htableid : a.job.table = one.table := by rw [hjob]; rfl
  have htable : σ.store.table a.job.table = .ok t := htableid ▸ ht
  have hcovered : t.covered ⟨a.reached.cursor, (a.range (pieces.get i)).endAt⟩ = left :=
    (Kept.covered_eq hrows _).trans hleft
  rcases Job.round_cases htable (a.range (pieces.get i)) lands a.reached.cursor hcovered with
    hround | ⟨last, isLast, hlast, haccepts, hshort, hround⟩ | ⟨keep, e, -, hround⟩
  · exact Or.inl hround
  · rw [hsettle] at hround
    rw [haccept] at haccepts
    exact Or.inr (Or.inl ⟨last, isLast, hlast, haccepts, hshort, hround⟩)
  · rw [htableid, hrecords] at hround
    exact Or.inr (Or.inr ⟨keep, e, hround⟩)

/-- The rows of a batch ascend, and they are rows of the table. -/
theorem batch_of_covered {range : Range} {left : List Row} (hleft : stored.covered range = left)
    (j : Job) : Ascending (j.batch left) ∧ ∀ r ∈ j.batch left, r ∈ stored.covered .full := by
  subst hleft
  constructor
  · exact (stored.ascending_covered range).sublist (List.take_sublist _ _)
  · intro r hr
    exact mem_covered_full (Job.mem_of_mem_batch hr)

theorem Invariant.of_exhausted (h : Invariant one s stored σ) (hstage : σ.stage i = .running a)
    (hround : a.job.round (a.range (pieces.get i)) lands a.reached.cursor σ.store = .exhausted) :
    stored.covered ⟨a.reached.cursor, (pieces.get i).endAt⟩ = [] := by
  rcases h.round_cases hstage lands rfl with
    ⟨hnil, -⟩ | ⟨last, isLast, -, -, -, heq⟩ | ⟨keep, e, heq⟩
  · exact hnil
  · cases hround.symm.trans heq
  · cases hround.symm.trans heq

/-- A batch that fails changes little, and leads toward the goal. -/
theorem Invariant.of_failed (h : Invariant one s stored σ) (hstage : σ.stage i = .running a)
    {e : PassError}
    (hround : a.job.round (a.range (pieces.get i)) lands a.reached.cursor σ.store =
      .failed u e) :
    Kept s one.table stored u ∧ Toward (one.goal stored s) σ.store u ∧
      u.outcomes = σ.store.outcomes := by
  rcases h.round_cases hstage lands rfl with
      ⟨-, heq⟩ | ⟨last, isLast, -, -, -, heq⟩ | ⟨keep, e, heq⟩
  · cases hround.symm.trans heq
  · cases hround.symm.trans heq
  · cases hround.symm.trans heq
    obtain ⟨hbatch, hfull⟩ := batch_of_covered (rfl : stored.covered _ = _) a.job
    refine ⟨h.kept.foldl_keepPiece _ keep _,
      Job.toward_foldl_keepPiece (stored.ascending_covered _) hbatch hfull keep σ.store, ?_⟩
    rw [Job.foldl_keepPiece_frame fun piece hpiece =>
      Job.placed_of_mem_pieces (List.mem_filter.mp hpiece).1]

/-- A batch that is processed settles the piece up to the new cursor. -/
theorem Invariant.of_processed (h : Invariant one s stored σ) (hstage : σ.stage i = .running a)
    {outcomes : Keyed String Outcome} {cursor : String} {isLast : Bool}
    (hround : a.job.round (a.range (pieces.get i)) lands a.reached.cursor σ.store =
      .processed u outcomes cursor isLast) :
    Kept s one.table stored u ∧ Toward (one.goal stored s) σ.store u ∧
      OutcomesWithin (stored.covered ⟨a.reached.cursor, (pieces.get i).endAt⟩) σ.store u ∧
      (a.advance outcomes cursor).Sound one stored i u ∧
      one.Done (one.goal stored s) u (stored.covered (pieces.get i))
        (stored.covered ⟨some cursor, (pieces.get i).endAt⟩) ∧
      (isLast = true → stored.covered ⟨some cursor, (pieces.get i).endAt⟩ = []) := by
  obtain ⟨-, hattempt, hdone⟩ := h.running hstage
  rcases h.round_cases hstage lands rfl with
    ⟨-, heq⟩ | ⟨last, isLast, hlast, haccepts, hshort, heq⟩ | ⟨keep, e, heq⟩
  · cases hround.symm.trans heq
  · cases hround.symm.trans heq
    obtain ⟨hbatch, hfull⟩ := batch_of_covered (rfl : stored.covered _ = _) a.job
    have hrest := Job.covered_after_batch rfl hlast
    refine ⟨h.kept.settle one _, Job.toward_settle (stored.ascending_covered _) hbatch hfull _,
      (one.outcomesWithin_settle _ _).mono fun r hr => Job.mem_of_mem_batch hr,
      hattempt.advance rfl hlast _, ?_, fun hend => hrest.trans (hshort hend)⟩
    rw [hrest]
    exact hdone.settle (a.job.batch_append_drop _) (fun r hr => mem_covered_full hr) hbatch
      h.toward haccepts
  · cases hround.symm.trans heq

end Round

/-- A pass that comes to the end of its range marks the table, at most. -/
theorem Kept.marked {u marked : UploadStore} {table : Int} {range : Range} {now : Time.Instant}
    {reached reached' : Reached} (h : Kept s table stored u)
    (hfinish : Job.finish table range now reached u = ⟨marked, [], .ok (.completed reached')⟩) :
    Kept s table stored marked ∧ (∀ goal, Toward goal u marked) ∧
      marked.outcomes = u.outcomes := by
  obtain ⟨t, ht, -, -⟩ := h.table
  have hmark : Job.mark table range now u = marked :=
    congrArg Run.store ((Job.finish_of_table ht range now reached).symm.trans hfinish)
  subst hmark
  exact ⟨h.mark range now, fun goal => .of_eq (Job.outcomes_mark ..) (Job.data_mark ..),
    Job.outcomes_mark ..⟩

/-- The invariant holds after every turn. -/
theorem Invariant.turn
    (hplan : ∀ plan, Plan.resolve s.rules s.constants stored.table = .ok plan → plan = one.plan)
    (h : Invariant one s stored σ) (hturn : Turn one.pass one.catalogue one.table σ σ') :
    Invariant one s stored σ' := by
  cases hturn with
  | reject family =>
      have htoward : Toward (one.goal stored s) σ.store (σ.store.reject family) := .of_eq rfl rfl
      exact ⟨⟨h.kept.table, h.kept.rules, h.kept.constants⟩, h.toward.trans htoward,
        fun k => (h.sound k).mono htoward fun _ _ => rfl⟩
  | begin i size hnext htable hstale hresolve =>
      -- the plan is that of the beginning, since neither table nor rules have changed
      obtain ⟨t, ht, -, hdescription⟩ := h.kept.table
      rw [ht] at htable
      cases htable
      rw [h.kept.rules, h.kept.constants, hdescription] at hresolve
      obtain rfl := hplan _ hresolve
      obtain ⟨hpiece, hdone⟩ := (h.sound i).of_next? hnext
      -- no outcome was given since the pass began
      exact h.put h.kept (.of_eq rfl rfl) (.of_eq rfl)
        ⟨hresolve, ⟨⟨size, rfl⟩, hpiece, fun r hr => hr, fun _ _ _ => rfl⟩, hdone⟩
  | batch i lands hstage hround =>
      obtain ⟨hresolve, hbefore, -⟩ := h.running hstage
      obtain ⟨hkept, htoward, hwithin, hattempt, hdone, -⟩ := h.of_processed hstage hround
      exact h.put hkept htoward (hwithin.mono hbefore.mem_piece) ⟨hresolve, hattempt, hdone⟩
  | last i lands now hstage hround hfinish =>
      obtain ⟨hresolve, hbefore, -⟩ := h.running hstage
      obtain ⟨hkept, htoward, hwithin, -, hdone, hshort⟩ := h.of_processed hstage hround
      obtain ⟨hmarked, hmark, hsame⟩ := hkept.marked hfinish
      rw [hshort rfl] at hdone
      exact h.put hmarked (htoward.trans (hmark _))
        ((hwithin.mono hbefore.mem_piece).congr_right hsame) ⟨hresolve, hdone.mono (hmark _)⟩
  | exhausted i lands now hstage hround hfinish =>
      obtain ⟨hresolve, -, hdone⟩ := h.running hstage
      obtain ⟨hmarked, hmark, hsame⟩ := h.kept.marked hfinish
      rw [h.of_exhausted hstage hround] at hdone
      exact h.put hmarked (hmark _) (.of_eq hsame) ⟨hresolve, hdone.mono (hmark _)⟩
  | fail i lands hstage hround =>
      obtain ⟨-, hattempt, hdone⟩ := h.running hstage
      obtain ⟨hkept, htoward, hsame⟩ := h.of_failed hstage hround
      exact h.put hkept htoward (.of_eq hsame)
        ⟨hattempt.mem_piece, hdone.mono htoward⟩
  | stop i hstage => exact h.put h.kept (.of_eq rfl rfl) (.of_eq rfl) (h.running hstage)

/-- A turn gives no outcome, or it is that of a pass that goes on, and gives outcomes to rows that
are left to this pass. -/
theorem Invariant.outcomesWithin_turn (h : Invariant one s stored σ)
    (hturn : Turn one.pass one.catalogue one.table σ σ') :
    σ'.store.outcomes = σ.store.outcomes ∨
      ∃ i a, σ.stage i = .running a ∧ (∀ k, k ≠ i → σ'.stage k = σ.stage k) ∧
        OutcomesWithin (stored.covered ⟨a.reached.cursor, (pieces.get i).endAt⟩)
          σ.store σ'.store := by
  cases hturn with
  | reject family => exact Or.inl rfl
  | begin i size hnext htable hstale hresolve => exact Or.inl rfl
  | batch i lands hstage hround =>
      obtain ⟨-, -, hwithin, -⟩ := h.of_processed hstage hround
      exact Or.inr ⟨i, _, hstage, fun k hk => World.stage_put_of_ne hk _ _, hwithin⟩
  | last i lands now hstage hround hfinish =>
      obtain ⟨hkept, -, hwithin, -⟩ := h.of_processed hstage hround
      obtain ⟨-, -, hsame⟩ := hkept.marked hfinish
      exact Or.inr ⟨i, _, hstage, fun k hk => World.stage_put_of_ne hk _ _,
        hwithin.congr_right hsame⟩
  | exhausted i lands now hstage hround hfinish =>
      obtain ⟨-, -, hsame⟩ := h.kept.marked hfinish
      exact Or.inl hsame
  | fail i lands hstage hround =>
      obtain ⟨-, -, hsame⟩ := h.of_failed hstage hround
      exact Or.inl hsame
  | stop i hstage => exact Or.inl rfl

/-- The invariant holds where no piece was taken up yet, … -/
theorem Invariant.start (hstored : s.table one.table = .ok stored) :
    Invariant one s stored (.start s : World pieces) where
  kept := ⟨⟨stored, hstored, rfl, rfl⟩, rfl, rfl⟩
  toward := .of_eq rfl rfl
  sound _ := ⟨fun _ hr => hr, fun _ hr hnot => absurd hr hnot⟩

/-- … and so after every history. -/
theorem Invariant.history
    (hplan : ∀ plan, Plan.resolve s.rules s.constants stored.table = .ok plan → plan = one.plan)
    (h : Invariant one s stored σ) (hhistory : History one.pass one.catalogue one.table σ σ') :
    Invariant one s stored σ' := by
  induction hhistory with
  | refl => exact h
  | tail _ hturn ih => exact ih.turn hplan hturn

end Invariant

end SkyCatalog
