import SkyCatalog.Proofs.TaskGroup.Accounts

/-!
# The end of a wait

Once a failure was reported no task is started any more (`started_of_steps_of_failed`). Once a
group is waited for every step lowers what is `pending`, and unless the wait is over some step
is possible; so the wait comes to an end. Where it is over, everything that was started was
reported and nothing waits, so that the log says how many tasks were cancelled and what the one
who waits is told (`settled_of_over`). A single worker goes through the tasks in order, up to
the first that does not end well (`OneByOne`).

The main statement is `tasks_neither_lost_nor_repeated`.
-/

namespace SkyCatalog

variable {ε : Type}

/-- What is told of a group if only this end counts. -/
def TaskEnd.verdict : TaskEnd ε → Verdict ε
  | .success => .ok
  | .failure e => .error e
  | .broken reason => .broken reason

theorem Task.fails_eq_false_iff {t : Task ε} : t.fails = false ↔ t.ends = .success := by
  rcases t with ⟨number, ends⟩
  cases ends <;> simp [Task.fails, TaskEnd.succeeds]

theorem Task.fails_iff {t : Task ε} : t.fails = true ↔ t.ends ≠ .success := by
  rw [Ne, ← Task.fails_eq_false_iff, Bool.not_eq_false]

namespace TaskGroup

variable {limit : Nat} {log : Log ε} {g g' : TaskGroup ε}

/-! ## After a failure -/

/-- A step of a group that has failed starts nothing. -/
theorem started_of_step_of_failed {s : GroupStep ε} (h : Accounted log g)
    (hs : g.step? s = some g') (hfailed : g.failed = true) :
    g'.started = g.started ∧ g'.failed = true := by
  rcases step_cases hs with ⟨ends, starts, rfl, -, rfl⟩ | ⟨rfl, -, rfl⟩ | ⟨t, -, rfl, rfl⟩ |
    ⟨rfl, -, rfl⟩ | ⟨rfl, -, -, rfl⟩
  · simp [spawn, hfailed]
  · -- the queue was emptied
    rw [take_of_nil (h.queue_eq_nil hfailed)]
    exact ⟨rfl, hfailed⟩
  · simp [hfailed]
  · exact ⟨rfl, hfailed⟩
  · exact ⟨rfl, hfailed⟩

theorem started_of_steps_of_failed {rest : List (GroupStep ε)} (h : Accounted log g)
    (hs : g.steps? rest = some g') (hfailed : g.failed = true) : g'.started = g.started := by
  induction rest generalizing log g with
  | nil =>
      cases hs
      rfl
  | cons s later ih =>
      obtain ⟨m, hm, hlater⟩ := Option.bind_eq_some_iff.mp hs
      obtain ⟨hstarted, hfailed'⟩ := started_of_step_of_failed h hm hfailed
      rw [ih (h.step hm) hlater hfailed', hstarted]

/-! ## The wait comes to an end -/

/-- An upper bound of the steps that are left once the group is waited for. -/
def pending (g : TaskGroup ε) : Nat :=
  3 * g.queue.length + 2 * g.running.length + g.idle + if g.phase = .joining then 2 else 0

/-- A step of a group that is waited for. -/
theorem pending_lt_of_step {s : GroupStep ε} (hs : g.step? s = some g')
    (hphase : g.phase ≠ .spawning) : g'.pending < g.pending ∧ g'.phase ≠ .spawning := by
  rcases step_cases hs with ⟨ends, starts, rfl, hspawning, rfl⟩ | ⟨rfl, hidle, rfl⟩ |
    ⟨t, ht, rfl, rfl⟩ | ⟨rfl, hspawning, rfl⟩ | ⟨rfl, hjoining, hnone, rfl⟩
  · exact absurd hspawning hphase
  · cases hqueue : g.queue with
    | nil =>
        rw [take_of_nil hqueue]
        refine ⟨?_, hphase⟩
        simp only [pending]
        omega
    | cons t rest =>
        rw [take_of_cons hqueue]
        refine ⟨?_, hphase⟩
        simp only [pending, hqueue, List.length_cons, List.length_append, List.length_nil]
        omega
  · have hshorter := length_running_finish ht
    have hqueue : (g.finish t).queue.length ≤ g.queue.length := by
      rw [queue_finish]
      split
      · exact Nat.zero_le _
      · exact Nat.le_refl _
    refine ⟨?_, by rwa [phase_finish]⟩
    simp only [pending, idle_finish, phase_finish]
    omega
  · exact absurd hspawning hphase
  · refine ⟨?_, nofun⟩
    simp only [workers] at hnone
    simp only [pending, hjoining, if_true, reduceCtorEq, if_false]
    omega

/-- Unless the wait is over, a worker takes a task or retires, reports, or is joined. -/
theorem exists_step (hphase : g.phase ≠ .spawning) (hover : g.isOver = false) :
    ∃ s, (g.step? s).isSome := by
  rcases Nat.eq_zero_or_pos g.idle with hidle | hidle
  · cases hrunning : g.running with
    | nil =>
        have hworkers : g.workers = 0 := by simp [workers, hidle, hrunning]
        cases hp : g.phase with
        | spawning => exact absurd hp hphase
        | joining => exact ⟨.join, by simp [step?, hp, hworkers]⟩
        | draining => simp [isOver, hp, hworkers] at hover
    | cons t rest => exact ⟨.report t.number, by simp [step?, hrunning]⟩
  · exact ⟨.take, by simp [step?, hidle]⟩

/-- What can follow once the group is waited for. -/
theorem length_le_pending {rest : List (GroupStep ε)} (hphase : g.phase ≠ .spawning)
    (hs : g.steps? rest = some g') :
    rest.length ≤ g.pending ∧ g'.phase ≠ .spawning := by
  induction rest generalizing g with
  | nil =>
      cases hs
      exact ⟨Nat.zero_le _, hphase⟩
  | cons s later ih =>
      obtain ⟨m, hm, hlater⟩ := Option.bind_eq_some_iff.mp hs
      obtain ⟨hlt, hwaiting⟩ := pending_lt_of_step hm hphase
      obtain ⟨hle, hafter⟩ := ih hwaiting hlater
      rw [List.length_cons]
      exact ⟨by omega, hafter⟩

/-! ## What the one who waits is told -/

/-- What is left of a group when the wait is over. -/
structure Settled (log : Log ε) (g : TaskGroup ε) : Prop where
  /-- What was started was reported. -/
  reported : g.started.Perm log.reported
  /-- Every task was run or cancelled, … -/
  count : g.started.length + g.cancelled = log.spawned.length
  /-- … and all were run if those that were run ended well. -/
  none_cancelled : (∀ t ∈ g.started, t.ends = .success) →
    g.cancelled = 0 ∧ g.started = log.spawned
  ok_iff : g.verdict = .ok ↔ ∀ t ∈ g.started, t.ends = .success
  /-- A break outdoes every error; it is the first that was reported. -/
  broken : (∃ t ∈ g.started, ∃ reason, t.ends = .broken reason) →
    ∃ reason, log.reported.findSome? (·.ends.reason?) = some reason ∧
      g.verdict = .broken reason
  /-- Otherwise it is the error whose report came first. -/
  error_iff : ∀ e, g.verdict = .error e ↔
    (∀ t ∈ g.started, ∀ reason, t.ends ≠ .broken reason) ∧
      ∃ first, log.reported.find? Task.fails = some first ∧ first.ends = .failure e

/-- Nothing is left in the queue or on a worker when the wait is over. -/
theorem rest_of_over (h : Staffed limit g) (hover : g.isOver = true) :
    g.queue = [] ∧ g.running = [] := by
  obtain ⟨hphase, hnone⟩ : g.phase = .draining ∧ g.workers = 0 := by simpa [isOver] using hover
  refine ⟨h.drained hphase hnone, ?_⟩
  rw [workers, Nat.add_eq_zero_iff] at hnone
  exact List.length_eq_zero_iff.mp hnone.2

/-- No break was reported. -/
theorem reason?_eq_none_iff {tasks : List (Task ε)} :
    tasks.findSome? (·.ends.reason?) = none ↔
      ∀ t ∈ tasks, ∀ reason, t.ends ≠ .broken reason := by
  rw [List.findSome?_eq_none_iff]
  refine forall₂_congr fun t _ => ?_
  rcases t with ⟨number, ends⟩
  cases ends <;> simp [TaskEnd.reason?]

/-- The first break that was reported counts, or else the first failure. -/
theorem verdict_eq (h : Accounted log g) :
    g.verdict = match log.reported.findSome? (·.ends.reason?) with
      | some reason => .broken reason
      | none => ((log.reported.find? Task.fails).map (·.ends.verdict)).getD .ok := by
  rw [verdict, h.firstBreak_eq, h.firstError_eq]
  cases hreason : log.reported.findSome? (·.ends.reason?) with
  | some reason => rfl
  | none =>
      cases hfirst : log.reported.find? Task.fails with
      | none => rfl
      | some first =>
          have hfails : first.ends ≠ .success := Task.fails_iff.mp (List.find?_some hfirst)
          have hunbroken := reason?_eq_none_iff.mp hreason first (List.mem_of_find?_eq_some hfirst)
          cases hends : first.ends with
          | success => exact absurd hends hfails
          | failure e => simp [TaskEnd.error?, TaskEnd.verdict, hends]
          | broken reason => exact absurd hends (hunbroken reason)

/-- The verdict is good if what was reported ended well. -/
theorem verdict_eq_ok_iff (h : Accounted log g) :
    g.verdict = .ok ↔ log.reported.find? Task.fails = none := by
  rw [verdict_eq h]
  constructor
  · intro hok
    cases hreason : log.reported.findSome? (·.ends.reason?) with
    | some reason => simp [hreason] at hok
    | none =>
        by_contra hfirst
        obtain ⟨first, hfirst⟩ := Option.ne_none_iff_exists'.mp hfirst
        have hfails : first.ends ≠ .success := Task.fails_iff.mp (List.find?_some hfirst)
        cases hends : first.ends <;> simp_all [TaskEnd.verdict]
  · intro hfirst
    have hreason : log.reported.findSome? (·.ends.reason?) = none :=
      reason?_eq_none_iff.mpr fun t ht reason => by
        have hwell : t.fails = false := by simpa using List.find?_eq_none.mp hfirst t ht
        simp [Task.fails_eq_false_iff.mp hwell]
    simp [hreason, hfirst]

/-- The verdict is an error if no break was reported, and the first failure ended with it. -/
theorem verdict_eq_error_iff (h : Accounted log g) (e : ε) :
    g.verdict = .error e ↔ log.reported.findSome? (·.ends.reason?) = none ∧
      ∃ first, log.reported.find? Task.fails = some first ∧ first.ends = .failure e := by
  rw [verdict_eq h]
  cases hreason : log.reported.findSome? (·.ends.reason?) with
  | some reason => simp
  | none =>
      cases hfirst : log.reported.find? Task.fails with
      | none => simp
      | some first => cases hends : first.ends <;> simp [hends, TaskEnd.verdict]

theorem settled_of_over (h : Accounted log g) (hstaff : Staffed limit g)
    (hover : g.isOver = true) : Settled log g := by
  obtain ⟨hqueue, hrunning⟩ := rest_of_over hstaff hover
  obtain ⟨dropped, hsplit, hcount, hnone⟩ := h.split
  have hreported : g.started.Perm log.reported := by simpa [hrunning] using h.ended
  -- what was started is what was reported
  have hsuccess : log.reported.find? Task.fails = none ↔ ∀ t ∈ g.started, t.ends = .success := by
    rw [List.find?_eq_none]
    exact forall_congr' fun t => by
      rw [hreported.mem_iff, Bool.not_eq_true, Task.fails_eq_false_iff]
  have hunbroken : log.reported.findSome? (·.ends.reason?) = none ↔
      ∀ t ∈ g.started, ∀ reason, t.ends ≠ .broken reason := by
    rw [reason?_eq_none_iff]
    exact forall_congr' fun t => by rw [hreported.mem_iff]
  constructor
  case reported => exact hreported
  case count => simp [hsplit, hqueue, hcount]
  case none_cancelled =>
    intro hall
    have hwell : g.failed = false := by
      rw [h.failed_eq, List.any_eq_false]
      exact List.find?_eq_none.mp (hsuccess.mpr hall)
    obtain rfl := hnone hwell
    exact ⟨hcount.symm, by simp [hsplit, hqueue]⟩
  case ok_iff => rw [verdict_eq_ok_iff h, hsuccess]
  case broken =>
    rintro ⟨t, ht, reason, hends⟩
    cases hreason : log.reported.findSome? (·.ends.reason?) with
    | none => exact absurd hends (hunbroken.mp hreason t ht reason)
    | some first => exact ⟨first, rfl, by rw [verdict_eq h, hreason]⟩
  case error_iff =>
    intro e
    rw [verdict_eq_error_iff h, hunbroken]

/-! ## A single worker -/

/-- The tasks up to and including the first that does not end well. -/
def upToFailure : List (Task ε) → List (Task ε)
  | [] => []
  | t :: rest => if t.fails then [t] else t :: upToFailure rest

theorem upToFailure_append_of_well {a : List (Task ε)} (b : List (Task ε))
    (ha : ∀ t ∈ a, t.fails = false) : upToFailure (a ++ b) = a ++ upToFailure b := by
  induction a with
  | nil => rfl
  | cons t rest ih =>
      obtain ⟨ht, hrest⟩ := List.forall_mem_cons.mp ha
      simp [upToFailure, ht, ih hrest]

theorem upToFailure_append_of_fails {a : List (Task ε)} (b : List (Task ε))
    (ha : ∃ t ∈ a, t.fails = true) : upToFailure (a ++ b) = upToFailure a := by
  induction a with
  | nil => simp at ha
  | cons t rest ih =>
      cases ht : t.fails with
      | true => simp [upToFailure, ht]
      | false => simp [upToFailure, ht, ih (by simpa [ht] using ha)]

/-- What ends at the first failure, read from its end. -/
theorem findSome?_reason?_of_upToFailure {tasks : List (Task ε)}
    (h : upToFailure tasks = tasks) :
    tasks.findSome? (·.ends.reason?) = (tasks.find? Task.fails).bind (·.ends.reason?) := by
  induction tasks with
  | nil => rfl
  | cons t rest ih =>
      cases ht : t.fails with
      | true =>
          obtain rfl : rest = [] := by simpa [upToFailure, ht, eq_comm] using h
          simp [ht, List.findSome?]
          cases t.ends.reason? <;> rfl
      | false =>
          have hrest : upToFailure rest = rest := by simpa [upToFailure, ht] using h
          have hreason : t.ends.reason? = none := by
            rw [Task.fails_eq_false_iff.mp ht]
            rfl
          simp [ht, hreason, ih hrest]

/-- The tasks are run one after the other, up to a failure. -/
structure OneByOne (log : Log ε) (g : TaskGroup ε) : Prop where
  started_eq : g.started = log.reported ++ g.running
  upToFailure_eq : upToFailure g.started = g.started

namespace OneByOne

/-- Where nothing runs and nothing failed, everything that was started ended well. -/
theorem fails_eq_false (h : OneByOne log g) (hacc : Accounted log g) (hrunning : g.running = [])
    (hwell : g.failed = false) : ∀ t ∈ g.started, t.fails = false := by
  have hstarted := h.started_eq
  rw [hacc.failed_eq, List.any_eq_false] at hwell
  rw [hrunning, List.append_nil] at hstarted
  simpa [hstarted] using hwell

theorem spawn (h : OneByOne log g) (ends : TaskEnd ε) (starts : Bool) :
    OneByOne (log.after (.spawn ends starts)) (g.spawn ends starts) := by
  obtain ⟨hstarted, hrunning⟩ : (g.spawn ends starts).started = g.started ∧
      (g.spawn ends starts).running = g.running := by
    unfold TaskGroup.spawn
    split
    · exact ⟨rfl, rfl⟩
    · split <;> exact ⟨rfl, rfl⟩
  exact ⟨by rw [hstarted, hrunning]; exact h.started_eq, by rw [hstarted, h.upToFailure_eq]⟩

/-- The only worker is idle, so everything started was reported, and nothing failed. -/
theorem take (h : OneByOne log g) (hacc : Accounted log g) (hrunning : g.running = []) :
    OneByOne log g.take := by
  cases hqueue : g.queue with
  | nil =>
      rw [take_of_nil hqueue]
      exact ⟨h.started_eq, h.upToFailure_eq⟩
  | cons t rest =>
      have hwell : g.failed = false := by
        by_contra hfailed
        simp [hacc.queue_eq_nil (by simpa using hfailed)] at hqueue
      have hall := h.fails_eq_false hacc hrunning hwell
      rw [take_of_cons hqueue]
      constructor
      case started_eq => simp [h.started_eq]
      case upToFailure_eq => simp [upToFailure_append_of_well _ hall, upToFailure]

theorem finish {t : Task ε} (h : OneByOne log g) (hacc : Accounted log g)
    (hrunning : g.running = [t]) : OneByOne (log.after (.report t.number)) (g.finish t) := by
  have ht : t ∈ g.running := by simp [hrunning]
  have hreported : (log.after (.report t.number)).reported = log.reported ++ [t] := by
    simp [Log.after, hacc.numbered.getElem? (hacc.mem_spawned_of_running ht)]
  constructor
  case started_eq =>
    rw [hreported, started_finish, running_finish, h.started_eq, hrunning]
    simp
  case upToFailure_eq => rw [started_finish, h.upToFailure_eq]

theorem step {s : GroupStep ε} (h : OneByOne log g) (hacc : Accounted log g)
    (hstaff : Staffed limit g) (hone : limit ≤ 1) (hs : g.step? s = some g') :
    OneByOne (log.after s) g' := by
  have hworkers : g.idle + g.running.length ≤ 1 := by
    have hle := hstaff.workers_le
    rwa [hstaff.limit_eq, Nat.max_eq_left hone] at hle
  rcases step_cases hs with ⟨ends, starts, rfl, -, rfl⟩ | ⟨rfl, hidle, rfl⟩ | ⟨t, ht, rfl, rfl⟩ |
    ⟨rfl, -, rfl⟩ | ⟨rfl, -, -, rfl⟩
  · exact h.spawn ends starts
  · exact h.take hacc (List.length_eq_zero_iff.mp (by omega))
  · have hlength := List.length_pos_of_mem ht
    obtain ⟨only, honly⟩ := List.length_eq_one_iff.mp (by omega : g.running.length = 1)
    obtain rfl : t = only := by simpa [honly] using ht
    exact h.finish hacc honly
  · exact ⟨h.started_eq, h.upToFailure_eq⟩
  · exact ⟨h.started_eq, h.upToFailure_eq⟩

end OneByOne

theorem oneByOne_of_steps {history : List (GroupStep ε)} (hone : limit ≤ 1)
    (h : (ofLimit limit).steps? history = some g) : OneByOne (.ofHistory history) g := by
  induction history using List.reverseRecOn generalizing g with
  | nil =>
      cases h
      exact ⟨rfl, rfl⟩
  | append_singleton earlier s ih =>
      obtain ⟨m, hm, hstep⟩ := steps?_concat_eq_some_iff.mp h
      rw [Log.ofHistory, List.foldl_append]
      exact (ih hm).step (accounted_of_steps hm) (staffed_of_steps hm) hone hstep

/-- A single worker runs the tasks up to the first failure, and tells of that one. -/
theorem orderly_of_over (h : OneByOne log g) (hacc : Accounted log g)
    (hstaff : Staffed limit g) (hover : g.isOver = true) :
    g.started = upToFailure log.spawned ∧
      g.verdict = ((log.spawned.find? Task.fails).map (·.ends.verdict)).getD .ok := by
  obtain ⟨hqueue, hrunning⟩ := rest_of_over hstaff hover
  obtain ⟨dropped, hsplit, -, hnone⟩ := hacc.split
  rw [hqueue, List.nil_append] at hsplit
  have hstarted : g.started = log.reported := by simpa [hrunning] using h.started_eq
  have hspawned : g.started = upToFailure log.spawned ∧
      log.spawned.find? Task.fails = log.reported.find? Task.fails := by
    cases hfailed : g.failed with
    | true =>
        rw [hacc.failed_eq, ← hstarted, List.any_eq_true] at hfailed
        obtain ⟨first, hfirst⟩ := Option.isSome_iff_exists.mp (List.find?_isSome.mpr hfailed)
        rw [← hstarted, hsplit, List.find?_append, hfirst,
          upToFailure_append_of_fails _ hfailed, h.upToFailure_eq]
        exact ⟨rfl, rfl⟩
    | false =>
        rw [hsplit, hnone hfailed, List.append_nil, ← hstarted, h.upToFailure_eq]
        exact ⟨rfl, rfl⟩
  refine ⟨hspawned.1, ?_⟩
  have hreason := findSome?_reason?_of_upToFailure h.upToFailure_eq
  rw [verdict_eq hacc, hspawned.2, ← hstarted, hreason]
  cases g.started.find? Task.fails with
  | none => rfl
  | some first => cases hends : first.ends <;> simp [hends, TaskEnd.reason?, TaskEnd.verdict]

/-! ## The main statement -/

/-- However the steps of a group are interleaved, and whether or not its workers could be
started: the tasks that are started are spawned ones, each once and in order, and are running
or reported; no more than the limit run at a time; none is started after a failure was
reported. Once the group is waited for it takes a bounded number of steps until the wait is
over, and then the group is settled; a single worker has gone through the tasks in order. -/
theorem tasks_neither_lost_nor_repeated (limit : Nat) (history : List (GroupStep ε))
    (g : TaskGroup ε) (h : (ofLimit limit).steps? history = some g) :
    (g.started.map (·.number)).Nodup ∧
      g.started <+: (Log.ofHistory history).spawned ∧
      g.started.Perm (g.running ++ (Log.ofHistory history).reported) ∧
      g.running.length ≤ max 1 limit ∧
      (∀ before after m, history = before ++ after →
        (ofLimit limit).steps? before = some m →
        (∃ t ∈ (Log.ofHistory before).reported, t.ends ≠ .success) → g.started = m.started) ∧
      (g.phase ≠ .spawning → ∀ rest g', g.steps? rest = some g' →
        rest.length ≤ g.pending ∧ (g'.isOver = false → ∃ s, (g'.step? s).isSome)) ∧
      (g.isOver = true →
        Settled (.ofHistory history) g ∧
        (limit ≤ 1 →
          g.started = upToFailure (Log.ofHistory history).spawned ∧
          g.verdict = (((Log.ofHistory history).spawned.find? Task.fails).map
            (·.ends.verdict)).getD .ok)) := by
  have hacc := accounted_of_steps h
  have hstaff := staffed_of_steps h
  refine ⟨hacc.nodup_numbers, hacc.started_prefix, hacc.ended, ?_, ?_, ?_, ?_⟩
  · have hworkers := hstaff.workers_le
    rw [workers, hstaff.limit_eq] at hworkers
    omega
  · rintro before after m rfl hm ⟨t, ht, hends⟩
    have hafter : m.steps? after = some g := by
      rw [steps?_append, hm] at h
      exact h
    have hbefore := accounted_of_steps hm
    have hfailed : m.failed = true := by
      rw [hbefore.failed_eq, List.any_eq_true]
      exact ⟨t, ht, Task.fails_iff.mpr hends⟩
    exact started_of_steps_of_failed hbefore hafter hfailed
  · intro hphase rest g' hrest
    obtain ⟨hle, hafter⟩ := length_le_pending hphase hrest
    exact ⟨hle, exists_step hafter⟩
  · intro hover
    refine ⟨settled_of_over hacc hstaff hover, fun hone => ?_⟩
    exact orderly_of_over (oneByOne_of_steps hone h) hacc hstaff hover

/-- The first of two tasks finds no worker; the second, which fails, starts one that runs both,
and a third task is refused. -/
theorem refused_after_failure :
    let history : List (GroupStep String) :=
      [.spawn .success false, .spawn (.failure "boom") true, .take, .report 0, .take, .report 1,
        .spawn .success true, .wait, .take, .join, .take]
    ∃ g, (ofLimit 0).steps? history = some g ∧ g.isOver = true ∧
      g.started.map (·.number) = [0, 1] ∧ g.cancelled = 1 ∧ g.verdict = .error "boom" ∧
      Settled (.ofHistory history) g := by
  refine ⟨⟨1, .draining, [], 0, [], [⟨0, .success⟩, ⟨1, .failure "boom"⟩], 3, 1, true,
    some "boom", none⟩, by decide, by decide, by decide, by decide, by decide, ?_⟩
  exact ((tasks_neither_lost_nor_repeated 0 _ _ (by decide)).2.2.2.2.2.2 (by decide)).1

end TaskGroup

end SkyCatalog
