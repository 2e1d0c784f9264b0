import Mathlib.Data.List.Range
import SkyCatalog.Proofs.Keyed
import SkyCatalog.TaskGroup

/-!
# What becomes of the tasks of a group

An onlooker writes down which tasks are spawned and which ends are reported (`Log`). Whatever
steps a group makes, its state agrees with that log (`Accounted`): what was started comes first
among the spawned tasks, then what waits, and then what was cancelled; and what was started is
running or was reported, each task once. At no time are there more workers than the limit
allows, and nothing waits any more where the wait is over (`Staffed`).

One step preserves both (`Accounted.step`, `Staffed.step`), by the cases of `step_cases`, and so
they hold after every history (`accounted_of_steps`, `staffed_of_steps`).
-/

namespace SkyCatalog

variable {ε : Type}

namespace TaskEnd

/-- Does a task end well? -/
def succeeds : TaskEnd ε → Bool
  | .success => true
  | .failure _ => false
  | .broken _ => false

/-- The error that a task ends with. -/
def error? : TaskEnd ε → Option ε
  | .success => none
  | .failure e => some e
  | .broken _ => none

/-- The reason for which a task is broken off. -/
def reason? : TaskEnd ε → Option String
  | .success => none
  | .failure _ => none
  | .broken reason => some reason

end TaskEnd

/-- Does a task not end well? -/
def Task.fails (t : Task ε) : Bool :=
  !t.ends.succeeds

theorem Task.error?_eq_find? (t : Task ε) :
    t.ends.error? = ([t].find? Task.fails).bind (·.ends.error?) := by
  rcases t with ⟨number, ends⟩
  cases ends <;> rfl

/-! ## The log of a history -/

/-- The tasks that were spawned, and those whose ends were reported, each in order. -/
structure Log (ε : Type) where
  spawned : List (Task ε)
  reported : List (Task ε)

namespace Log

/-- The log after one more step. A task is reported by its number. -/
def after (log : Log ε) : GroupStep ε → Log ε
  | .spawn ends _ => { log with spawned := log.spawned ++ [⟨log.spawned.length, ends⟩] }
  | .report number => { log with reported := log.reported ++ log.spawned[number]?.toList }
  | .take | .wait | .join => log

/-- The log of a history. -/
def ofHistory (history : List (GroupStep ε)) : Log ε :=
  history.foldl after ⟨[], []⟩

/-- The tasks are numbered in the order of spawning. -/
def Numbered (log : Log ε) : Prop :=
  log.spawned.map (·.number) = List.range log.spawned.length

theorem Numbered.after {log : Log ε} (h : log.Numbered) (s : GroupStep ε) :
    (log.after s).Numbered := by
  cases s with
  | spawn ends starts =>
      have hspawned : (log.after (.spawn ends starts)).spawned =
        log.spawned ++ [⟨log.spawned.length, ends⟩] := rfl
      rw [Numbered, hspawned, List.map_append, h, List.length_append, List.length_singleton,
        List.range_succ]
      rfl
  | take => exact h
  | report number => exact h
  | wait => exact h
  | join => exact h

theorem Numbered.nodup {log : Log ε} (h : log.Numbered) :
    (log.spawned.map (·.number)).Nodup := by
  rw [h]
  exact List.nodup_range

/-- A spawned task is found by its number. -/
theorem Numbered.getElem? {log : Log ε} (h : log.Numbered) {t : Task ε} (ht : t ∈ log.spawned) :
    log.spawned[t.number]? = some t := by
  obtain ⟨k, hk⟩ := List.getElem?_of_mem ht
  have hlt : k < log.spawned.length := (List.getElem?_eq_some_iff.mp hk).1
  have hnumber : (log.spawned.map (·.number))[k]? = some t.number := by
    rw [List.getElem?_map, hk]
    rfl
  rw [h, List.getElem?_range hlt] at hnumber
  rw [← Option.some.inj hnumber, hk]

end Log

namespace TaskGroup

/-! ## Steps and their parts -/

/-- All that a step can be. -/
theorem step_cases {g g' : TaskGroup ε} {s : GroupStep ε} (h : g.step? s = some g') :
    (∃ ends starts, s = .spawn ends starts ∧ g.phase = .spawning ∧ g' = g.spawn ends starts) ∨
    (s = .take ∧ 0 < g.idle ∧ g' = g.take) ∨
    (∃ t ∈ g.running, s = .report t.number ∧ g' = g.finish t) ∨
    (s = .wait ∧ g.phase = .spawning ∧ g' = { g with phase := .joining }) ∨
    (s = .join ∧ g.phase = .joining ∧ g.workers = 0 ∧
      g' = { g with phase := .draining, idle := 1 }) := by
  cases s with
  | spawn ends starts =>
      obtain ⟨hphase, hg⟩ := Option.ite_none_right_eq_some.mp h
      exact Or.inl ⟨ends, starts, rfl, hphase, (Option.some.inj hg).symm⟩
  | take =>
      obtain ⟨hidle, hg⟩ := Option.ite_none_right_eq_some.mp h
      exact Or.inr (Or.inl ⟨rfl, hidle, (Option.some.inj hg).symm⟩)
  | report number =>
      obtain ⟨t, hfind, rfl⟩ := Option.map_eq_some_iff.mp h
      have hnumber : t.number = number := by simpa using List.find?_some hfind
      exact Or.inr (Or.inr (Or.inl ⟨t, List.mem_of_find?_eq_some hfind, by rw [hnumber], rfl⟩))
  | wait =>
      obtain ⟨hphase, hg⟩ := Option.ite_none_right_eq_some.mp h
      exact Or.inr (Or.inr (Or.inr (Or.inl ⟨rfl, hphase, (Option.some.inj hg).symm⟩)))
  | join =>
      obtain ⟨⟨hphase, hworkers⟩, hg⟩ := Option.ite_none_right_eq_some.mp h
      exact Or.inr (Or.inr (Or.inr (Or.inr
        ⟨rfl, hphase, hworkers, (Option.some.inj hg).symm⟩)))

theorem steps?_append (g : TaskGroup ε) (a b : List (GroupStep ε)) :
    g.steps? (a ++ b) = (g.steps? a).bind (·.steps? b) := by
  induction a generalizing g with
  | nil => rfl
  | cons s rest ih =>
      rw [List.cons_append, steps?, steps?, Option.bind_assoc]
      exact congrArg _ (funext ih)

/-- A history with one more step. -/
theorem steps?_concat_eq_some_iff {g g' : TaskGroup ε} {history : List (GroupStep ε)}
    {s : GroupStep ε} :
    g.steps? (history ++ [s]) = some g' ↔
      ∃ m, g.steps? history = some m ∧ m.step? s = some g' := by
  rw [steps?_append, Option.bind_eq_some_iff]
  simp [steps?]

/-- A worker that finds no task retires. -/
theorem take_of_nil {g : TaskGroup ε} (h : g.queue = []) :
    g.take = { g with idle := g.idle - 1 } := by
  simp [take, h]

/-- A worker starts the task that waits longest. -/
theorem take_of_cons {g : TaskGroup ε} {t : Task ε} {rest : List (Task ε)}
    (h : g.queue = t :: rest) :
    g.take =
      { g with
        queue := rest
        idle := g.idle - 1
        running := g.running ++ [t]
        started := g.started ++ [t] } := by
  simp [take, h]

section Finish

variable (g : TaskGroup ε) (t : Task ε)

@[simp] theorem limit_finish : (g.finish t).limit = g.limit := by
  cases hends : t.ends <;> by_cases hfailed : g.failed <;> simp [finish, fail, hends, hfailed]

@[simp] theorem phase_finish : (g.finish t).phase = g.phase := by
  cases hends : t.ends <;> by_cases hfailed : g.failed <;> simp [finish, fail, hends, hfailed]

@[simp] theorem spawned_finish : (g.finish t).spawned = g.spawned := by
  cases hends : t.ends <;> by_cases hfailed : g.failed <;> simp [finish, fail, hends, hfailed]

@[simp] theorem started_finish : (g.finish t).started = g.started := by
  cases hends : t.ends <;> by_cases hfailed : g.failed <;> simp [finish, fail, hends, hfailed]

@[simp] theorem idle_finish : (g.finish t).idle = g.idle + 1 := by
  cases hends : t.ends <;> by_cases hfailed : g.failed <;> simp [finish, fail, hends, hfailed]

@[simp] theorem running_finish :
    (g.finish t).running = g.running.filter (·.number ≠ t.number) := by
  cases hends : t.ends <;> by_cases hfailed : g.failed <;> simp [finish, fail, hends, hfailed]

@[simp] theorem failed_finish : (g.finish t).failed = (g.failed || t.fails) := by
  cases hends : t.ends <;> by_cases hfailed : g.failed <;>
    simp [finish, fail, Task.fails, TaskEnd.succeeds, hends, hfailed]

theorem queue_finish :
    (g.finish t).queue = if t.fails ∧ g.failed = false then [] else g.queue := by
  cases hends : t.ends <;> by_cases hfailed : g.failed <;>
    simp [finish, fail, Task.fails, TaskEnd.succeeds, hends, hfailed]

theorem cancelled_finish : (g.finish t).cancelled =
    if t.fails ∧ g.failed = false then g.cancelled + g.queue.length else g.cancelled := by
  cases hends : t.ends <;> by_cases hfailed : g.failed <;>
    simp [finish, fail, Task.fails, TaskEnd.succeeds, hends, hfailed]

theorem firstError_finish : (g.finish t).firstError =
    if g.failed then g.firstError else t.ends.error?.or g.firstError := by
  cases hends : t.ends <;> by_cases hfailed : g.failed <;>
    simp [finish, fail, TaskEnd.error?, hends, hfailed]

theorem firstBreak_finish :
    (g.finish t).firstBreak = g.firstBreak.or t.ends.reason? := by
  cases hends : t.ends <;> by_cases hfailed : g.failed <;> cases hbreak : g.firstBreak <;>
    simp [finish, fail, TaskEnd.reason?, hends, hfailed, hbreak]

end Finish

/-! ## The invariant -/

/-- The state of a group agrees with the log of what happened. -/
structure Accounted (log : Log ε) (g : TaskGroup ε) : Prop where
  numbered : log.Numbered
  spawned_eq : g.spawned = log.spawned.length
  /-- What was started comes first, then what waits; the others are cancelled. -/
  split : ∃ dropped, log.spawned = g.started ++ (g.queue ++ dropped) ∧
    dropped.length = g.cancelled ∧ (g.failed = false → dropped = [])
  /-- What was started is running or was reported. -/
  ended : g.started.Perm (g.running ++ log.reported)
  failed_eq : g.failed = log.reported.any Task.fails
  queue_eq_nil : g.failed = true → g.queue = []
  firstError_eq : g.firstError = (log.reported.find? Task.fails).bind (·.ends.error?)
  firstBreak_eq : g.firstBreak = log.reported.findSome? (·.ends.reason?)

/-- No more workers than the limit allows, and nothing is left where the wait is over. -/
structure Staffed (limit : Nat) (g : TaskGroup ε) : Prop where
  limit_eq : g.limit = max 1 limit
  workers_le : g.workers ≤ g.limit
  drained : g.phase = .draining → g.workers = 0 → g.queue = []

theorem accounted_ofLimit (limit : Nat) : Accounted ⟨[], []⟩ (ofLimit limit : TaskGroup ε) where
  numbered := rfl
  spawned_eq := rfl
  split := ⟨[], rfl, rfl, fun _ => rfl⟩
  ended := .nil
  failed_eq := rfl
  queue_eq_nil _ := rfl
  firstError_eq := rfl
  firstBreak_eq := rfl

theorem staffed_ofLimit (limit : Nat) : Staffed limit (ofLimit limit : TaskGroup ε) where
  limit_eq := rfl
  workers_le := Nat.zero_le _
  drained _ _ := rfl

variable {limit : Nat} {log : Log ε} {g g' : TaskGroup ε} {t : Task ε}

namespace Accounted

theorem started_prefix (h : Accounted log g) : g.started <+: log.spawned := by
  obtain ⟨dropped, hsplit, -, -⟩ := h.split
  exact ⟨_, hsplit.symm⟩

theorem mem_spawned_of_running (h : Accounted log g) (ht : t ∈ g.running) : t ∈ log.spawned :=
  h.started_prefix.subset (h.ended.mem_iff.mpr (List.mem_append_left _ ht))

theorem nodup_numbers (h : Accounted log g) : (g.started.map (·.number)).Nodup :=
  h.numbered.nodup.sublist (h.started_prefix.sublist.map _)

theorem nodup_running (h : Accounted log g) : (g.running.map (·.number)).Nodup := by
  have hnodup := (h.ended.map (·.number)).nodup_iff.mp h.nodup_numbers
  rw [List.map_append] at hnodup
  exact (List.nodup_append.mp hnodup).1

end Accounted

/-! ## One step -/

namespace Accounted

theorem spawn (h : Accounted log g) (ends : TaskEnd ε) (starts : Bool) :
    Accounted (log.after (.spawn ends starts)) (g.spawn ends starts) := by
  obtain ⟨dropped, hsplit, hcount, hnone⟩ := h.split
  have hnumbered := h.numbered.after (.spawn ends starts)
  cases hfailed : g.failed with
  | true =>
      -- the task is not accepted
      have hspawn : g.spawn ends starts =
          { g with spawned := g.spawned + 1, cancelled := g.cancelled + 1 } := by
        simp [TaskGroup.spawn, hfailed]
      rw [hspawn]
      refine { h with
        numbered := hnumbered
        spawned_eq := by simp [Log.after, h.spawned_eq]
        split := ⟨dropped ++ [⟨log.spawned.length, ends⟩], ?_, by simp [hcount], ?_⟩ }
      · simp [Log.after, hsplit]
      · simp [hfailed]
  | false =>
      -- it waits, whether or not a worker is started
      obtain rfl := hnone hfailed
      obtain ⟨idle, hspawn⟩ : ∃ idle, g.spawn ends starts =
          { g with spawned := g.spawned + 1, queue := g.queue ++ [⟨g.spawned, ends⟩], idle } := by
        simp only [TaskGroup.spawn, hfailed, Bool.false_eq_true, if_false]
        split
        · exact ⟨_, rfl⟩
        · exact ⟨g.idle, rfl⟩
      rw [hspawn]
      refine { h with
        numbered := hnumbered
        spawned_eq := by simp [Log.after, h.spawned_eq]
        split := ⟨[], ?_, hcount, fun _ => rfl⟩
        queue_eq_nil := fun hfails => absurd hfails (by simp [hfailed]) }
      simp only [Log.after, h.spawned_eq, List.append_nil] at hsplit ⊢
      rw [← List.append_assoc, ← hsplit]

theorem take (h : Accounted log g) : Accounted log g.take := by
  cases hqueue : g.queue with
  | nil =>
      rw [take_of_nil hqueue]
      exact { h with }
  | cons t rest =>
      obtain ⟨dropped, hsplit, hcount, hnone⟩ := h.split
      rw [take_of_cons hqueue]
      refine { h with
        split := ⟨dropped, by simp [hsplit, hqueue], hcount, hnone⟩
        ended := ?_
        queue_eq_nil := fun hfailed => absurd (h.queue_eq_nil hfailed) (by simp [hqueue]) }
      have hlast : (g.running ++ log.reported ++ [t]).Perm (g.running ++ [t] ++ log.reported) := by
        rw [List.append_assoc, List.append_assoc]
        exact List.perm_append_comm.append_left g.running
      exact (h.ended.append_right [t]).trans hlast

theorem finish (h : Accounted log g) (ht : t ∈ g.running) :
    Accounted (log.after (.report t.number)) (g.finish t) := by
  have hreported : (log.after (.report t.number)).reported = log.reported ++ [t] := by
    simp [Log.after, h.numbered.getElem? (h.mem_spawned_of_running ht)]
  obtain ⟨dropped, hsplit, hcount, hnone⟩ := h.split
  constructor
  case numbered => exact h.numbered.after _
  case spawned_eq => exact (spawned_finish g t).trans h.spawned_eq
  case split =>
    have hspawned : (log.after (.report t.number)).spawned = log.spawned := rfl
    rw [hspawned, started_finish, queue_finish, cancelled_finish, failed_finish]
    by_cases hfirst : t.fails = true ∧ g.failed = false
    · -- what waits is cancelled
      obtain rfl := hnone hfirst.2
      refine ⟨g.queue, ?_, ?_, ?_⟩
      · simpa [hfirst] using hsplit
      · simp [hfirst, ← hcount]
      · simp [hfirst]
    · refine ⟨dropped, by simpa [hfirst] using hsplit, by simpa [hfirst] using hcount, ?_⟩
      intro hfailed
      exact hnone (by simpa using (Bool.or_eq_false_iff.mp hfailed).1)
  case ended =>
    rw [hreported, started_finish, running_finish]
    have hout := (perm_cons_filter h.nodup_running ht
      fun _ => decide_eq_true_iff).append_right log.reported
    rw [← List.append_assoc]
    exact (h.ended.trans hout).trans (List.perm_append_singleton t _).symm
  case failed_eq => rw [hreported, failed_finish, h.failed_eq, List.any_append]; simp
  case queue_eq_nil =>
    intro hfailed
    rw [queue_finish]
    by_cases hfirst : t.fails = true ∧ g.failed = false
    · rw [if_pos hfirst]
    · rw [if_neg hfirst]
      rw [failed_finish, Bool.or_eq_true] at hfailed
      cases hbefore : g.failed with
      | true => exact h.queue_eq_nil hbefore
      | false => simp [hbefore] at hfailed hfirst; simp [hfirst] at hfailed
  case firstError_eq =>
    rw [hreported, firstError_finish, h.failed_eq, h.firstError_eq, List.find?_append]
    cases hfind : log.reported.find? Task.fails with
    | some first =>
        have hany : log.reported.any Task.fails = true :=
          List.any_eq_true.mpr ⟨first, List.mem_of_find?_eq_some hfind, List.find?_some hfind⟩
        simp [hany]
    | none =>
        have hany : log.reported.any Task.fails = false := by
          simpa using hfind
        rw [hany, Option.none_or, ← t.error?_eq_find?]
        simp
  case firstBreak_eq =>
    rw [hreported, firstBreak_finish, h.firstBreak_eq, List.findSome?_append]
    cases hreason : t.ends.reason? <;> simp [hreason]

/-- A step keeps a group in agreement with its log. -/
theorem step {s : GroupStep ε} (h : Accounted log g) (hs : g.step? s = some g') :
    Accounted (log.after s) g' := by
  rcases step_cases hs with ⟨ends, starts, rfl, -, rfl⟩ | ⟨rfl, -, rfl⟩ | ⟨t, ht, rfl, rfl⟩ |
    ⟨rfl, -, rfl⟩ | ⟨rfl, -, -, rfl⟩
  · exact h.spawn ends starts
  · exact h.take
  · exact h.finish ht
  · exact { h with }
  · exact { h with }

end Accounted

/-- A task that is reported runs no more. -/
theorem length_running_finish (ht : t ∈ g.running) :
    (g.finish t).running.length < g.running.length := by
  rw [running_finish]
  exact List.length_filter_lt_length_iff_exists.mpr ⟨t, ht, by simp⟩

/-- A step keeps the workers within the limit. -/
theorem Staffed.step {s : GroupStep ε} (h : Staffed limit g) (hs : g.step? s = some g') :
    Staffed limit g' := by
  have hlimit := h.limit_eq
  have hworkers := h.workers_le
  rcases step_cases hs with ⟨ends, starts, rfl, hphase, rfl⟩ | ⟨rfl, hidle, rfl⟩ |
    ⟨t, ht, rfl, rfl⟩ | ⟨rfl, -, rfl⟩ | ⟨rfl, hphase, hnone, rfl⟩
  · -- a worker is started only below the limit
    unfold spawn
    split
    · exact { h with }
    · split
      · next hroom =>
        refine ⟨hlimit, ?_, fun hdraining => absurd (hphase.symm.trans hdraining) (by decide)⟩
        simp only [workers] at hroom ⊢
        omega
      · exact ⟨hlimit, hworkers, fun hdraining =>
          absurd (hphase.symm.trans hdraining) (by decide)⟩
  · cases hqueue : g.queue with
    | nil =>
        rw [take_of_nil hqueue]
        refine ⟨hlimit, ?_, fun _ _ => hqueue⟩
        simp only [workers] at hworkers ⊢
        omega
    | cons t rest =>
        rw [take_of_cons hqueue]
        refine ⟨hlimit, ?_, fun _ hnone => ?_⟩
        · simp only [workers, List.length_append, List.length_singleton] at hworkers ⊢
          omega
        · simp [workers] at hnone
  · -- a worker that reports looks for the next task
    have hshorter := length_running_finish ht
    refine ⟨(limit_finish g t).trans hlimit, ?_, fun _ hnone => ?_⟩
    · simp only [workers, limit_finish, idle_finish] at hworkers ⊢
      omega
    · simp [workers] at hnone
  · exact { h with drained := nofun }
  · refine ⟨hlimit, ?_, ?_⟩
    · simp only [workers] at hnone ⊢
      omega
    · intro _ hover
      simp [workers] at hover

/-! ## Every history -/

theorem accounted_of_steps {history : List (GroupStep ε)}
    (h : (ofLimit limit).steps? history = some g) : Accounted (.ofHistory history) g := by
  induction history using List.reverseRecOn generalizing g with
  | nil =>
      cases h
      exact accounted_ofLimit limit
  | append_singleton earlier s ih =>
      obtain ⟨m, hm, hstep⟩ := steps?_concat_eq_some_iff.mp h
      rw [Log.ofHistory, List.foldl_append]
      exact (ih hm).step hstep

theorem staffed_of_steps {history : List (GroupStep ε)}
    (h : (ofLimit limit).steps? history = some g) : Staffed limit g := by
  induction history using List.reverseRecOn generalizing g with
  | nil =>
      cases h
      exact staffed_ofLimit limit
  | append_singleton earlier s ih =>
      obtain ⟨m, hm, hstep⟩ := steps?_concat_eq_some_iff.mp h
      exact (ih hm).step hstep

end TaskGroup

end SkyCatalog
