/-!
# Groups of tasks

A group runs tasks on a limited number of workers and keeps the first failure. Once a
task failed, the tasks that wait in the queue are cancelled and no further one is
accepted; tasks that are running are left to their end.

The group is a state with atomic steps. Tasks are spawned one by one; a worker is
started with a task if the limit allows it, though the start may fail. A worker takes
the next task from the queue or retires if there is none, and reports how its task
ended. Whoever waits for the group joins the workers, does what is left in the queue
as a worker of its own, and then reads the verdict.

A task is known by its number in the order of spawning, and its end is part of it: a
history of steps decides only what is run and when.
-/

namespace SkyCatalog

/-- How a task ends. -/
inductive TaskEnd (ε : Type) where
  | success
  | failure (e : ε)
  /-- The task was broken off, for the given reason. -/
  | broken (reason : String)
deriving DecidableEq, Repr

/-- A task with its number. -/
structure Task (ε : Type) where
  number : Nat
  ends : TaskEnd ε
deriving DecidableEq, Repr

/-- What the owner of a group is doing. -/
inductive Phase where
  | spawning
  /-- The workers are being joined. -/
  | joining
  /-- What is left is done by the one who waits. -/
  | draining
deriving DecidableEq, Repr

/-- A group of tasks. -/
structure TaskGroup (ε : Type) where
  limit : Nat
  phase : Phase
  /-- The tasks that nobody has taken. -/
  queue : List (Task ε)
  /-- The workers that look for a task. -/
  idle : Nat
  /-- The tasks that are running, each on a worker. -/
  running : List (Task ε)
  /-- The tasks that were started, in order. -/
  started : List (Task ε)
  spawned : Nat
  cancelled : Nat
  failed : Bool
  firstError : Option ε
  firstBreak : Option String
deriving DecidableEq, Repr

/-- A step of a group. -/
inductive GroupStep (ε : Type) where
  /-- Spawn a task that will end so; may a worker be started? -/
  | spawn (ends : TaskEnd ε) (starts : Bool)
  /-- A worker takes the next task, or retires. -/
  | take
  /-- The task with this number ends and its worker reports. -/
  | report (number : Nat)
  /-- The owner begins to wait. -/
  | wait
  /-- The workers are joined. -/
  | join
deriving DecidableEq, Repr

/-- What the one who waits is told. -/
inductive Verdict (ε : Type) where
  | ok
  | error (e : ε)
  | broken (reason : String)
deriving DecidableEq, Repr

namespace TaskGroup

variable {ε : Type}

/-- An empty group; at least one task may run at a time. -/
def ofLimit (limit : Nat) : TaskGroup ε :=
  ⟨max 1 limit, .spawning, [], 0, [], [], 0, 0, false, none, none⟩

/-- The workers that have not retired. -/
def workers (g : TaskGroup ε) : Nat :=
  g.idle + g.running.length

/-- Spawn a task. -/
def spawn (g : TaskGroup ε) (ends : TaskEnd ε) (starts : Bool) : TaskGroup ε :=
  let task : Task ε := ⟨g.spawned, ends⟩
  if g.failed then { g with spawned := g.spawned + 1, cancelled := g.cancelled + 1 }
  else
    let g' := { g with spawned := g.spawned + 1, queue := g.queue ++ [task] }
    if g.workers < g.limit ∧ starts then { g' with idle := g.idle + 1 } else g'

/-- A worker that looks for a task takes the next one, or retires. -/
def take (g : TaskGroup ε) : TaskGroup ε :=
  match g.queue with
  | [] => { g with idle := g.idle - 1 }
  | task :: rest =>
      { g with
        queue := rest
        idle := g.idle - 1
        running := g.running ++ [task]
        started := g.started ++ [task] }

/-- Fail, unless the group has failed: what waits is cancelled. -/
def fail (g : TaskGroup ε) : TaskGroup ε :=
  if g.failed then g
  else { g with failed := true, cancelled := g.cancelled + g.queue.length, queue := [] }

/-- A task that was running ends. -/
def finish (g : TaskGroup ε) (task : Task ε) : TaskGroup ε :=
  let g' :=
    { g with running := g.running.filter (·.number ≠ task.number), idle := g.idle + 1 }
  match task.ends with
  | .success => g'
  | .failure e => { g'.fail with firstError := if g.failed then g.firstError else some e }
  | .broken reason =>
      { g'.fail with firstBreak := if g.firstBreak.isSome then g.firstBreak else some reason }

/-- Make a step, if it is possible. -/
def step? (g : TaskGroup ε) : GroupStep ε → Option (TaskGroup ε)
  | .spawn ends starts => if g.phase = .spawning then some (g.spawn ends starts) else none
  | .take => if 0 < g.idle then some g.take else none
  | .report number => (g.running.find? (·.number = number)).map g.finish
  | .wait => if g.phase = .spawning then some { g with phase := .joining } else none
  | .join =>
      if g.phase = .joining ∧ g.workers = 0 then
        some { g with phase := .draining, idle := 1 }
      else none

/-- Make steps one after the other. -/
def steps? (g : TaskGroup ε) : List (GroupStep ε) → Option (TaskGroup ε)
  | [] => some g
  | s :: rest => (g.step? s).bind fun g => g.steps? rest

/-- Is the wait over? -/
def isOver (g : TaskGroup ε) : Bool :=
  g.phase = .draining ∧ g.workers = 0

/-- What the one who waits is told when the wait is over. -/
def verdict (g : TaskGroup ε) : Verdict ε :=
  match g.firstBreak, g.firstError with
  | some reason, _ => .broken reason
  | none, some e => .error e
  | none, none => .ok

/-! ## One worker after the other -/

/-- The steps that spawn tasks and run each of them to its end before the next is
taken, up to the first that does not succeed. -/
def orderly (number : Nat) : List (TaskEnd ε) → List (GroupStep ε)
  | [] => []
  | ends :: rest =>
      .take :: .report number :: (if ends matches .success then orderly (number + 1) rest else [])

/-- Spawn all tasks, run them one at a time and wait for the group. -/
def runOrderly (limit : Nat) (ends : List (TaskEnd ε)) : Option (TaskGroup ε) :=
  let history :=
    ends.map (.spawn · true) ++ orderly 0 ends ++ [.wait]
  ((ofLimit limit).steps? history).bind fun g =>
    g.steps? (List.replicate g.idle .take ++ [.join, .take])

end TaskGroup

end SkyCatalog
