import Qslary.Scheduler.Steps

/-!
# Tasks that yield

A task is a list of segments with a `YieldToReady` between each two.  For a fiber
that comes back `READY`, `run` queues `cb_` again and not the fiber: the new fiber
starts the task from its first segment, and the suspended context is dropped.  So
a task does what it should exactly when it never yields.
-/

namespace Qslary.Scheduler

open Qslary.Foundation

structure Task (S : Type) where
  first : S
  rest : List S
  deriving DecidableEq, Repr

variable {S : Type}

def Task.segments (task : Task S) : List S := task.first :: task.rest

/-- Where the code of a fiber stands; `due` is set between a segment and what ends it. -/
structure Point where
  executed : Nat := 0
  due : Bool := false
  deriving DecidableEq, Repr

/--
One worker of a plain `Scheduler`.  A scheduled task is named by its place in
`tasks`, which is also its callback; `log` lists the segments executed, as the
task and the number of the segment in it.
-/
structure TaskState (S : Type) where
  scheduler : State 1 Nat
  tasks : List (Task S)
  point : Nat → Point
  log : List (Nat × Nat)

inductive TaskAction (S : Type) where
  | schedule (task : Task S)
  | spawn (task : Task S)
  | segment
  | yieldToReady
  | finish
  | wakeup (i : Nat)
  | stop
  | stopClean
  | advance
  deriving DecidableEq, Repr

/-- What the action is for the scheduler; a segment is no concern of its. -/
def TaskAction.action? (callback : Nat) : TaskAction S → Option (Action 1 Nat)
  | .schedule _ => some (.scheduler [some callback])
  | .spawn _ => some (.call 0 (.scheduler [some callback]))
  | .segment => none
  | .yieldToReady => some (.call 0 .yieldToReady)
  | .finish => some (.call 0 (.finish false))
  | .wakeup i => some (.wakeup i)
  | .stop => some .stop
  | .stopClean => some .stopClean
  | .advance => some (.advance 0)

def TaskAction.tasks : TaskAction S → List (Task S)
  | .schedule task => [task]
  | .spawn task => [task]
  | _ => []

namespace TaskState

def started : TaskState S := ⟨.started 1 Nat, [], fun _ => {}, []⟩

/-- The segments of a fiber's task. -/
def code (s : TaskState S) (f : Nat) : List S :=
  match (s.scheduler.fibers f).task with
  | some k => (s.tasks[k]?.map Task.segments).getD []
  | none => []

/-- The segments a fiber has in front of it. -/
def todo (s : TaskState S) (f : Nat) : List S := (s.code f).drop (s.point f).executed

/-- Segments alternate with the calls that end them. -/
def admits (s : TaskState S) : TaskAction S → Bool
  | .segment =>
      match s.scheduler.current 0 with
      | some f => !(s.point f).due && !(s.todo f).isEmpty
      | none => false
  | .yieldToReady =>
      match s.scheduler.current 0 with
      | some f => (s.point f).due && !(s.todo f).isEmpty
      | none => false
  | .finish =>
      match s.scheduler.current 0 with
      | some f => (s.point f).due && (s.todo f).isEmpty
      | none => false
  | _ => true

def guard (s : TaskState S) (a : TaskAction S) : Bool :=
  s.admits a && (a.action? s.tasks.length).all s.scheduler.guard

/-- The effect of a step of fiber `f` on its own code. -/
def execute (s : TaskState S) (f : Nat) : TaskAction S → TaskState S
  | .segment =>
      { s with
        point := Function.update s.point f ⟨(s.point f).executed + 1, true⟩
        log := s.log ++ ((s.scheduler.fibers f).task.map (·, (s.point f).executed)).toList }
  | .yieldToReady =>
      { s with point := Function.update s.point f { s.point f with due := false } }
  | _ => s

def exec (s : TaskState S) (a : TaskAction S) : Except Fault (TaskState S) := do
  let scheduler ← match a.action? s.tasks.length with
    | some action => s.scheduler.exec .scheduler action
    | none => .ok s.scheduler
  let executed := match s.scheduler.current 0 with
    | some f => s.execute f a
    | none => s
  return { executed with scheduler := scheduler, tasks := s.tasks ++ a.tasks }

/-- The numbers of the segments of task `k` executed so far. -/
def executed (s : TaskState S) (k : Nat) : List Nat :=
  (s.log.filter fun entry => entry.1 = k).map Prod.snd

/-- No fiber is queued, in the worker's hands or about to be queued again. -/
def Idle (s : TaskState S) : Prop :=
  s.scheduler.pendingFunctors = [] ∧ (s.scheduler.pc 0).holds = none ∧
    ∀ f, s.scheduler.pc 0 ≠ .requeue f

/-- Yielding resumes: a prefix of the task has been executed, and all of it in the end. -/
def Resumes (s : TaskState S) (k : Nat) (task : Task S) : Prop :=
  s.executed k <+: List.range task.segments.length ∧
    (s.Idle → s.executed k = List.range task.segments.length)

end TaskState

def taskMachine (S : Type) : Machine (TaskState S) (TaskAction S) Fault where
  guard := TaskState.guard
  exec := TaskState.exec

/-! ## Steps -/

namespace TaskState

variable {s s' : TaskState S} {a : TaskAction S}

/-- What a step of the scheduler leaves of the rest, and what a segment changes. -/
theorem step_inv (h : (taskMachine S).step s a = some s') :
    (∃ action, a.action? s.tasks.length = some action ∧
      s.scheduler.exec .scheduler action = .ok s'.scheduler ∧
      Moves .scheduler s.scheduler action s'.scheduler ∧ s.admits a = true ∧
      s'.tasks = s.tasks ++ a.tasks ∧ s'.log = s.log ∧
      ∀ f, (s'.point f).executed = (s.point f).executed ∧
        ((s'.point f).due = true → (s.point f).due = true)) ∨
    (∃ f, a = .segment ∧ s.scheduler.pc 0 = .exec f ∧ s.todo f ≠ [] ∧ s' = s.execute f a) := by
  obtain ⟨hguard, hexec⟩ := (taskMachine S).step_eq_some_iff.mp h
  simp only [taskMachine, guard, Bool.and_eq_true] at hguard
  obtain ⟨hadmits, hguard⟩ := hguard
  cases haction : a.action? s.tasks.length with
  | none =>
      right
      cases a with
      | segment =>
          cases hcurrent : s.scheduler.current 0 with
          | none => simp [admits, hcurrent] at hadmits
          | some f =>
              simp only [admits, hcurrent, Bool.and_eq_true, Bool.not_eq_true',
                List.isEmpty_eq_false_iff] at hadmits
              simp only [taskMachine, exec, haction, hcurrent] at hexec
              cases hexec
              refine ⟨f, rfl, State.current_eq_some hcurrent, hadmits.2, ?_⟩
              simp [execute, TaskAction.tasks]
      | _ => cases haction
  | some action =>
      left
      simp only [taskMachine, exec, haction] at hexec
      cases hstep : s.scheduler.exec .scheduler action with
      | error fault =>
          rw [hstep] at hexec
          cases hexec
      | ok scheduler =>
          rw [hstep] at hexec
          cases hexec
          rw [haction] at hguard
          have hmoves := moves_of_step ((machine .scheduler 1 Nat).step_eq_some_iff.mpr
            ⟨hguard, hstep⟩)
          refine ⟨action, rfl, hstep, hmoves, hadmits, rfl, ?_, ?_⟩
          · cases s.scheduler.current 0 with
            | none => rfl
            | some f =>
                cases a with
                | segment => cases haction
                | _ => rfl
          · intro g
            cases s.scheduler.current 0 with
            | none => exact ⟨rfl, id⟩
            | some f =>
                cases a with
                | segment => cases haction
                | yieldToReady =>
                    by_cases hg : g = f
                    · simp [execute, hg]
                    · simp [execute, hg]
                | _ => exact ⟨rfl, id⟩

end TaskState

/-! ## Invariant -/

namespace TaskState

variable {s s' : TaskState S} {f k : Nat}

def Yields (s : TaskState S) (f : Nat) : Prop := 1 < (s.code f).length

def Done (s : TaskState S) (f : Nat) : Prop := (s.point f).executed = (s.code f).length

/-- A fiber without yields leaves the worker only at its end. -/
def Stands (s : TaskState S) : Pc Nat → Prop
  | .out f => f < s.scheduler.nextId ∧
      (s.Yields f ∨ ((s.scheduler.fibers f).state = .TERM ∧ s.Done f))
  | .back f => f < s.scheduler.nextId ∧
      (s.Yields f ∨ ((s.scheduler.fibers f).state = .TERM ∧ s.Done f))
  | .settle f => f < s.scheduler.nextId ∧
      (s.Yields f ∨ ((s.scheduler.fibers f).state = .TERM ∧ s.Done f))
  | .mark f => f < s.scheduler.nextId ∧ s.Yields f
  | .requeue f => f < s.scheduler.nextId ∧ s.Yields f
  | .waiting => False
  | .dispatch _ => False
  | .dispatching _ _ => False
  | p => ∀ f, p.holds = some f → f < s.scheduler.nextId

structure Inv (s : TaskState S) : Prop where
  task_lt : ∀ {f k}, f < s.scheduler.nextId → (s.scheduler.fibers f).task = some k →
    k < s.tasks.length
  unmade : ∀ {f}, s.scheduler.nextId ≤ f → (s.point f).executed = 0
  cb_eq : ∀ {f}, f < s.scheduler.nextId → (s.scheduler.fibers f).cb = none ∨
    (s.scheduler.fibers f).cb = (s.scheduler.fibers f).task
  pending_lt : ∀ f ∈ s.scheduler.pendingFunctors, f < s.scheduler.nextId
  scheduled : ∀ {k}, k < s.tasks.length →
    ∃ f < s.scheduler.nextId, (s.scheduler.fibers f).task = some k
  unique : ∀ {f g k}, f < s.scheduler.nextId → g < s.scheduler.nextId →
    (s.scheduler.fibers f).task = some k → (s.scheduler.fibers g).task = some k →
    ¬ s.Yields f → f = g
  place : ∀ {f k}, f < s.scheduler.nextId → (s.scheduler.fibers f).task = some k →
    ¬ s.Yields f →
    f ∈ s.scheduler.pendingFunctors ∨ (s.scheduler.pc 0).holds = some f ∨ s.Done f
  log_lt : ∀ entry ∈ s.log, entry.1 < s.tasks.length
  log_eq : ∀ {f k}, f < s.scheduler.nextId → (s.scheduler.fibers f).task = some k →
    ¬ s.Yields f → s.executed k = List.range (s.point f).executed
  executed_le : ∀ {f}, (s.point f).executed ≤ (s.code f).length
  executed_pos : ∀ {f}, (s.point f).due = true → 0 < (s.point f).executed
  stands : s.Stands (s.scheduler.pc 0)

theorem started_inv : (started : TaskState S).Inv where
  task_lt := fun h => absurd h (Nat.not_lt_zero _)
  unmade := fun _ => rfl
  cb_eq := fun h => absurd h (Nat.not_lt_zero _)
  pending_lt := fun _ h => nomatch h
  scheduled := fun h => absurd h (Nat.not_lt_zero _)
  unique := fun h => absurd h (Nat.not_lt_zero _)
  place := fun h => absurd h (Nat.not_lt_zero _)
  log_lt := fun _ h => nomatch h
  log_eq := fun h => absurd h (Nat.not_lt_zero _)
  executed_le := Nat.zero_le _
  executed_pos := nofun
  stands := fun _ h => nomatch h

theorem code_congr (htask : (s'.scheduler.fibers f).task = (s.scheduler.fibers f).task)
    (hlt : ∀ k, (s.scheduler.fibers f).task = some k → k < s.tasks.length)
    {new : List (Task S)} (htasks : s'.tasks = s.tasks ++ new) : s'.code f = s.code f := by
  unfold code
  rw [htask]
  cases hk : (s.scheduler.fibers f).task with
  | none => rfl
  | some k => simp only [htasks, List.getElem?_append_left (hlt k hk)]

theorem code_of_task {g : Nat}
    (htask : (s.scheduler.fibers g).task = (s.scheduler.fibers f).task) :
    s.code g = s.code f := by
  unfold code
  rw [htask]

/-- A step that makes no fiber and executes no segment. -/
structure Keeps (s s' : TaskState S) : Prop where
  tasks_eq : s'.tasks = s.tasks
  log_eq : s'.log = s.log
  executed_eq : ∀ f, (s'.point f).executed = (s.point f).executed
  due_of : ∀ f, (s'.point f).due = true → (s.point f).due = true
  nextId_eq : s'.scheduler.nextId = s.scheduler.nextId
  task_eq : ∀ f, (s'.scheduler.fibers f).task = (s.scheduler.fibers f).task
  cb_eq : ∀ f, (s'.scheduler.fibers f).cb = none ∨
    (s'.scheduler.fibers f).cb = (s.scheduler.fibers f).cb

theorem Keeps.code_eq (hkeeps : Keeps s s') : s'.code f = s.code f := by
  unfold code
  rw [hkeeps.task_eq, hkeeps.tasks_eq]

theorem Keeps.yields_iff (hkeeps : Keeps s s') : s'.Yields f ↔ s.Yields f := by
  rw [Yields, Yields, hkeeps.code_eq]

theorem Keeps.done_iff (hkeeps : Keeps s s') : s'.Done f ↔ s.Done f := by
  rw [Done, Done, hkeeps.code_eq, hkeeps.executed_eq]

theorem Keeps.stands (hkeeps : Keeps s s') {p : Pc Nat} (hp : s.Stands p)
    (hstate : ∀ f, (s'.scheduler.fibers f).state = (s.scheduler.fibers f).state) :
    s'.Stands p := by
  cases p with
  | waiting => exact hp
  | dispatch chores => exact hp
  | dispatching call chores => exact hp
  | _ => simpa only [Stands, hkeeps.nextId_eq, hkeeps.yields_iff, hkeeps.done_iff, hstate] using hp

theorem Inv.keep (h : s.Inv) (hkeeps : Keeps s s')
    (hpending : ∀ f ∈ s'.scheduler.pendingFunctors, f ∈ s.scheduler.pendingFunctors)
    (hplace : ∀ f, f ∈ s.scheduler.pendingFunctors ∨ (s.scheduler.pc 0).holds = some f →
      f ∈ s'.scheduler.pendingFunctors ∨ (s'.scheduler.pc 0).holds = some f ∨
        s.Yields f ∨ s.Done f)
    (hstands : s'.Stands (s'.scheduler.pc 0)) : s'.Inv where
  task_lt := by
    intro f k hf hk
    rw [hkeeps.nextId_eq] at hf
    rw [hkeeps.task_eq] at hk
    rw [hkeeps.tasks_eq]
    exact h.task_lt hf hk
  unmade := by
    intro f hf
    rw [hkeeps.nextId_eq] at hf
    rw [hkeeps.executed_eq]
    exact h.unmade hf
  cb_eq := by
    intro f hf
    rw [hkeeps.nextId_eq] at hf
    rw [hkeeps.task_eq]
    rcases hkeeps.cb_eq f with hcb | hcb
    · exact .inl hcb
    · rw [hcb]
      exact h.cb_eq hf
  pending_lt := by
    intro f hf
    rw [hkeeps.nextId_eq]
    exact h.pending_lt f (hpending f hf)
  scheduled := by
    intro k hk
    rw [hkeeps.tasks_eq] at hk
    simp only [hkeeps.nextId_eq, hkeeps.task_eq]
    exact h.scheduled hk
  unique := by
    intro f g k hf hg hfk hgk
    rw [hkeeps.nextId_eq] at hf hg
    rw [hkeeps.task_eq] at hfk hgk
    rw [hkeeps.yields_iff]
    exact h.unique hf hg hfk hgk
  place := by
    intro f k hf hk hno
    rw [hkeeps.nextId_eq] at hf
    rw [hkeeps.task_eq] at hk
    rw [hkeeps.yields_iff] at hno
    rw [hkeeps.done_iff]
    rcases or_assoc.mpr (h.place hf hk hno) with hwas | hdone
    · rcases hplace f hwas with hnow | hnow | hyields | hdone
      · exact .inl hnow
      · exact .inr (.inl hnow)
      · exact absurd hyields hno
      · exact .inr (.inr hdone)
    · exact .inr (.inr hdone)
  log_lt := by
    rw [hkeeps.log_eq, hkeeps.tasks_eq]
    exact h.log_lt
  log_eq := by
    intro f k hf hk hno
    rw [hkeeps.nextId_eq] at hf
    rw [hkeeps.task_eq] at hk
    rw [hkeeps.yields_iff] at hno
    rw [executed, hkeeps.log_eq, hkeeps.executed_eq]
    exact h.log_eq hf hk hno
  executed_le := by
    intro f
    rw [hkeeps.executed_eq, hkeeps.code_eq]
    exact h.executed_le
  executed_pos := by
    intro f hdue
    rw [hkeeps.executed_eq]
    exact h.executed_pos (hkeeps.due_of f hdue)
  stands := hstands

/-- A step that makes one fiber, for a new task or again for one that yields. -/
structure Pushes (s s' : TaskState S) (callback : Option Nat) (new : List (Task S)) : Prop where
  tasks_eq : s'.tasks = s.tasks ++ new
  log_eq : s'.log = s.log
  executed_eq : ∀ f, (s'.point f).executed = (s.point f).executed
  due_of : ∀ f, (s'.point f).due = true → (s.point f).due = true
  nextId_eq : s'.scheduler.nextId = s.scheduler.nextId + 1
  pending_eq : s'.scheduler.pendingFunctors =
    s.scheduler.pendingFunctors ++ [s.scheduler.nextId]
  fibers_eq : s'.scheduler.fibers = Function.update s.scheduler.fibers s.scheduler.nextId
    { task := callback, cb := callback }
  holds_eq : ∀ f, (s.scheduler.pc 0).holds = some f → (s'.scheduler.pc 0).holds = some f

section Push

variable {callback : Option Nat} {new : List (Task S)}

theorem Pushes.old (hpush : Pushes s s' callback new) (hf : f < s.scheduler.nextId) :
    s'.scheduler.fibers f = s.scheduler.fibers f := by
  rw [hpush.fibers_eq, Function.update_of_ne (Nat.ne_of_lt hf)]

theorem Pushes.new_task (hpush : Pushes s s' callback new) :
    (s'.scheduler.fibers s.scheduler.nextId).task = callback := by
  rw [hpush.fibers_eq, Function.update_self]

theorem Pushes.code_eq (h : s.Inv) (hpush : Pushes s s' callback new)
    (hf : f < s.scheduler.nextId) : s'.code f = s.code f :=
  code_congr (congrArg Fiber.task (hpush.old hf)) (fun _ hk => h.task_lt hf hk) hpush.tasks_eq

theorem Pushes.yields_iff (h : s.Inv) (hpush : Pushes s s' callback new)
    (hf : f < s.scheduler.nextId) : s'.Yields f ↔ s.Yields f := by
  rw [Yields, Yields, hpush.code_eq h hf]

theorem Pushes.lt_or_eq (hpush : Pushes s s' callback new)
    (hf : f < s'.scheduler.nextId) : f < s.scheduler.nextId ∨ f = s.scheduler.nextId := by
  rw [hpush.nextId_eq] at hf
  omega

theorem Pushes.stands (h : s.Inv) (hpush : Pushes s s' callback new) {p : Pc Nat}
    (hp : s.Stands p) : s'.Stands p := by
  have hlift : ∀ f, f < s.scheduler.nextId → f < s'.scheduler.nextId := by
    intro f hf
    rw [hpush.nextId_eq]
    omega
  have hends : ∀ f, f < s.scheduler.nextId ∧ (s.Yields f ∨
        ((s.scheduler.fibers f).state = .TERM ∧ s.Done f)) →
      f < s'.scheduler.nextId ∧ (s'.Yields f ∨
        ((s'.scheduler.fibers f).state = .TERM ∧ s'.Done f)) := by
    rintro f ⟨hf, hor⟩
    refine ⟨hlift f hf, ?_⟩
    rw [hpush.yields_iff h hf, hpush.old hf, Done, hpush.code_eq h hf, hpush.executed_eq]
    exact hor
  have hagain : ∀ f, f < s.scheduler.nextId ∧ s.Yields f →
      f < s'.scheduler.nextId ∧ s'.Yields f :=
    fun f hf => ⟨hlift f hf.1, (hpush.yields_iff h hf.1).mpr hf.2⟩
  cases p with
  | out f => exact hends f hp
  | back f => exact hends f hp
  | settle f => exact hends f hp
  | mark f => exact hagain f hp
  | requeue f => exact hagain f hp
  | waiting => exact hp
  | dispatch chores => exact hp
  | dispatching call chores => exact hp
  | _ => exact fun f hf => hlift f (hp f hf)

/-- The new fiber is the only one of its task, or one of a task that yields. -/
theorem Inv.push (h : s.Inv) (hpush : Pushes s s' callback new)
    (hcallback : (∃ task, new = [task] ∧ callback = some s.tasks.length) ∨
      (new = [] ∧ ∃ f < s.scheduler.nextId, s.Yields f ∧
        (callback = none ∨ callback = (s.scheduler.fibers f).task)))
    (hstands : s'.Stands (s'.scheduler.pc 0)) : s'.Inv := by
  have htask : ∀ k, callback = some k → k < s'.tasks.length := by
    rintro k rfl
    rw [hpush.tasks_eq, List.length_append]
    rcases hcallback with ⟨task, rfl, heq⟩ | ⟨rfl, f, hf, -, heq⟩
    · obtain rfl := Option.some.inj heq
      exact Nat.lt_succ_self _
    · exact h.task_lt hf ((heq.resolve_left nofun).symm)
  -- A fiber of the same task as the new one yields.
  have hsame : ∀ g k, g < s.scheduler.nextId → (s.scheduler.fibers g).task = some k →
      callback = some k → s'.Yields g ∧ s'.Yields s.scheduler.nextId := by
    rintro g k hg hgk rfl
    rcases hcallback with ⟨task, -, heq⟩ | ⟨-, f, hf, hyields, heq⟩
    · have := h.task_lt hg hgk
      have := Option.some.inj heq
      omega
    · have hfk := heq.resolve_left nofun
      have hg' : s'.Yields g := by
        rw [hpush.yields_iff h hg, Yields, code_of_task (hgk.trans hfk)]
        exact hyields
      refine ⟨hg', ?_⟩
      have hcode : s'.code s.scheduler.nextId = s'.code g := by
        apply code_of_task
        rw [hpush.new_task, hpush.old hg, hgk]
      rw [Yields, hcode]
      exact hg'
  refine ⟨?_, ?_, ?_, ?_, ?_, ?_, ?_, ?_, ?_, ?_, ?_, hstands⟩
  · intro f k hf hk
    rcases hpush.lt_or_eq hf with hf | rfl
    · rw [hpush.old hf] at hk
      rw [hpush.tasks_eq, List.length_append]
      exact Nat.lt_add_right _ (h.task_lt hf hk)
    · rw [hpush.new_task] at hk
      exact htask k hk
  · intro f hf
    rw [hpush.nextId_eq] at hf
    rw [hpush.executed_eq]
    exact h.unmade (Nat.le_of_succ_le hf)
  · intro f hf
    rcases hpush.lt_or_eq hf with hf | rfl
    · rw [hpush.old hf]
      exact h.cb_eq hf
    · right
      rw [hpush.fibers_eq, Function.update_self]
  · intro f hf
    rw [hpush.pending_eq] at hf
    rw [hpush.nextId_eq]
    rcases List.mem_append.mp hf with hf | hf
    · exact Nat.lt_succ_of_lt (h.pending_lt f hf)
    · rw [List.mem_singleton.mp hf]
      exact Nat.lt_succ_self _
  · intro k hk
    rw [hpush.nextId_eq]
    by_cases hold : k < s.tasks.length
    · obtain ⟨f, hf, hfk⟩ := h.scheduled hold
      exact ⟨f, Nat.lt_succ_of_lt hf, by rw [hpush.old hf, hfk]⟩
    · rw [hpush.tasks_eq, List.length_append] at hk
      rcases hcallback with ⟨task, rfl, heq⟩ | ⟨rfl, -⟩
      · refine ⟨s.scheduler.nextId, Nat.lt_succ_self _, ?_⟩
        rw [hpush.new_task, heq]
        congr 1
        simp only [List.length_singleton] at hk
        omega
      · simp only [List.length_nil] at hk
        omega
  · intro f g k hf hg hfk hgk hno
    rcases hpush.lt_or_eq hf with hf | rfl
    · rcases hpush.lt_or_eq hg with hg | rfl
      · rw [hpush.old hf] at hfk
        rw [hpush.old hg] at hgk
        rw [hpush.yields_iff h hf] at hno
        exact h.unique hf hg hfk hgk hno
      · rw [hpush.old hf] at hfk
        rw [hpush.new_task] at hgk
        exact absurd (hsame f k hf hfk hgk).1 hno
    · rcases hpush.lt_or_eq hg with hg | rfl
      · rw [hpush.old hg] at hgk
        rw [hpush.new_task] at hfk
        exact absurd (hsame g k hg hgk hfk).2 hno
      · rfl
  · intro f k hf hk hno
    rw [hpush.pending_eq]
    rcases hpush.lt_or_eq hf with hf | rfl
    · rw [hpush.old hf] at hk
      rw [hpush.yields_iff h hf] at hno
      rw [Done, hpush.executed_eq, hpush.code_eq h hf]
      rcases h.place hf hk hno with hpending | hholds | hdone
      · exact .inl (List.mem_append_left _ hpending)
      · exact .inr (.inl (hpush.holds_eq f hholds))
      · exact .inr (.inr hdone)
    · exact .inl (List.mem_append_right _ List.mem_cons_self)
  · intro entry hentry
    rw [hpush.log_eq] at hentry
    rw [hpush.tasks_eq, List.length_append]
    exact Nat.lt_add_right _ (h.log_lt entry hentry)
  · intro f k hf hk hno
    rw [executed, hpush.log_eq, hpush.executed_eq]
    rcases hpush.lt_or_eq hf with hf | rfl
    · rw [hpush.old hf] at hk
      rw [hpush.yields_iff h hf] at hno
      exact h.log_eq hf hk hno
    · rw [hpush.new_task] at hk
      rw [h.unmade (Nat.le_refl _)]
      rcases hcallback with ⟨task, -, heq⟩ | ⟨-, f, hf, hyields, heq⟩
      · -- Nothing of a task is executed before it is scheduled.
        rw [List.range_zero, List.map_eq_nil_iff, List.filter_eq_nil_iff]
        intro entry hentry
        have hlt := h.log_lt entry hentry
        have : k = s.tasks.length := Option.some.inj (hk.symm.trans heq)
        simp only [decide_eq_true_eq]
        omega
      · have hfk := (heq.resolve_left (by rw [hk]; nofun)).symm.trans hk
        exact absurd (hsame f k hf hfk hk).2 hno
  · intro f
    rw [hpush.executed_eq]
    by_cases hf : f < s.scheduler.nextId
    · rw [hpush.code_eq h hf]
      exact h.executed_le
    · rw [h.unmade (Nat.le_of_not_lt hf)]
      exact Nat.zero_le _
  · intro f hdue
    rw [hpush.executed_eq]
    exact h.executed_pos (hpush.due_of f hdue)

end Push

theorem Inv.holds_lt (h : s.Inv) (hholds : (s.scheduler.pc 0).holds = some f) :
    f < s.scheduler.nextId := by
  have hstands := h.stands
  revert hstands hholds
  cases s.scheduler.pc 0 with
  | out g =>
      rintro ⟨⟩ hstands
      exact hstands.1
  | back g =>
      rintro ⟨⟩ hstands
      exact hstands.1
  | settle g =>
      rintro ⟨⟩ hstands
      exact hstands.1
  | mark g =>
      rintro ⟨⟩ hstands
      exact hstands.1
  | requeue g => exact nofun
  | waiting => exact nofun
  | dispatch chores => exact nofun
  | dispatching call chores => exact nofun
  | _ => exact fun hholds hstands => hstands f hholds

theorem Inv.segment (h : s.Inv) (hpc : s.scheduler.pc 0 = .exec f) (htodo : s.todo f ≠ []) :
    (s.execute f .segment).Inv := by
  have hf : f < s.scheduler.nextId := h.holds_lt (congrArg Pc.holds hpc)
  have hlt : (s.point f).executed < (s.code f).length := by
    simpa [todo] using htodo
  obtain ⟨k, hk⟩ : ∃ k, (s.scheduler.fibers f).task = some k := by
    cases htask : (s.scheduler.fibers f).task with
    | none => simp [code, htask] at hlt
    | some k => exact ⟨k, rfl⟩
  have hother : ∀ {g}, g ≠ f → (s.execute f .segment).point g = s.point g :=
    fun hg => Function.update_of_ne hg _ _
  have hself : ((s.execute f .segment).point f).executed = (s.point f).executed + 1 := by
    simp [execute]
  have hlog : (s.execute f .segment).log = s.log ++ [(k, (s.point f).executed)] := by
    simp [execute, hk]
  refine ⟨h.task_lt, ?_, h.cb_eq, h.pending_lt, h.scheduled, h.unique, ?_, ?_, ?_, ?_, ?_, ?_⟩
  · intro g hg
    rw [hother (Nat.ne_of_gt (Nat.lt_of_lt_of_le hf hg))]
    exact h.unmade hg
  · intro g j hg hgj hno
    by_cases heq : g = f
    · refine .inr (.inl ?_)
      rw [heq]
      exact congrArg Pc.holds hpc
    · rw [Done, hother heq]
      exact h.place hg hgj hno
  · intro entry hentry
    rw [hlog] at hentry
    rcases List.mem_append.mp hentry with hentry | hentry
    · exact h.log_lt entry hentry
    · rw [List.mem_singleton.mp hentry]
      exact h.task_lt hf hk
  · intro g j hg hgj hno
    rw [executed, hlog, List.filter_append, List.map_append]
    by_cases hj : j = k
    · -- The fiber that executed the segment is the only one of its task.
      obtain rfl : g = f := h.unique hg hf (hj ▸ hgj) hk hno
      have hbefore := h.log_eq hg hgj hno
      rw [executed] at hbefore
      rw [hbefore, hself, List.range_succ]
      simp [hj]
    · have hne : g ≠ f := by
        rintro rfl
        exact hj (Option.some.inj (hgj.symm.trans hk))
      have hbefore := h.log_eq hg hgj hno
      rw [executed] at hbefore
      rw [hbefore, hother hne]
      simp [Ne.symm hj]
  · intro g
    by_cases heq : g = f
    · rw [heq, hself]
      exact hlt
    · rw [hother heq]
      exact h.executed_le
  · intro g hdue
    by_cases heq : g = f
    · rw [heq, hself]
      exact Nat.succ_pos _
    · rw [hother heq] at hdue ⊢
      exact h.executed_pos hdue
  · simp only [execute, hpc]
    rintro g ⟨⟩
    exact hf

/-! ## Steps keep the invariant -/

/-- The frame of a step that changes the scheduler alone. -/
def Frames (s s' : TaskState S) : Prop :=
  s'.tasks = s.tasks ∧ s'.log = s.log ∧ ∀ f, (s'.point f).executed = (s.point f).executed ∧
    ((s'.point f).due = true → (s.point f).due = true)

theorem Frames.keeps (hframes : Frames s s')
    (hnext : s'.scheduler.nextId = s.scheduler.nextId)
    (hfibers : ∀ f, (s'.scheduler.fibers f).task = (s.scheduler.fibers f).task ∧
      ((s'.scheduler.fibers f).cb = none ∨
        (s'.scheduler.fibers f).cb = (s.scheduler.fibers f).cb)) : Keeps s s' :=
  ⟨hframes.1, hframes.2.1, fun f => (hframes.2.2 f).1, fun f => (hframes.2.2 f).2, hnext,
    fun f => (hfibers f).1, fun f => (hfibers f).2⟩

theorem fibers_update {fibers : Nat → Fiber Nat} {fiber : Fiber Nat}
    (htask : fiber.task = (fibers f).task) (hcb : fiber.cb = none ∨ fiber.cb = (fibers f).cb)
    (g : Nat) : (Function.update fibers f fiber g).task = (fibers g).task ∧
      ((Function.update fibers f fiber g).cb = none ∨
        (Function.update fibers f fiber g).cb = (fibers g).cb) := by
  by_cases hg : g = f
  · subst hg
    rw [Function.update_self]
    exact ⟨htask, hcb⟩
  · rw [Function.update_of_ne hg]
    exact ⟨rfl, .inr rfl⟩

/-- The worker goes on, the queue stays, and what it had in hand it keeps or is done with. -/
theorem Inv.goes (h : s.Inv) (hkeeps : Keeps s s')
    (hpending : s'.scheduler.pendingFunctors = s.scheduler.pendingFunctors) {p q : Pc Nat}
    (hq : s.scheduler.pc 0 = q) (hp : s'.scheduler.pc 0 = p)
    (hholds : ∀ f, q.holds = some f → p.holds = some f ∨ s.Yields f ∨ s.Done f)
    (hstands : s'.Stands p) : s'.Inv := by
  refine h.keep hkeeps (fun f hf => hpending ▸ hf) (fun f hf => ?_) (hp ▸ hstands)
  rw [hp]
  rcases hf with hf | hf
  · exact .inl (hpending ▸ hf)
  · exact .inr (hholds f (hq ▸ hf))

theorem Inv.advances (h : s.Inv) (hframes : Frames s s')
    (hexec : s.scheduler.advance .scheduler 0 = .ok s'.scheduler)
    (hadv : Advances .scheduler s.scheduler 0 s'.scheduler) : s'.Inv := by
  obtain ⟨scheduler', tasks', point', log'⟩ := s'
  have hstands := h.stands
  simp only at hexec hadv
  have hsame : ∀ f, (s.scheduler.fibers f).task = (s.scheduler.fibers f).task ∧
      ((s.scheduler.fibers f).cb = none ∨
        (s.scheduler.fibers f).cb = (s.scheduler.fibers f).cb) := fun f => ⟨rfl, .inr rfl⟩
  cases hadv with
  | @take f hpc hpick =>
      have hmem := (State.pick_eq_some hpick).1
      refine h.keep (hframes.keeps rfl hsame) (fun g hg => List.mem_of_mem_erase hg)
        (fun g hg => ?_) ?_
      · rcases hg with hg | hg
        · by_cases heq : g = f
          · exact .inr (.inl (heq ▸ rfl))
          · exact .inl ((List.mem_erase_of_ne heq).mpr hg)
        · rw [hpc] at hg
          cases hg
      · rintro g ⟨⟩
        exact h.pending_lt f hmem
  | miss hpc hpick => exact h.goes (hframes.keeps rfl hsame) rfl hpc rfl nofun nofun
  | wake hpc hk =>
      have hlt := fun f hf => h.holds_lt (f := f) hf
      generalize hq : s.scheduler.pc 0 = q at hpc hstands hlt
      cases hpc with
      | @found f call p hp =>
          have hf := hlt f rfl
          rcases hp with rfl | ⟨next, rfl⟩
          · exact h.goes (hframes.keeps rfl hsame) rfl hq rfl (fun g hg => .inl hg)
              (fun g hg => by cases hg; exact hf)
          · exact h.goes (hframes.keeps rfl hsame) rfl hq rfl (fun g hg => .inl hg)
              (fun g hg => by cases hg; exact hf)
      | @spawning f call p hp =>
          have hf := hlt f rfl
          rcases hp with rfl | ⟨next, rfl⟩
          · exact h.goes (hframes.keeps rfl hsame) rfl hq rfl (fun g hg => .inl hg)
              (fun g hg => by cases hg; exact hf)
          · exact h.goes (hframes.keeps rfl hsame) rfl hq rfl (fun g hg => .inl hg)
              (fun g hg => by cases hg; exact hf)
      | requeued hp =>
          rcases hp with rfl | ⟨next, rfl⟩
          · exact h.goes (hframes.keeps rfl hsame) rfl hq rfl nofun nofun
          · exact h.goes (hframes.keeps rfl hsame) rfl hq rfl nofun nofun
      | dispatching hp => exact hstands.elim
  | push callbacks hpc =>
      generalize hq : s.scheduler.pc 0 = q at hpc hstands
      cases hpc with
      | @requeue f p hp =>
          obtain ⟨p, hp, heq⟩ := State.advance_requeue hq hexec
          rw [heq]
          have hpushes : Pushes s
              ⟨(s.scheduler.enqueue [(s.scheduler.fibers f).cb]).1.goto 0 p, tasks', point', log'⟩
              (s.scheduler.fibers f).cb [] := by
            refine ⟨?_, hframes.2.1, fun g => (hframes.2.2 g).1, fun g => (hframes.2.2 g).2, rfl,
              rfl, rfl, ?_⟩
            · rw [List.append_nil]
              exact hframes.1
            · rw [hq]
              exact nofun
          refine h.push hpushes (.inr ⟨rfl, f, hstands.1, hstands.2, h.cb_eq hstands.1⟩) ?_
          · rcases hp with rfl | rfl
            · exact nofun
            · exact nofun
      | dispatch hp => exact hstands.elim
  | @count f hpc =>
      refine h.goes (hframes.keeps rfl hsame) rfl hpc rfl (fun g hg => .inl hg) ?_
      rintro g ⟨⟩
      exact h.holds_lt (congrArg Pc.holds hpc)
  | @enter f hpc hstate =>
      refine h.goes (hframes.keeps rfl (fibers_update rfl (.inr rfl))) rfl hpc rfl
        (fun g hg => .inl hg) ?_
      rintro g ⟨⟩
      exact h.holds_lt (congrArg Pc.holds hpc)
  | @start f hpc hctx =>
      refine h.goes (hframes.keeps rfl (fibers_update rfl (.inr rfl))) rfl hpc rfl
        (fun g hg => .inl hg) ?_
      rintro g ⟨⟩
      exact h.holds_lt (congrArg Pc.holds hpc)
  | @resume f hpc hctx =>
      refine h.goes (hframes.keeps rfl (fibers_update rfl (.inr rfl))) rfl hpc rfl
        (fun g hg => .inl hg) ?_
      rintro g ⟨⟩
      exact h.holds_lt (congrArg Pc.holds hpc)
  | @suspend f hpc =>
      rw [hpc] at hstands
      have hkeeps := hframes.keeps rfl (fibers_update (f := f) rfl (.inr rfl))
      refine h.goes hkeeps rfl hpc rfl (fun g hg => .inl hg) ?_
      refine hkeeps.stands (p := .back f) hstands fun g => ?_
      by_cases hg : g = f
      · simp [State.suspend, State.setFiber, State.goto, hg]
      · simp [State.suspend, State.setFiber, State.goto, hg]
  | @uncount f hpc =>
      rw [hpc] at hstands
      have hkeeps := hframes.keeps rfl hsame
      refine h.goes hkeeps rfl hpc rfl (fun g hg => .inl hg) ?_
      exact hkeeps.stands (p := .settle f) hstands fun g => rfl
  | @ready f hpc hstate =>
      rw [hpc] at hstands
      obtain ⟨hf, hor⟩ := hstands
      have hyields : s.Yields f := by
        rcases hor with hyields | ⟨hterm, -⟩
        · exact hyields
        · cases hterm.symm.trans hstate
      have hkeeps := hframes.keeps rfl hsame
      refine h.goes hkeeps rfl hpc rfl ?_ ⟨hf, hkeeps.yields_iff.mpr hyields⟩
      rintro g ⟨⟩
      exact .inr (.inl hyields)
  | @ended f hpc hstate =>
      rw [hpc] at hstands
      refine h.goes (hframes.keeps rfl hsame) rfl hpc rfl ?_ nofun
      rintro g ⟨⟩
      rcases hstands.2 with hyields | ⟨-, hdone⟩
      · exact .inr (.inl hyields)
      · exact .inr (.inr hdone)
  | @unsettled f hpc hready hstate =>
      rw [hpc] at hstands
      obtain ⟨hf, hor⟩ := hstands
      have hyields : s.Yields f := by
        rcases hor with hyields | ⟨hterm, -⟩
        · exact hyields
        · simp [hterm, FiberState.ended] at hstate
      have hkeeps := hframes.keeps rfl hsame
      exact h.goes hkeeps rfl hpc rfl (fun g hg => .inl hg) ⟨hf, hkeeps.yields_iff.mpr hyields⟩
  | @mark f hpc =>
      rw [hpc] at hstands
      refine h.goes (hframes.keeps rfl (fibers_update rfl (.inr rfl))) rfl hpc rfl ?_ nofun
      rintro g ⟨⟩
      exact .inr (.inl hstands.2)
  | leave hpc hstate => exact h.goes (hframes.keeps rfl hsame) rfl hpc rfl nofun nofun
  | idleCount hpc hstate => exact h.goes (hframes.keeps rfl hsame) rfl hpc rfl nofun nofun
  | idleEnter hpc hstate => exact h.goes (hframes.keeps rfl hsame) rfl hpc rfl nofun nofun
  | idleClean hpc hkind hclean => exact h.goes (hframes.keeps rfl hsame) rfl hpc rfl nofun nofun
  | idleYield hpc hkind => exact h.goes (hframes.keeps rfl hsame) rfl hpc rfl nofun nofun
  | idleWait hpc hkind => cases hkind
  | drain hpc =>
      rw [hpc] at hstands
      exact hstands.elim
  | idleOut hpc =>
      rw [hpc] at hstands
      exact hstands.elim
  | idleSwitch hpc => exact h.goes (hframes.keeps rfl hsame) rfl hpc rfl nofun nofun
  | idleEnded hpc hstate => exact h.goes (hframes.keeps rfl hsame) rfl hpc rfl nofun nofun
  | idleMark hpc hstate => exact h.goes (hframes.keeps rfl hsame) rfl hpc rfl nofun nofun
  | idleUncount hpc => exact h.goes (hframes.keeps rfl hsame) rfl hpc rfl nofun nofun

theorem Inv.of_step {a : TaskAction S} (h : s.Inv)
    (hstep : (taskMachine S).step s a = some s') : s'.Inv := by
  rcases step_inv hstep with ⟨action, haction, hexec, hmoves, hadmits, htasks, hlog, hpoint⟩ |
    ⟨f, rfl, hpc, htodo, rfl⟩
  · obtain ⟨scheduler', tasks', point', log'⟩ := s'
    have hstands := h.stands
    simp only at hexec hmoves
    cases a with
    | schedule task =>
        cases haction
        cases hmoves with
        | scheduler callbacks outside =>
            have hpush : Pushes s _ (some s.tasks.length) [task] :=
              ⟨htasks, hlog, fun g => (hpoint g).1, fun g => (hpoint g).2, rfl, rfl, rfl,
                fun g hg => hg⟩
            exact h.push hpush (.inl ⟨task, rfl, rfl⟩) (hpush.stands h hstands)
    | spawn task =>
        cases haction
        cases hmoves with
        | @spawn v f p callbacks hpc hp =>
            have hf := h.holds_lt (congrArg Pc.holds hpc)
            refine h.push ⟨htasks, hlog, fun g => (hpoint g).1, fun g => (hpoint g).2, rfl, rfl,
              rfl, ?_⟩ (.inl ⟨task, rfl, rfl⟩) ?_
            · intro g hg
              rw [hpc] at hg
              rcases hp with rfl | rfl
              · exact hg
              · exact hg
            · rcases hp with rfl | rfl
              · rintro g ⟨⟩
                exact Nat.lt_succ_of_lt hf
              · rintro g ⟨⟩
                exact Nat.lt_succ_of_lt hf
    | segment => cases haction
    | yieldToReady =>
        cases haction
        have hframes : Frames s ⟨scheduler', tasks', point', log'⟩ :=
          ⟨htasks.trans (List.append_nil _), hlog, hpoint⟩
        cases hmoves with
        | @yieldToReady v f hpc =>
            have hf := h.holds_lt (congrArg Pc.holds hpc)
            have hkeeps := hframes.keeps rfl (fibers_update (f := f) rfl (.inr rfl))
            -- One segment has been executed and one is to come.
            have hyields : s.Yields f := by
              simp only [admits, State.current, hpc, Bool.and_eq_true, Bool.not_eq_true',
                List.isEmpty_eq_false_iff, todo, ne_eq, List.drop_eq_nil_iff, Nat.not_le]
                at hadmits
              have := h.executed_pos hadmits.1
              have := hadmits.2
              unfold Yields
              omega
            exact h.goes hkeeps rfl hpc rfl (fun g hg => .inl hg)
              ⟨hf, .inl (hkeeps.yields_iff.mpr hyields)⟩
    | finish =>
        cases haction
        have hframes : Frames s ⟨scheduler', tasks', point', log'⟩ :=
          ⟨htasks.trans (List.append_nil _), hlog, hpoint⟩
        cases hmoves with
        | @finish v f thrown hpc =>
            have hf := h.holds_lt (congrArg Pc.holds hpc)
            have hkeeps := hframes.keeps rfl (fibers_update (f := f) rfl (.inl rfl))
            have hdone : s.Done f := by
              simp only [admits, State.current, hpc, Bool.and_eq_true, List.isEmpty_iff, todo,
                List.drop_eq_nil_iff] at hadmits
              exact Nat.le_antisymm h.executed_le hadmits.2
            refine h.goes hkeeps rfl hpc rfl (fun g hg => .inl hg) ⟨hf, .inr ⟨?_, ?_⟩⟩
            · exact congrArg Fiber.state (Function.update_self f _ s.scheduler.fibers)
            · exact hkeeps.done_iff.mpr hdone
    | advance =>
        cases haction
        cases hmoves with
        | advance hadv => exact h.advances ⟨htasks.trans (List.append_nil _), hlog, hpoint⟩ hexec hadv
    | _ =>
        cases haction
        have hframes : Frames s ⟨scheduler', tasks', point', log'⟩ :=
          ⟨htasks.trans (List.append_nil _), hlog, hpoint⟩
        cases hmoves
        have hkeeps := hframes.keeps rfl fun f => ⟨rfl, .inr rfl⟩
        exact h.goes hkeeps rfl rfl rfl (fun g hg => .inl hg) (hkeeps.stands hstands fun g => rfl)
  · exact h.segment hpc htodo

/-- What the invariant says of a task of one segment. -/
theorem Inv.resumes (h : s.Inv) {task : Task S} (htask : s.tasks[k]? = some task)
    (hrest : task.rest = []) : s.Resumes k task := by
  have hk := (List.getElem?_eq_some_iff.mp htask).1
  obtain ⟨f, hf, hfk⟩ := h.scheduled hk
  have hcode : s.code f = task.segments := by
    simp [code, hfk, htask]
  have hno : ¬ s.Yields f := by
    simp [Yields, hcode, Task.segments, hrest]
  rw [Resumes, h.log_eq hf hfk hno]
  constructor
  · rw [← hcode, ← Nat.min_eq_left (h.executed_le (f := f)), ← List.take_range]
    exact List.take_prefix _ _
  · rintro ⟨hpending, hholds, -⟩
    rcases h.place hf hfk hno with hmem | hheld | hdone
    · rw [hpending] at hmem
      cases hmem
    · cases hheld.symm.trans hholds
    · rw [← hcode, ← hdone]

end TaskState

/-! ## A task that yields -/

/-- One task alone: it yields after its first segment and is taken up again. -/
def yieldOnce (task : Task S) : List (TaskAction S) :=
  [.schedule task, .advance, .advance, .advance, .advance, .advance, .segment, .yieldToReady,
    .advance, .advance, .advance, .advance, .advance,
    .advance, .advance, .advance, .advance, .advance, .segment]

theorem run_yieldOnce (first second : S) (rest : List S) :
    ((taskMachine S).run .started (yieldOnce ⟨first, second :: rest⟩)).map
      (fun s => (s.tasks, s.log)) = some ([⟨first, second :: rest⟩], [(0, 0), (0, 0)]) := by
  cbv

/--
In every run and at every moment a task has executed a prefix of its segments,
and the whole of it once nothing is left to run, exactly if it never yields.
-/
theorem yield_resumes_iff {S : Type} (task : Task S) :
    (∀ acts s k, (taskMachine S).run .started acts = some s → s.tasks[k]? = some task →
      s.Resumes k task) ↔ task.rest = [] := by
  constructor
  · intro hall
    obtain ⟨first, rest⟩ := task
    cases rest with
    | nil => rfl
    | cons second rest =>
        obtain ⟨s, hs, heq⟩ := Option.map_eq_some_iff.mp (run_yieldOnce first second rest)
        obtain ⟨htasks, hlog⟩ := Prod.mk.inj heq
        obtain ⟨hstarts, -⟩ := hall _ s 0 hs (by simp [htasks])
        have hnodup := List.nodup_range.sublist hstarts.sublist
        simp [TaskState.executed, hlog] at hnodup
  · intro hrest acts s k hrun htask
    have h : s.Inv := Machine.run_invariant TaskState.Inv.of_step TaskState.started_inv hrun
    exact h.resumes htask hrest

/-- The first of two segments is executed twice, the second not at all. -/
theorem yield_restarts :
    ∃ s, (taskMachine String).run .started (yieldOnce ⟨"a", ["b"]⟩) = some s ∧
      s.tasks = [⟨"a", ["b"]⟩] ∧ s.executed 0 = [0, 0] ∧
      ¬ s.Resumes 0 ⟨"a", ["b"]⟩ := by
  obtain ⟨s, hs, heq⟩ := Option.map_eq_some_iff.mp (run_yieldOnce "a" "b" [])
  obtain ⟨htasks, hlog⟩ := Prod.mk.inj heq
  have hexecuted : s.executed 0 = [0, 0] := by
    rw [TaskState.executed, hlog]
    decide
  refine ⟨s, hs, htasks, hexecuted, fun hresumes => ?_⟩
  have hstarts := hresumes.1
  rw [hexecuted] at hstarts
  revert hstarts
  decide

end Qslary.Scheduler
