import AdaptiveExecutor.Controller

/-!
# The Executor as a Transition System

`start`, `shutdown`, the threads outside the executor, and the global step: the
tick source advances, or one thread takes one step and its event is applied to
the shared state. `Run` strings steps together and records each step's action
and event; `Reachable` is everything a run from a fresh executor reaches.

`shutdown` waits on `_deathCondition` with a predicate. The wait re-checks
`_threads.empty()` under the mutex every time it wakes, whether it was notified,
woke spuriously or timed out, and after the deadline it returns whatever the
predicate says. Since a wake may come at any time, a notify changes nothing the
model can see, and `notifyDeath` only marks the step.

## Main definitions

* `MainPc.step`: One step of `start` or `shutdown`.
* `ClientPc.step`: One step of an outside thread calling `schedule`.
* `Action`: A tick of the clock, or a step of one thread with its choice.
* `Executor.step`: One step of the whole executor.
* `Run`: A sequence of steps, with their actions and events.
* `Reachable`: The states a fresh executor can reach.
* `Executor.exec`: Running a list of actions, for concrete traces.
* `ExecMove`: Each step of the executor, one constructor per kind of thread.

## Theorems

* `Executor.step_move`: Every step of the executor is one of `ExecMove`'s.

* `Run.trans`: Runs compose.
* `Run.reachable`: A run from a reachable state ends in one.
* `exec_run`: A list of actions that executes is a run.
* `Executor.exec_actions`: An executed list's events carry its actions, in order.
-/

namespace AdaptiveExecutor

/-- One step of the owning thread: `start` from a fresh executor, and `shutdown`
at any time after. -/
def MainPc.step (cfg : Config) (s : Executor) (m : MainPc) : Choice → Option (MainPc × Event)
  | .start =>
    match m with
    | .idle => if s.isRunning then none else some (.startController, .storeRunning true)
    | _ => none
  | .shutdown timeout =>
    match m with
    | .idle | .started | .returned _ =>
      some (if s.isRunning then .shutdownStore timeout else .returned true, .silent)
    | _ => none
  | .next =>
    let free := decide (s.threadsMutex = none)
    match m with
    | .startController => some (.startSpawn 0, .startController)
    | .startSpawn i =>
      if (i : Int) < cfg.options.reservedThreads then
        if free then some (.startSpawning i s.workers.length, .emplace) else none
      else some (.started, .silent)
    | .startSpawning i x => if s.spawnDone x then some (.startSpawn (i + 1), .silent) else none
    | .shutdownStore t => some (.shutdownNotify t, .storeRunning false)
    | .shutdownNotify t => some (.shutdownJoin t, .notifySchedule)
    | .shutdownJoin t => if s.controller.pc = .done then some (.shutdownLock t, .silent) else none
    | .shutdownLock t => if free then some (.shutdownStop t, .lock) else none
    | .shutdownStop t => some (.shutdownCheck (s.now + cfg.ofMillis t), .ioStop)
    | .shutdownCheck d =>
      some (if s.threadsEmpty then .returned true else .shutdownWait d, .unlock)
    | .shutdownWait d => some (.shutdownRelock d, .silent)
    | .shutdownRelock d =>
      if free then
        if d ≤ s.now then some (.returned s.threadsEmpty, .silent) else some (.shutdownCheck d, .lock)
      else none
    | _ => none
  | _ => none

/-- One step of an outside thread: it calls `schedule` with any task and flags,
and steps through the call. It runs no reactor, so nothing is ever dispatched
inline on it. -/
def ClientPc.step (cfg : Config) (s : Executor) (p : ClientPc) : Choice → Option (ClientPc × Event)
  | .schedule flags task =>
    match p with
    | .idle => some (.scheduling ⟨flags, task, .checkRunning s.now⟩, .scheduleIncrement flags.deferredTask)
    | _ => none
  | .next =>
    match p with
    | .scheduling c =>
      (c.step cfg s none).bind fun (r, e) =>
        match r with
        | .next c' => some (.scheduling c', e)
        | .inline _ _ => none
        | .done => some (.idle, e)
        | .fault => some (.crashed, e)
    | _ => none
  | _ => none

/-- What happens next: the tick source advances, or a thread takes a step. -/
inductive Action
  | tick (d : Nat)
  | thread (t : Tid) (c : Choice)
  deriving DecidableEq, Repr

/-- One step of the executor: the thread's step changes its own state, and its
event is then applied to the shared state. -/
def Executor.step (cfg : Config) (s : Executor) : Action → Option (Executor × Event)
  | .tick d => some ({ s with now := s.now + d }, .tick d)
  | .thread .main c =>
    (s.main.step cfg s c).map fun (m, e) => ({ s with main := m }.apply .main e, e)
  | .thread .controller c =>
    (s.controller.step cfg s c).map fun (x, e) => ({ s with controller := x }.apply .controller e, e)
  | .thread (.worker i) c =>
    match s.workers[i]? with
    | some w => (w.step cfg s c).map fun (w', e) =>
        ({ s with workers := s.workers.set i w' }.apply (.worker i) e, e)
    | none => none
  | .thread (.client i) c =>
    match s.clients[i]? with
    | some p => (p.step cfg s c).map fun (p', e) =>
        ({ s with clients := s.clients.set i p' }.apply (.client i) e, e)
    | none => none

/-- A run: the steps from one state to another, with each step's action and
event, in order. -/
inductive Run (cfg : Config) : Executor → List (Action × Event) → Executor → Prop
  | refl (s : Executor) : Run cfg s [] s
  | step {s s' s'' : Executor} {es : List (Action × Event)} {a : Action} {e : Event} :
      Run cfg s es s' → s'.step cfg a = some (s'', e) → Run cfg s (es ++ [(a, e)]) s''

/-- The states some run from a fresh executor, with any number of outside
threads, reaches. -/
def Reachable (cfg : Config) (s : Executor) : Prop :=
  ∃ n es, Run cfg (Executor.init n) es s

theorem Run.trans {cfg : Config} {s s' s'' : Executor} {es es' : List (Action × Event)}
    (h1 : Run cfg s es s') (h2 : Run cfg s' es' s'') : Run cfg s (es ++ es') s'' := by
  induction h2 with
  | refl => simpa using h1
  | step _ hstep ih => rw [← List.append_assoc]; exact ih.step hstep

theorem Run.reachable {cfg : Config} {s s' : Executor} {es : List (Action × Event)}
    (hs : Reachable cfg s) (h : Run cfg s es s') : Reachable cfg s' := by
  obtain ⟨n, es0, h0⟩ := hs
  exact ⟨n, _, h0.trans h⟩

/-- Execute a list of actions; `none` as soon as one cannot be taken. -/
def Executor.exec (cfg : Config) : Executor → List Action → Option (Executor × List (Action × Event))
  | s, [] => some (s, [])
  | s, a :: as =>
    match s.step cfg a with
    | some (s', e) => (exec cfg s' as).map fun (t, es) => (t, (a, e) :: es)
    | none => none

theorem exec_run (cfg : Config) :
    ∀ (as : List Action) (s t : Executor) (es : List (Action × Event)),
      Executor.exec cfg s as = some (t, es) → Run cfg s es t := by
  intro as
  induction as with
  | nil =>
    intro s t es h
    simp only [Executor.exec, Option.some.injEq, Prod.mk.injEq] at h
    obtain ⟨rfl, rfl⟩ := h
    exact .refl s
  | cons a as ih =>
    intro s t es h
    simp only [Executor.exec] at h
    split at h
    · rename_i s' e hstep
      obtain ⟨⟨t', es'⟩, hrest, heq⟩ := Option.map_eq_some'.mp h
      simp only [Prod.mk.injEq] at heq
      obtain ⟨rfl, rfl⟩ := heq
      have := (Run.refl s).step hstep
      simpa using this.trans (ih s' _ es' hrest)
    · cases h

/-- A list of actions that can all be taken is a run to the state it reaches. -/
theorem exec_run_get {cfg : Config} {s : Executor} {as : List Action}
    (h : (Executor.exec cfg s as).isSome) :
    Run cfg s ((Executor.exec cfg s as).get h).2 ((Executor.exec cfg s as).get h).1 :=
  exec_run cfg as s _ _ (Option.some_get h).symm

/-- The actions of the events an execution records are the actions executed. -/
theorem Executor.exec_actions {cfg : Config} :
    ∀ {as : List Action} {s t : Executor} {es : List (Action × Event)},
      Executor.exec cfg s as = some (t, es) → es.map Prod.fst = as
  | [], _, _, _, h => by
    simp only [Executor.exec, Option.some.injEq, Prod.mk.injEq] at h
    simp [← h.2]
  | a :: as, s, _, _, h => by
    simp only [Executor.exec] at h
    split at h
    · obtain ⟨⟨t', es'⟩, hrest, heq⟩ := Option.map_eq_some'.mp h
      simp only [Prod.mk.injEq] at heq
      simp [← heq.2, exec_actions hrest]
    · cases h

/-- Each step of the executor: a tick, or a step of one thread, with the state
after it and its event. A worker's step is one of `WorkerMove`'s. -/
inductive ExecMove (cfg : Config) (s : Executor) : Action → Executor → Event → Prop
  | tick (d : Nat) : ExecMove cfg s (.tick d) { s with now := s.now + d } (.tick d)
  | main {c : Choice} {m : MainPc} {e : Event} (h : s.main.step cfg s c = some (m, e)) :
      ExecMove cfg s (.thread .main c) ({ s with main := m }.apply .main e) e
  | controller {c : Choice} {x : Controller} {e : Event} (h : s.controller.step cfg s c = some (x, e)) :
      ExecMove cfg s (.thread .controller c) ({ s with controller := x }.apply .controller e) e
  | worker {c : Choice} {i : Nat} {w w' : Worker} {e : Event} (hw : s.workers[i]? = some w)
      (h : WorkerMove cfg s w w' e) :
      ExecMove cfg s (.thread (.worker i) c) ({ s with workers := s.workers.set i w' }.apply (.worker i) e) e
  | client {c : Choice} {i : Nat} {p p' : ClientPc} {e : Event} (hp : s.clients[i]? = some p)
      (h : p.step cfg s c = some (p', e)) :
      ExecMove cfg s (.thread (.client i) c) ({ s with clients := s.clients.set i p' }.apply (.client i) e) e

theorem Executor.step_move {cfg : Config} {s s' : Executor} {a : Action} {e : Event}
    (h : s.step cfg a = some (s', e)) : ExecMove cfg s a s' e := by
  cases a with
  | tick d =>
    simp only [Executor.step, Option.some.injEq, Prod.mk.injEq] at h
    obtain ⟨rfl, rfl⟩ := h
    exact .tick d
  | thread t c =>
    cases t with
    | main =>
      obtain ⟨⟨m, e'⟩, hm, h⟩ := Option.map_eq_some'.mp h
      simp only [Prod.mk.injEq] at h
      obtain ⟨rfl, rfl⟩ := h
      exact .main hm
    | controller =>
      obtain ⟨⟨x, e'⟩, hx, h⟩ := Option.map_eq_some'.mp h
      simp only [Prod.mk.injEq] at h
      obtain ⟨rfl, rfl⟩ := h
      exact .controller hx
    | worker i =>
      simp only [Executor.step] at h
      split at h
      · obtain ⟨⟨w', e'⟩, hw', h⟩ := Option.map_eq_some'.mp h
        simp only [Prod.mk.injEq] at h
        obtain ⟨rfl, rfl⟩ := h
        exact .worker ‹_› (Worker.step_move hw')
      · cases h
    | client i =>
      simp only [Executor.step] at h
      split at h
      · obtain ⟨⟨p', e'⟩, hp', h⟩ := Option.map_eq_some'.mp h
        simp only [Prod.mk.injEq] at h
        obtain ⟨rfl, rfl⟩ := h
        exact .client ‹_› hp'
      · cases h

/-- What holds of every state a fresh executor reaches, when it holds initially
and every step keeps it. -/
theorem Reachable.invariant {cfg : Config} (P : Executor → Prop) (h0 : ∀ n, P (Executor.init n))
    (hstep : ∀ s s' a e, Reachable cfg s → P s → ExecMove cfg s a s' e → P s') {s : Executor}
    (hs : Reachable cfg s) : P s := by
  obtain ⟨n, es, h⟩ := hs
  induction h with
  | refl => exact h0 n
  | step hr hst ih => exact hstep _ _ _ _ ⟨n, _, hr⟩ ih (Executor.step_move hst)

/-! ## A run with the default parameters

The server parameters' defaults on a two-core machine, with a tick per
millisecond: one reserved thread, recursion limit eight. In `demoRun` the owner
starts the executor, the one worker launches and opens its first slice, and an
outside thread schedules a task that schedules a child with `kMayRecurse`. The
worker takes the task from the queue and runs it; the child is dispatched inline
on top of it and is running its body, two wrappers deep. -/

/-- The server parameters' defaults on a two-core machine, a tick a millisecond. -/
def defaultConfig : Config := ⟨ServerParameterOptions {} 2, 1, Nat.one_pos⟩

/-- A task that schedules an empty task with `kMayRecurse` and then returns. -/
def nestedTask : Task := .schedule ⟨true, false⟩ .done false .done

/-- Start, launch, and run `nestedTask` from an outside thread down to its child's body. -/
def demoActions : List Action :=
  let m := Action.thread .main .next
  let w := Action.thread (.worker 0) .next
  let c := Action.thread (.client 0) .next
  [.thread .main .start, m, m, w, w, w, .thread (.worker 0) (.launch true), m, m,
   .thread (.worker 0) (.jitter 0), w, w,
   .thread (.client 0) (.schedule ⟨false, false⟩ nestedTask), c, c,
   w, w, w, w, w, w, w, w, w, w, w]

theorem demoActions_exec : (Executor.exec defaultConfig (Executor.init 1) demoActions).isSome := by
  decide

/-- The state `demoActions` reaches, and its events. -/
def demoState : Executor := ((Executor.exec defaultConfig (Executor.init 1) demoActions).get demoActions_exec).1

def demoEvents : List (Action × Event) :=
  ((Executor.exec defaultConfig (Executor.init 1) demoActions).get demoActions_exec).2

theorem demoRun : Run defaultConfig (Executor.init 1) demoEvents demoState := exec_run_get demoActions_exec

theorem demoState_reachable : Reachable defaultConfig demoState := ⟨1, _, demoRun⟩

end AdaptiveExecutor
