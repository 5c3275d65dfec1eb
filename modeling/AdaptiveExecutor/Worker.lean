import AdaptiveExecutor.Schedule

/-!
# Worker Threads

`_workerThreadRoutine`, and the steps of `_startWorkerThread` that follow the
`emplace` of a new entry.

A spawn counts the entry pending and running under the mutex, releases it and
launches the thread. A failed launch takes the mutex again, uncounts the entry
and erases it. A launched worker draws its jitter and loops while the executor
runs: it resets `executingCurRun`, starts its running stopwatch and drives the
reactor for one slice (`run_one_for` while it is still pending, `run_for`
after), restarts a stopped reactor, stops the stopwatch, and then either leaves
the pending state or decides whether to retire. An exception out of the reactor
starts a replacement and leaves the loop with the running stopwatch still open.
Every way out of the loop runs the same exit guard.

Inside a slice the worker takes the next posted wrapper from the reactor's
queue whenever its stack is empty, and otherwise steps the innermost wrapper.
The slice ends, between wrappers, when the reactor is stopped, when the slice's
time is up, or, for `run_one_for`, once a wrapper has finished.

## Main definitions

* `getThreadJitter`: `_getThreadJitter` for one draw of the distribution.
* `executingToRunning`: The ratio the retirement check asserts about.
* `pctExecuting`: The integer percentage the retirement check compares.
* `Worker.runTime`: The length of a slice, in milliseconds.
* `Worker.sliceOver`: A slice's time is up.
* `Worker.sliceEnds`: The reactor returns between wrappers.
* `Worker.retire`: The retirement check.
* `WorkerPc.levels`: The wrappers on a worker's stack.
* `WorkerPc.afterLevel`: Where a worker stands after a step of its innermost
  wrapper.
* `Worker.stepRun`: One step of the reactor slice.
* `Worker.step`: One step of a worker.
* `WorkerMove`: Each step of a worker, one constructor per action.

## Theorems

* `Worker.step_move`: Every step of a worker is one of `WorkerMove`'s.
-/

namespace AdaptiveExecutor

/-- `_getThreadJitter`, given the value `jitterDist` draws. No jitter is drawn
when the parameter is zero; a draw above the run time is replaced by zero. For a
positive parameter the distribution draws from `[-runTimeJitter, runTimeJitter]`,
so another value is no draw at all. For a negative one the bounds are inverted,
which `uniform_int_distribution` leaves undefined: the model lets it draw any
value. -/
def getThreadJitter (o : Options) (draw : Int) : Option Int :=
  if o.runTimeJitter = 0 then some 0
  else if o.runTimeJitter < 0 ∨ (-o.runTimeJitter ≤ draw ∧ draw ≤ o.runTimeJitter) then
    some (if draw > o.workerThreadRunTime then 0 else draw)
  else none

/-- `executingToRunning`: `executingCurRun / static_cast<double>(spentRunning)`,
times a hundred. A slice of no ticks divides by zero, and the double is then not
a number (or infinite); `none` stands for that. -/
def executingToRunning (executingCurRun spentRunning : Nat) : Option ℚ :=
  if spentRunning = 0 then none else some ((executingCurRun : ℚ) / spentRunning * 100)

/-- `pctExecuting`, `static_cast<int>(executingToRunning)`. The source divides
and multiplies in `double` and truncates; the model takes the floor of the exact
quotient. Rounding can leave the double just below a whole number the exact
quotient reaches: at 29 ticks executing of 50 the source gets 57, the model 58.
For a slice of no ticks the source converts a NaN to `int`, which is undefined;
the model takes zero. -/
def pctExecuting (executingCurRun spentRunning : Nat) : Int :=
  ((executingCurRun * 100 / spentRunning : Nat) : Int)

/-- `runTime`: the run time plus the thread's jitter, in milliseconds. -/
def Worker.runTime (cfg : Config) (w : Worker) : Int :=
  cfg.options.workerThreadRunTime + w.jitter

/-- The slice's time is up: as much time as `runTime` has passed since the
running stopwatch started. -/
def Worker.sliceOver (cfg : Config) (now : Nat) (w : Worker) : Bool :=
  decide (cfg.ofMillis (w.runTime cfg) ≤ (w.running.openTime now : Int))

/-- The reactor slice ends between wrappers: the reactor is stopped, the thread
is still pending and has run its one wrapper, or the slice's time is up. -/
def Worker.sliceEnds (cfg : Config) (s : Executor) (w : Worker) (handled : Bool) : Bool :=
  s.ioStopped || (w.stillPending && handled) || w.sliceOver cfg s.now

/-- The retirement check after a slice that was not the first: more threads run
than are reserved, and the thread executed tasks for too little of the slice. -/
def Worker.retire (cfg : Config) (s : Executor) (w : Worker) (spentRunning : Nat) : Bool :=
  decide (s.counters .threadsRunning > cfg.options.reservedThreads) &&
    decide (pctExecuting w.executingCurRun spentRunning < cfg.options.idlePctThreshold)

/-- The wrappers on a worker's stack, innermost first: none outside a slice. -/
def WorkerPc.levels : WorkerPc → List Level
  | .run levels _ => levels
  | _ => []

/-- Where a worker stands after a step of its innermost wrapper, the rest of the
stack being `rest`. When the outermost wrapper finishes, the stack is empty: the
slice goes on if it returned, and the exception leaves the reactor if it
unwound. -/
def WorkerPc.afterLevel (handled : Bool) (rest : List Level) : LevelStep → WorkerPc
  | .next l' => .run (l' :: rest) handled
  | .push l' x => .run (x :: l' :: rest) handled
  | .finish exn =>
    match rest with
    | [] => if exn then .caught else .run [] true
    | l' :: rest' => .run (l'.resume exn :: rest') handled

/-- One step of `run_one_for` / `run_for` for worker `w` with the given stack of
wrappers: take the next posted wrapper, return from the reactor, step the
innermost wrapper, or (`thrown`) let an exception escape the reactor. -/
def Worker.stepRun (cfg : Config) (s : Executor) (w : Worker) (handled : Bool) :
    List Level → Bool → Option (Worker × Event)
  | [], false =>
    if w.sliceEnds cfg s handled then
      some ({ w with pc := .stopped }, .silent)
    else
      match s.queue with
      | x :: _ => some ({ w with pc := .run [⟨x, .decrement⟩] handled }, .pop)
      | [] => none
  | [], true => some ({ w with pc := .caught }, .silent)
  | l :: rest, false =>
    (l.step cfg s w).map fun (w', r, e) => ({ w' with pc := WorkerPc.afterLevel handled rest r }, e)
  | _ :: _, true => none

/-- The choices a step can depend on: the launch's outcome, the jitter drawn, an
exception escaping the reactor, and what an outside thread calls. -/
inductive Choice
  | next
  | launch (ok : Bool)
  | jitter (draw : Int)
  | throw
  | schedule (flags : ScheduleFlags) (task : Task)
  | start
  | shutdown (timeout : Int)
  deriving DecidableEq, Repr

/-- One step of worker `w`: of `_startWorkerThread` for its entry while it is
spawning, then of `_workerThreadRoutine`. -/
def Worker.step (cfg : Config) (s : Executor) (w : Worker) : Choice → Option (Worker × Event)
  | .next =>
    match w.pc with
    | .spawning .incPending => some ({ w with pc := .spawning .incRunning }, .pendingIncrement)
    | .spawning .incRunning => some ({ w with pc := .spawning .unlock }, .runningIncrement)
    | .spawning .unlock => some ({ w with pc := .spawning .launch }, .unlock)
    | .spawning .relock =>
      if s.threadsMutex = none then some ({ w with pc := .spawning .decPending }, .lock) else none
    | .spawning .decPending => some ({ w with pc := .spawning .decRunning }, .pendingDecrement)
    | .spawning .decRunning => some ({ w with pc := .spawning .erase }, .runningDecrement)
    | .spawning .erase => some ({ w with pc := .failed }, .erase)
    | .loop => some ({ w with pc := if s.isRunning then .slice else .guardPending }, .silent)
    | .slice =>
      some ({ w with pc := .run [] false, executingCurRun := 0, running := w.running.markRunning s.now },
        .silent)
    | .run levels handled => w.stepRun cfg s handled levels false
    | .stopped => some ({ w with pc := if s.ioStopped then .restart else .markStopped }, .silent)
    | .restart => some ({ w with pc := .markStopped }, .ioRestart)
    | .caught =>
      if s.threadsMutex = none then some ({ w with pc := .replacing s.workers.length }, .emplace)
      else none
    | .replacing x => if s.spawnDone x then some ({ w with pc := .guardPending }, .silent) else none
    | .markStopped =>
      let stop := w.running.markStopped s.now
      some ({ w with running := stop.1, pc := if w.stillPending then .pendingDone else .retireCheck stop.2 },
        .silent)
    | .pendingDone => some ({ w with pc := .loop, stillPending := false }, .pendingDecrement)
    | .retireCheck spent => some ({ w with pc := if w.retire cfg s spent then .guardPending else .loop }, .silent)
    | .guardPending =>
      some ({ w with pc := .guardRunning }, if w.stillPending then .pendingDecrement else .silent)
    | .guardRunning => some ({ w with pc := .guardPastRunning }, .runningDecrement)
    | .guardPastRunning =>
      some ({ w with pc := .guardPastExecuting }, .pastRunning (w.running.totalTime s.now))
    | .guardPastExecuting =>
      some ({ w with pc := .guardLock }, .pastExecuting (w.executing.totalTime s.now))
    | .guardLock => if s.threadsMutex = none then some ({ w with pc := .guardErase }, .lock) else none
    | .guardErase => some ({ w with pc := .guardNotify }, .erase)
    | .guardNotify => some ({ w with pc := .exited }, .notifyDeath)
    | _ => none
  | .launch ok =>
    match w.pc with
    | .spawning .launch => some ({ w with pc := if ok then .begin else .spawning .relock }, .silent)
    | _ => none
  | .jitter draw =>
    match w.pc with
    | .begin =>
      (getThreadJitter cfg.options draw).map fun j =>
        ({ w with pc := .loop, jitter := j }, .silent)
    | _ => none
  | .throw =>
    match w.pc with
    | .run levels handled => w.stepRun cfg s handled levels true
    | _ => none
  | _ => none

/-! ## The actions, one by one -/

/-- Each step of a worker, with the worker after it and its event. -/
inductive WorkerMove (cfg : Config) (s : Executor) : Worker → Worker → Event → Prop
  | incPending {w : Worker} (h : w.pc = .spawning .incPending) :
      WorkerMove cfg s w { w with pc := .spawning .incRunning } .pendingIncrement
  | incRunning {w : Worker} (h : w.pc = .spawning .incRunning) :
      WorkerMove cfg s w { w with pc := .spawning .unlock } .runningIncrement
  | unlock {w : Worker} (h : w.pc = .spawning .unlock) :
      WorkerMove cfg s w { w with pc := .spawning .launch } .unlock
  | launch {w : Worker} (ok : Bool) (h : w.pc = .spawning .launch) :
      WorkerMove cfg s w { w with pc := if ok then .begin else .spawning .relock } .silent
  | relock {w : Worker} (h : w.pc = .spawning .relock) (hm : s.threadsMutex = none) :
      WorkerMove cfg s w { w with pc := .spawning .decPending } .lock
  | decPending {w : Worker} (h : w.pc = .spawning .decPending) :
      WorkerMove cfg s w { w with pc := .spawning .decRunning } .pendingDecrement
  | decRunning {w : Worker} (h : w.pc = .spawning .decRunning) :
      WorkerMove cfg s w { w with pc := .spawning .erase } .runningDecrement
  | erase {w : Worker} (h : w.pc = .spawning .erase) :
      WorkerMove cfg s w { w with pc := .failed } .erase
  | jitter {w : Worker} {draw j : Int} (h : w.pc = .begin) (hj : getThreadJitter cfg.options draw = some j) :
      WorkerMove cfg s w { w with pc := .loop, jitter := j } .silent
  | loop {w : Worker} (h : w.pc = .loop) :
      WorkerMove cfg s w { w with pc := if s.isRunning then .slice else .guardPending } .silent
  | slice {w : Worker} (h : w.pc = .slice) :
      WorkerMove cfg s w
        { w with pc := .run [] false, executingCurRun := 0, running := w.running.markRunning s.now } .silent
  | pop {w : Worker} {handled : Bool} {x : Wrapped} {q : List Wrapped} (h : w.pc = .run [] handled)
      (hs : w.sliceEnds cfg s handled = false) (hq : s.queue = x :: q) :
      WorkerMove cfg s w { w with pc := .run [⟨x, .decrement⟩] handled } .pop
  | stop {w : Worker} {handled : Bool} (h : w.pc = .run [] handled) (hs : w.sliceEnds cfg s handled = true) :
      WorkerMove cfg s w { w with pc := .stopped } .silent
  | level {w w₁ : Worker} {handled : Bool} {l : Level} {rest : List Level} {r : LevelStep} {e : Event}
      (h : w.pc = .run (l :: rest) handled) (hl : LevelMove cfg s w l w₁ r e) :
      WorkerMove cfg s w { w₁ with pc := WorkerPc.afterLevel handled rest r } e
  | throw {w : Worker} {handled : Bool} (h : w.pc = .run [] handled) :
      WorkerMove cfg s w { w with pc := .caught } .silent
  | stopped {w : Worker} (h : w.pc = .stopped) :
      WorkerMove cfg s w { w with pc := if s.ioStopped then .restart else .markStopped } .silent
  | restart {w : Worker} (h : w.pc = .restart) :
      WorkerMove cfg s w { w with pc := .markStopped } .ioRestart
  | caught {w : Worker} (h : w.pc = .caught) (hm : s.threadsMutex = none) :
      WorkerMove cfg s w { w with pc := .replacing s.workers.length } .emplace
  | replacing {w : Worker} {x : Nat} (h : w.pc = .replacing x) (hx : s.spawnDone x = true) :
      WorkerMove cfg s w { w with pc := .guardPending } .silent
  | markStopped {w : Worker} (h : w.pc = .markStopped) :
      WorkerMove cfg s w
        { w with
          running := (w.running.markStopped s.now).1
          pc := if w.stillPending then .pendingDone else .retireCheck (w.running.markStopped s.now).2 }
        .silent
  | pendingDone {w : Worker} (h : w.pc = .pendingDone) :
      WorkerMove cfg s w { w with pc := .loop, stillPending := false } .pendingDecrement
  | retireCheck {w : Worker} {spent : Nat} (h : w.pc = .retireCheck spent) :
      WorkerMove cfg s w { w with pc := if w.retire cfg s spent then .guardPending else .loop } .silent
  | guardPending {w : Worker} (h : w.pc = .guardPending) :
      WorkerMove cfg s w { w with pc := .guardRunning }
        (if w.stillPending then .pendingDecrement else .silent)
  | guardRunning {w : Worker} (h : w.pc = .guardRunning) :
      WorkerMove cfg s w { w with pc := .guardPastRunning } .runningDecrement
  | guardPastRunning {w : Worker} (h : w.pc = .guardPastRunning) :
      WorkerMove cfg s w { w with pc := .guardPastExecuting } (.pastRunning (w.running.totalTime s.now))
  | guardPastExecuting {w : Worker} (h : w.pc = .guardPastExecuting) :
      WorkerMove cfg s w { w with pc := .guardLock } (.pastExecuting (w.executing.totalTime s.now))
  | guardLock {w : Worker} (h : w.pc = .guardLock) (hm : s.threadsMutex = none) :
      WorkerMove cfg s w { w with pc := .guardErase } .lock
  | guardErase {w : Worker} (h : w.pc = .guardErase) :
      WorkerMove cfg s w { w with pc := .guardNotify } .erase
  | guardNotify {w : Worker} (h : w.pc = .guardNotify) :
      WorkerMove cfg s w { w with pc := .exited } .notifyDeath

theorem Worker.stepRun_move {cfg : Config} {s : Executor} {w w' : Worker} {handled thrown : Bool}
    {levels : List Level} {e : Event} (hpc : w.pc = .run levels handled)
    (h : w.stepRun cfg s handled levels thrown = some (w', e)) : WorkerMove cfg s w w' e := by
  match levels, thrown, h with
  | [], false, h =>
    simp only [Worker.stepRun] at h
    cases hs : w.sliceEnds cfg s handled
    · simp only [hs, Bool.false_eq_true, ite_false] at h
      split at h
      · simp only [Option.some.injEq, Prod.mk.injEq] at h
        obtain ⟨rfl, rfl⟩ := h
        exact .pop hpc hs ‹_›
      · cases h
    · simp only [hs, ite_true, Option.some.injEq, Prod.mk.injEq] at h
      obtain ⟨rfl, rfl⟩ := h
      exact .stop hpc hs
  | [], true, h =>
    simp only [Worker.stepRun, Option.some.injEq, Prod.mk.injEq] at h
    obtain ⟨rfl, rfl⟩ := h
    exact .throw hpc
  | l :: rest, false, h =>
    obtain ⟨⟨w₁, r, e'⟩, hl, h⟩ := Option.map_eq_some'.mp h
    simp only [Prod.mk.injEq] at h
    obtain ⟨rfl, rfl⟩ := h
    exact .level hpc (Level.step_move hl)

/-- Every step of a worker is one of the actions of `WorkerMove`. -/
theorem Worker.step_move {cfg : Config} {s : Executor} {w w' : Worker} {ch : Choice} {e : Event}
    (h : w.step cfg s ch = some (w', e)) : WorkerMove cfg s w w' e := by
  rcases w with ⟨pc, sp, j, rt, et, cur, d⟩
  cases ch with
  | next =>
    cases pc with
    | spawning st =>
      cases st <;> simp only [Worker.step, Option.some.injEq, Prod.mk.injEq] at h
      all_goals first
        | (obtain ⟨rfl, rfl⟩ := h
           first
             | exact .incPending rfl | exact .incRunning rfl | exact .unlock rfl
             | exact .decPending rfl | exact .decRunning rfl | exact .erase rfl)
        | (split_ifs at h with hm
           · simp only [Option.some.injEq, Prod.mk.injEq] at h
             obtain ⟨rfl, rfl⟩ := h
             exact .relock rfl hm)
        | cases h
    | run levels handled => exact Worker.stepRun_move rfl h
    | caught =>
      simp only [Worker.step] at h
      split_ifs at h with hm
      simp only [Option.some.injEq, Prod.mk.injEq] at h
      obtain ⟨rfl, rfl⟩ := h
      exact .caught rfl hm
    | replacing x =>
      simp only [Worker.step] at h
      split_ifs at h with hx
      simp only [Option.some.injEq, Prod.mk.injEq] at h
      obtain ⟨rfl, rfl⟩ := h
      exact .replacing rfl hx
    | guardLock =>
      simp only [Worker.step] at h
      split_ifs at h with hm
      simp only [Option.some.injEq, Prod.mk.injEq] at h
      obtain ⟨rfl, rfl⟩ := h
      exact .guardLock rfl hm
    | failed | begin | exited => simp [Worker.step] at h
    | loop | slice | stopped | restart | markStopped | pendingDone | retireCheck _ | guardPending
      | guardRunning | guardPastRunning | guardPastExecuting | guardErase | guardNotify =>
      simp only [Worker.step, Option.some.injEq, Prod.mk.injEq] at h
      obtain ⟨rfl, rfl⟩ := h
      first
        | exact .loop rfl | exact .slice rfl | exact .stopped rfl | exact .restart rfl
        | exact .markStopped rfl | exact .pendingDone rfl | exact .retireCheck rfl
        | exact .guardPending rfl | exact .guardRunning rfl | exact .guardPastRunning rfl
        | exact .guardPastExecuting rfl | exact .guardErase rfl | exact .guardNotify rfl
  | launch ok =>
    cases pc with
    | spawning st =>
      cases st <;> simp only [Worker.step, Option.some.injEq, Prod.mk.injEq, reduceCtorEq] at h
      obtain ⟨rfl, rfl⟩ := h
      exact .launch ok rfl
    | _ => simp [Worker.step] at h
  | jitter draw =>
    cases pc with
    | begin =>
      obtain ⟨j, hj, h⟩ := Option.map_eq_some'.mp h
      simp only [Prod.mk.injEq] at h
      obtain ⟨rfl, rfl⟩ := h
      exact .jitter rfl hj
    | _ => simp [Worker.step] at h
  | throw =>
    cases pc with
    | run levels handled => exact Worker.stepRun_move rfl h
    | _ => simp [Worker.step] at h
  | schedule | start | shutdown => simp [Worker.step] at h

end AdaptiveExecutor
