import AdaptiveExecutor.Options

/-!
# Executor State

The whole of `ServiceExecutorAdaptive` at one instant: the shared fields every
thread reads and writes, and where each thread stands in its code.

Every thread is a program counter plus the locals the code keeps across
suspension points. A counter constructor names the next atomic action the
thread performs: an atomic load or add, a store, taking or releasing
`_threadsMutex`, posting to or taking from the reactor's queue, or a read of the
tick source together with the local work around it. Work that touches nothing
another thread can see is folded into the neighbouring action; nothing another
thread can see is ever folded together.

The `_threads` list is not kept apart from the workers. A worker's entry is
created by `_startWorkerThread`, so a `Worker` exists from that `emplace` on, and
it is on the list until its exit guard (or the failed launch's rollback) erases
it: `WorkerPc.listed` reads that off the program counter. The steps of
`_startWorkerThread` after the `emplace` belong to the new entry
(`WorkerPc.spawning`); the thread that called it waits for them (the
`...Spawning` counters of its own code), which gives exactly the interleavings
of the source, where the caller runs them itself.

A wrapped task runs on a worker's stack. `WorkerPc.run` holds the wrappers in
progress, innermost first: each is a `Level`, and a level whose task is inside
`schedule` holds that call. A dispatched task runs above the call that
dispatched it.

## Main definitions

* `StarvedPc`, `TimerTotalPc`, `SchedulePc`, `WrapperPc`, `SpawnStage`: Where a
  call of `_isStarved`, `_getThreadTimerTotal`, `schedule`, a wrapped task and
  `_startWorkerThread` stands.
* `Worker`: A `_threads` entry and the thread it belongs to.
* `Controller`: The controller thread.
* `MainPc`: The thread that calls `start` and `shutdown`.
* `ClientPc`: Any other thread that calls `schedule`.
* `Executor`: The whole executor.
* `Event`: What a step did, and `Executor.apply`, its effect.
-/

namespace AdaptiveExecutor

/-- Where a call of `_isStarved` stands: it loads four counters, one at a time. -/
inductive StarvedPc
  | loadPending
  | loadTasks
  | loadRunning (tasksQueued : Int)
  | loadInUse (tasksQueued threadsRunning : Int)
  deriving DecidableEq, Repr

/-- Where a call of `_getThreadTimerTotal` stands: the accumulator is loaded
without the mutex, and the entries are summed under it. -/
inductive TimerTotalPc
  | loadPast
  | lock (acc : Int)
  | sum (acc : Int)
  deriving DecidableEq, Repr

/-- Where a call of `schedule` stands once it has counted the task. -/
inductive SchedulePc
  | checkRunning (scheduleTime : Nat)
  | submit (scheduleTime : Nat)
  | dispatched
  | resetTimer
  | totalQueued
  | starved (st : StarvedPc)
  | notify
  deriving DecidableEq, Repr

/-- A call of `schedule(task, flags)` in progress. -/
structure Call where
  flags : ScheduleFlags
  task : Task
  pc : SchedulePc
  deriving DecidableEq, Repr

/-- Where a `wrappedTask` stands. The guard's three actions carry whether the
wrapper is returning or unwinding. -/
inductive WrapperPc
  | decrement
  | spentQueued
  | enter
  | markInUse
  | body (task : Task)
  | call (c : Call) (catches : Bool) (next : Task)
  | leave (exn : Bool)
  | unmarkInUse (exn : Bool)
  | executed (exn : Bool)
  deriving DecidableEq, Repr

/-- A `wrappedTask` on a worker's stack. -/
structure Level where
  wrapped : Wrapped
  pc : WrapperPc
  deriving DecidableEq, Repr

/-- The steps of `_startWorkerThread` after the `emplace`. -/
inductive SpawnStage
  | incPending
  | incRunning
  | unlock
  | launch
  | relock
  | decPending
  | decRunning
  | erase
  deriving DecidableEq, Repr

/-- Where a worker stands: in `_startWorkerThread`, then in
`_workerThreadRoutine`, its loop and its exit guard. -/
inductive WorkerPc
  | spawning (st : SpawnStage)
  | failed
  | begin
  | loop
  | slice
  | run (levels : List Level) (handled : Bool)
  | stopped
  | restart
  | caught
  | replacing (w : Nat)
  | markStopped
  | pendingDone
  | retireCheck (spentRunning : Nat)
  | guardPending
  | guardRunning
  | guardPastRunning
  | guardPastExecuting
  | guardLock
  | guardErase
  | guardNotify
  | exited
  deriving DecidableEq, Repr

/-- The entry is on `_threads`: from the `emplace` until an `erase`. -/
def WorkerPc.listed : WorkerPc → Bool
  | .failed | .guardNotify | .exited => false
  | _ => true

/-- `_startWorkerThread` has finished with this entry: it launched or it failed. -/
def WorkerPc.spawned : WorkerPc → Bool
  | .spawning _ => false
  | _ => true

/-- A `_threads` entry (`ThreadState`) and the locals of the thread it belongs to:
`stillPending`, which starts out true, and the jitter drawn when it started. -/
structure Worker where
  pc : WorkerPc
  stillPending : Bool
  jitter : Int
  running : CumulativeTickTimer
  executing : CumulativeTickTimer
  executingCurRun : Nat
  recursionDepth : Int
  deriving DecidableEq, Repr

/-- The entry `_threads.emplace` creates. -/
def Worker.fresh : Worker :=
  ⟨.spawning .incPending, true, 0, .zero, .zero, 0, 0⟩

/-- The stopwatch `_getThreadTimerTotal(which)` reads. -/
def Worker.timer (w : Worker) : ThreadTimer → CumulativeTickTimer
  | .running => w.running
  | .executing => w.executing

/-- Where the controller thread stands in `_controllerThreadRoutine`. -/
inductive ControllerPc
  | idle
  | begin
  | initExecuting (tt : TimerTotalPc)
  | initRunning (tt : TimerTotalPc)
  | loop
  | wait
  | checkRunning
  | spentExecuting (tt : TimerTotalPc)
  | spentRunning (spentExecuting : Int) (tt : TimerTotalPc)
  | timedOut
  | stuckSchedule
  | stuckInUse (sinceLastSchedule : Int)
  | stuckRunning (sinceLastSchedule threadsInUse : Int)
  | stuckSpawn (i : Nat)
  | stuckSpawning (i w : Nat)
  | refillLoad
  | refillCheck
  | refillSpawn
  | refillSpawning (w : Nat)
  | saturation
  | sleep (wake : Nat)
  | sleepCheck
  | starved (st : StarvedPc)
  | starvedSpawn
  | starvedSpawning (w : Nat)
  | roundEnd
  | done
  deriving DecidableEq, Repr

/-- The controller thread and its locals: the last samples of the two timer
totals, the start tick of `sinceLastControlRound`, and `utilizationPct`. -/
structure Controller where
  pc : ControllerPc
  lastSpentExecuting : Int
  lastSpentRunning : Int
  sinceLastControlRound : Nat
  utilizationPct : ℚ

/-- Where the thread that owns the executor stands in `start` and `shutdown`.
A shutdown carries its timeout, in milliseconds, until `wait_for` turns it into a
deadline in ticks. -/
inductive MainPc
  | idle
  | startController
  | startSpawn (i : Nat)
  | startSpawning (i w : Nat)
  | started
  | shutdownStore (timeout : Int)
  | shutdownNotify (timeout : Int)
  | shutdownJoin (timeout : Int)
  | shutdownLock (timeout : Int)
  | shutdownStop (timeout : Int)
  | shutdownCheck (deadline : Int)
  | shutdownWait (deadline : Int)
  | shutdownRelock (deadline : Int)
  | returned (ok : Bool)
  deriving DecidableEq, Repr

/-- Where a thread outside the executor stands: idle, inside `schedule`, or
stopped by the null `_localThreadState` a `kMayRecurse` call dereferences. -/
inductive ClientPc
  | idle
  | scheduling (c : Call)
  | crashed
  deriving DecidableEq, Repr

/-- The threads: the owner, the controller, the workers by entry, and the other
callers of `schedule`. -/
inductive Tid
  | main
  | controller
  | worker (i : Nat)
  | client (i : Nat)
  deriving DecidableEq, Repr

/-- The executor: the tick source, `_isRunning`, the counters,
`_lastScheduleTimer`'s start tick, `_threadsMutex`, the reactor's queue and
stopped flag, and every thread. -/
structure Executor where
  now : Nat
  isRunning : Bool
  counters : Counter → Int
  lastScheduleTimer : Nat
  threadsMutex : Option Tid
  queue : List Wrapped
  ioStopped : Bool
  workers : List Worker
  controller : Controller
  main : MainPc
  clients : List ClientPc

/-- A freshly constructed executor, with `n` outside threads. -/
def Executor.init (n : Nat) : Executor where
  now := 0
  isRunning := false
  counters := fun _ => 0
  lastScheduleTimer := 0
  threadsMutex := none
  queue := []
  ioStopped := false
  workers := []
  controller := ⟨.idle, 0, 0, 0, 0⟩
  main := .idle
  clients := List.replicate n .idle

/-- `_threads.empty()`. -/
def Executor.threadsEmpty (s : Executor) : Bool :=
  s.workers.all fun w => !w.pc.listed

/-- `_startWorkerThread` has returned for entry `w`. -/
def Executor.spawnDone (s : Executor) (w : Nat) : Bool :=
  match s.workers[w]? with
  | some x => x.pc.spawned
  | none => false

/-- The sum of `which` over the entries on `_threads`, at the current tick. -/
def Executor.liveTotal (s : Executor) (which : ThreadTimer) : Int :=
  ((s.workers.filter fun w => w.pc.listed).foldr (fun w acc => (w.timer which).totalTime s.now + acc) 0 : Nat)

/-- The accumulator `_getThreadTimerTotal(which)` starts from. -/
def pastCounter : ThreadTimer → Counter
  | .running => .pastThreadsSpentRunning
  | .executing => .pastThreadsSpentExecuting

/-- What one step did to the shared state. Loads, reads of the tick source and
purely thread-local work are `silent`; the rest name the source's action. -/
inductive Event
  | silent
  | tick (d : Nat)
  | storeRunning (b : Bool)
  | startController
  | notifySchedule
  | notifyDeath
  | lock
  | unlock
  | emplace
  | erase
  | ioStop
  | ioRestart
  | post (w : Wrapped)
  | pop
  | dispatch (deferred : Bool)
  | resetScheduleTimer
  | scheduleIncrement (deferred : Bool)
  | wrapperDecrement (deferred : Bool)
  | spentQueued (d : Int)
  | executingStart
  | executingStop (d : Nat)
  | inUseIncrement
  | inUseDecrement
  | executedIncrement
  | totalQueuedIncrement
  | pendingIncrement
  | pendingDecrement
  | runningIncrement
  | runningDecrement
  | pastRunning (d : Nat)
  | pastExecuting (d : Nat)
  deriving DecidableEq, Repr

/-- How much an event adds to a counter. -/
def Event.delta : Event → Counter → Int
  | .scheduleIncrement k, c => if c = pendingCounter k then 1 else 0
  | .wrapperDecrement k, c => if c = pendingCounter k then -1 else 0
  | .spentQueued d, .totalSpentQueued => d
  | .inUseIncrement, .threadsInUse => 1
  | .inUseDecrement, .threadsInUse => -1
  | .executedIncrement, .totalExecuted => 1
  | .totalQueuedIncrement, .totalQueued => 1
  | .pendingIncrement, .threadsPending => 1
  | .pendingDecrement, .threadsPending => -1
  | .runningIncrement, .threadsRunning => 1
  | .runningDecrement, .threadsRunning => -1
  | .pastRunning d, .pastThreadsSpentRunning => d
  | .pastExecuting d, .pastThreadsSpentExecuting => d
  | _, _ => 0

/-- What an event does to the shared fields other than the counters, done by
thread `t`. An `emplace` appends the new entry, whose spawn then holds the mutex. -/
def Event.update (t : Tid) (s : Executor) : Event → Executor
  | .storeRunning b => { s with isRunning := b }
  | .startController => { s with controller := { s.controller with pc := .begin } }
  | .lock => { s with threadsMutex := some t }
  | .unlock | .erase => { s with threadsMutex := none }
  | .emplace =>
    { s with threadsMutex := some (.worker s.workers.length), workers := s.workers ++ [Worker.fresh] }
  | .ioStop => { s with ioStopped := true }
  | .ioRestart => { s with ioStopped := false }
  | .post w => { s with queue := s.queue ++ [w] }
  | .pop => { s with queue := s.queue.tail }
  | .resetScheduleTimer => { s with lastScheduleTimer := s.now }
  | _ => s

/-- The events of the threads that run no task: they change no counter and not
the reactor's queue. -/
def Event.ofControl : Event → Bool
  | .silent | .storeRunning _ | .startController | .notifySchedule | .notifyDeath | .lock | .unlock
  | .emplace | .erase | .ioStop | .ioRestart => true
  | _ => false

/-- The events of the threads that run no task change no counter. -/
theorem Event.delta_of_ofControl {e : Event} (h : e.ofControl) (c : Counter) : e.delta c = 0 := by
  cases e <;> first | rfl | cases h

/-- The effect of an event done by thread `t`. -/
def Executor.apply (s : Executor) (t : Tid) (e : Event) : Executor :=
  { e.update t s with counters := fun c => s.counters c + e.delta c }

@[simp] theorem apply_counters (s : Executor) (t : Tid) (e : Event) (c : Counter) :
    (s.apply t e).counters c = s.counters c + e.delta c := rfl

@[simp] theorem apply_now (s : Executor) (t : Tid) (e : Event) : (s.apply t e).now = s.now := by
  cases e <;> rfl

@[simp] theorem apply_main (s : Executor) (t : Tid) (e : Event) : (s.apply t e).main = s.main := by
  cases e <;> rfl

@[simp] theorem apply_clients (s : Executor) (t : Tid) (e : Event) :
    (s.apply t e).clients = s.clients := by
  cases e <;> rfl

/-- Only an `emplace` changes the list of entries, by appending the new one. -/
@[simp] theorem apply_workers (s : Executor) (t : Tid) (e : Event) :
    (s.apply t e).workers = if e = .emplace then s.workers ++ [Worker.fresh] else s.workers := by
  cases e <;> rfl

@[simp] theorem apply_controller_pc (s : Executor) (t : Tid) (e : Event) :
    (s.apply t e).controller.pc = if e = .startController then .begin else s.controller.pc := by
  cases e <;> rfl

end AdaptiveExecutor
