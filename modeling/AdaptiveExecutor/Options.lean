import Mathlib.Data.Rat.Defs

/-!
# Options, Timers and Tasks

The vocabulary shared by every part of the adaptive service executor: the
tunables it reads through `ServiceExecutorAdaptive::Options`, the flags a
caller passes to `schedule`, the atomic counters, the per-thread stopwatches
and the shape of a task.

The executor never looks inside a task except through the calls the task makes
back into it, so a `Task` here is exactly that: a program of `schedule` calls,
each with the task it submits, ending by returning or by throwing. A task that
catches the exception of an inline child and carries on is a `schedule` node
with `catches` set. Quantifying over every `Task` is quantifying over every
nesting of submissions a task can make.

Time is measured by one tick source. Durations in the options are in
milliseconds (`maxQueueLatency` in microseconds) and are turned into ticks with
the tick source's resolution, which `Config` carries together with the proof
that it is at least one tick per millisecond, as `TickTimer`'s constructor
requires.

## Main definitions

* `Options`: The tunables, as `ServerParameterOptions` returns them.
* `ServerParameterOptions`: The options read from the server parameters.
* `Config`: The options and the tick source's resolution.
* `ScheduleFlags`: `kMayRecurse` and `kDeferredTask`.
* `Counter`: The executor's atomic counters.
* `pendingCounter`: The counter `schedule` picks for `pendingCounterPtr`.
* `CumulativeTickTimer`: A stopwatch that accumulates closed intervals.
* `ThreadTimer`: Which of a worker's two stopwatches is meant.
* `Task`: What a submitted task does with the executor.
* `Wrapped`: The closure `schedule` builds around a task.

## Theorems

* `CumulativeTickTimer.totalTime_markRunning`: Starting adds nothing yet.
* `CumulativeTickTimer.markStopped_totalTime`: Stopping commits the open
  interval.
* `CumulativeTickTimer.totalTime_mono`: A total never shrinks as time passes.
-/

namespace AdaptiveExecutor

/-- The tunables of `ServiceExecutorAdaptive::Options`. Durations are in the
source's units: milliseconds, and microseconds for `maxQueueLatency`. -/
structure Options where
  reservedThreads : Int
  workerThreadRunTime : Int
  runTimeJitter : Int
  stuckThreadTimeout : Int
  maxQueueLatency : Int
  idlePctThreshold : Int
  recursionLimit : Int
  deriving DecidableEq, Repr

/-- The server parameters `ServerParameterOptions` reads, with the defaults
their `MONGO_EXPORT_SERVER_PARAMETER` declarations give them. -/
structure ServerParameters where
  adaptiveServiceExecutorReservedThreads : Int := 1
  adaptiveServiceExecutorRunTimeMillis : Int := 5000
  adaptiveServiceExecutorRunTimeJitterMillis : Int := 500
  adaptiveServiceExecutorStuckThreadTimeoutMillis : Int := 250
  adaptiveServiceExecutorMaxQueueLatencyMicros : Int := 500
  adaptiveServiceExecutorIdlePctThreshold : Int := 60
  adaptiveServiceExecutorRecursionLimit : Int := 8
  deriving DecidableEq, Repr

/-- `ServerParameterOptions`: every option is the parameter of the same name,
except that a reserve of `-1` stands for half the available cores, and at least
two. The source stores that value back into the parameter, so it is computed
once; `cores` is what `ProcessInfo` reports. -/
def ServerParameterOptions (p : ServerParameters) (cores : Nat) : Options where
  reservedThreads :=
    if p.adaptiveServiceExecutorReservedThreads = -1 then max ((cores / 2 : Nat) : Int) 2
    else p.adaptiveServiceExecutorReservedThreads
  workerThreadRunTime := p.adaptiveServiceExecutorRunTimeMillis
  runTimeJitter := p.adaptiveServiceExecutorRunTimeJitterMillis
  stuckThreadTimeout := p.adaptiveServiceExecutorStuckThreadTimeoutMillis
  maxQueueLatency := p.adaptiveServiceExecutorMaxQueueLatencyMicros
  idlePctThreshold := p.adaptiveServiceExecutorIdlePctThreshold
  recursionLimit := p.adaptiveServiceExecutorRecursionLimit

/-- The options the executor runs with, and the resolution of its tick source.
`TickTimer` divides by the number of ticks per millisecond, and its constructor
insists that this is positive. -/
structure Config where
  options : Options
  ticksPerMilli : Nat
  ticksPerMilli_pos : 0 < ticksPerMilli

/-- A duration in milliseconds, in ticks. -/
def Config.ofMillis (cfg : Config) (ms : Int) : Int := ms * cfg.ticksPerMilli

/-- A duration in microseconds, in ticks. -/
def Config.ofMicros (cfg : Config) (us : Int) : Int := us * cfg.ticksPerMilli / 1000

/-- `TickTimer::sinceStart`: whole milliseconds since the timer's start tick. -/
def Config.sinceStart (cfg : Config) (start now : Nat) : Int :=
  ((now - start : Nat) : Int) / cfg.ticksPerMilli

/-- The flags a caller passes to `schedule`. -/
structure ScheduleFlags where
  mayRecurse : Bool
  deferredTask : Bool
  deriving DecidableEq, Repr

/-- The executor's atomic counters. Each is an `AtomicWord`, read with `load`
and changed only by `addAndFetch` and `subtractAndFetch`. -/
inductive Counter
  | threadsRunning
  | threadsPending
  | threadsInUse
  | tasksQueued
  | deferredTasksQueued
  | totalQueued
  | totalExecuted
  | totalSpentQueued
  | pastThreadsSpentRunning
  | pastThreadsSpentExecuting
  deriving DecidableEq, Repr

/-- The counter `schedule` points `pendingCounterPtr` at: deferred tasks are
counted apart. -/
def pendingCounter (deferred : Bool) : Counter :=
  if deferred then .deferredTasksQueued else .tasksQueued

/-- The counters of threads are never a task counter. -/
@[simp] theorem threadsPending_ne_pendingCounter (deferred : Bool) :
    Counter.threadsPending ≠ pendingCounter deferred := by
  cases deferred <;> decide

@[simp] theorem threadsRunning_ne_pendingCounter (deferred : Bool) :
    Counter.threadsRunning ≠ pendingCounter deferred := by
  cases deferred <;> decide

@[simp] theorem threadsInUse_ne_pendingCounter (deferred : Bool) :
    Counter.threadsInUse ≠ pendingCounter deferred := by
  cases deferred <;> decide

/-- Modelled from the spec: the per-thread stopwatch (the spec's
`ThreadTimer`, declared in `service_executor_adaptive.h`, which is not under
src/). It keeps the ticks of its closed intervals and the start tick of the
open one, if any. -/
structure CumulativeTickTimer where
  total : Nat
  start : Option Nat
  deriving DecidableEq, Repr

namespace CumulativeTickTimer

/-- A stopwatch that has never run. -/
def zero : CumulativeTickTimer := ⟨0, none⟩

/-- `markRunning`: open an interval at `now`. -/
def markRunning (t : CumulativeTickTimer) (now : Nat) : CumulativeTickTimer :=
  { t with start := some now }

/-- The length of the open interval at `now`, zero if none is open. -/
def openTime (t : CumulativeTickTimer) (now : Nat) : Nat :=
  match t.start with
  | some s => now - s
  | none => 0

/-- `markStopped`: close the open interval at `now`, returning its length. -/
def markStopped (t : CumulativeTickTimer) (now : Nat) : CumulativeTickTimer × Nat :=
  (⟨t.total + t.openTime now, none⟩, t.openTime now)

/-- `totalTime`: the closed intervals, plus the open one up to `now`. -/
def totalTime (t : CumulativeTickTimer) (now : Nat) : Nat :=
  t.total + t.openTime now

@[simp] theorem openTime_none (total now : Nat) : openTime ⟨total, none⟩ now = 0 := rfl

@[simp] theorem openTime_some (total s now : Nat) : openTime ⟨total, some s⟩ now = now - s := rfl

@[simp] theorem zero_totalTime (now : Nat) : zero.totalTime now = 0 := rfl

theorem totalTime_markRunning (t : CumulativeTickTimer) (now : Nat) :
    (t.markRunning now).totalTime now = t.total := by
  simp [markRunning, totalTime]

theorem markStopped_totalTime (t : CumulativeTickTimer) (now : Nat) :
    (t.markStopped now).1.totalTime now = t.totalTime now := by
  simp [markStopped, totalTime]

/-- A total read later is never smaller: the tick source does not go back. -/
theorem totalTime_mono (t : CumulativeTickTimer) {now now' : Nat} (h : now ≤ now') :
    t.totalTime now ≤ t.totalTime now' := by
  rcases t with ⟨total, _ | s⟩
  · simp [totalTime]
  · simp only [totalTime, openTime_some]; omega

end CumulativeTickTimer

/-- `ServiceExecutorAdaptive::ThreadTimer`: which of a worker's stopwatches
`_getThreadTimerTotal` sums. -/
inductive ThreadTimer
  | running
  | executing
  deriving DecidableEq, Repr

/-- What a task does with the executor: return, throw, or call
`schedule(task, flags)` and then carry on with `next`. If the scheduled task
runs inline and throws, the exception leaves `schedule`; `catches` says whether
this task catches it (and carries on with `next`) or lets it propagate. -/
inductive Task
  | done
  | raise
  | schedule (flags : ScheduleFlags) (task : Task) (catches : Bool) (next : Task)
  deriving DecidableEq, Repr

/-- The `wrappedTask` closure: the task, `scheduleTime`, and which counter
`pendingCounterPtr` points at. -/
structure Wrapped where
  task : Task
  scheduleTime : Nat
  deferred : Bool
  deriving DecidableEq, Repr

end AdaptiveExecutor
