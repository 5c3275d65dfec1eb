import AdaptiveExecutor.Worker

/-!
# The Controller Thread

`_controllerThreadRoutine`. Each round waits on `_scheduleCondition` (a wait
that may end at any time: on a notify, on the timeout, or spuriously), samples
the two timer totals, and then takes one of three ways:

* if the round has lasted `stuckThreadTimeout`, it checks whether every running
  thread is in use and nothing was scheduled for as long, and if so starts
  `reservedThreads` more workers;
* otherwise it starts workers while fewer than `reservedThreads` run, and then,
  if the pool is busy enough, waits for pending threads and starts one more
  worker when `_isStarved`.

`utilizationPct` is a `double` in the source; here it is the exact rational it
approximates.

## Main definitions

* `Controller.sample`: The utilization bookkeeping after both totals are read.
* `Controller.step`: One step of the controller.
-/

namespace AdaptiveExecutor

/-- The utilization bookkeeping, given the two totals just read: nothing is
updated while no thread has run or no running time has passed. The source
computes `utilizationPct` in `double`; the model keeps the exact quotient. -/
def Controller.sample (ctl : Controller) (spentExecuting spentRunning : Int) : Controller :=
  let diffExecuting := spentExecuting - ctl.lastSpentExecuting
  let diffRunning := spentRunning - ctl.lastSpentRunning
  if spentRunning = 0 ∨ diffRunning = 0 then { ctl with utilizationPct := 0 }
  else
    { ctl with
      lastSpentExecuting := spentExecuting
      lastSpentRunning := spentRunning
      utilizationPct := (diffExecuting : ℚ) / diffRunning * 100 }

/-- One step of the controller thread. A call of `_startWorkerThread` takes the
mutex and emplaces a new entry in one step (the list cannot be observed in
between), and then waits for the new entry's spawn to finish. -/
def Controller.step (cfg : Config) (s : Executor) (ctl : Controller) :
    Choice → Option (Controller × Event)
  | .next =>
    let o := cfg.options
    let free := decide (s.threadsMutex = none)
    match ctl.pc with
    | .begin => some ({ ctl with pc := .initExecuting .loadPast, sinceLastControlRound := s.now }, .silent)
    | .initExecuting tt =>
      (tt.step s .executing).map fun (r, e) =>
        match r with
        | .inl tt' => ({ ctl with pc := .initExecuting tt' }, e)
        | .inr v => ({ ctl with pc := .initRunning .loadPast, lastSpentExecuting := v }, e)
    | .initRunning tt =>
      (tt.step s .running).map fun (r, e) =>
        match r with
        | .inl tt' => ({ ctl with pc := .initRunning tt' }, e)
        | .inr v => ({ ctl with pc := .loop, lastSpentRunning := v }, e)
    | .loop => some ({ ctl with pc := if s.isRunning then .wait else .done }, .silent)
    | .wait => some ({ ctl with pc := .checkRunning }, .silent)
    | .checkRunning =>
      some (if s.isRunning then { ctl with pc := .spentExecuting .loadPast }
        else { ctl with pc := .done, sinceLastControlRound := s.now }, .silent)
    | .spentExecuting tt =>
      (tt.step s .executing).map fun (r, e) =>
        match r with
        | .inl tt' => ({ ctl with pc := .spentExecuting tt' }, e)
        | .inr v => ({ ctl with pc := .spentRunning v .loadPast }, e)
    | .spentRunning x tt =>
      (tt.step s .running).map fun (r, e) =>
        match r with
        | .inl tt' => ({ ctl with pc := .spentRunning x tt' }, e)
        | .inr v => ({ ctl.sample x v with pc := .timedOut }, e)
    | .timedOut =>
      some ({ ctl with
        pc := if cfg.sinceStart ctl.sinceLastControlRound s.now ≥ o.stuckThreadTimeout then .stuckSchedule
          else .refillLoad }, .silent)
    | .stuckSchedule =>
      some ({ ctl with pc := .stuckInUse (cfg.sinceStart s.lastScheduleTimer s.now) }, .silent)
    | .stuckInUse since => some ({ ctl with pc := .stuckRunning since (s.counters .threadsInUse) }, .silent)
    | .stuckRunning since inUse =>
      some ({ ctl with
        pc := if inUse = s.counters .threadsRunning ∧ since ≥ o.stuckThreadTimeout then .stuckSpawn 0
          else .roundEnd }, .silent)
    | .stuckSpawn i =>
      if (i : Int) < o.reservedThreads then
        if free then some ({ ctl with pc := .stuckSpawning i s.workers.length }, .emplace) else none
      else some ({ ctl with pc := .roundEnd }, .silent)
    | .stuckSpawning i x =>
      if s.spawnDone x then some ({ ctl with pc := .stuckSpawn (i + 1) }, .silent) else none
    | .refillLoad =>
      some ({ ctl with
        pc := if s.counters .threadsRunning < o.reservedThreads then .refillCheck else .saturation },
        .silent)
    | .refillCheck =>
      some ({ ctl with
        pc := if s.counters .threadsRunning < o.reservedThreads then .refillSpawn else .saturation },
        .silent)
    | .refillSpawn =>
      if free then some ({ ctl with pc := .refillSpawning s.workers.length }, .emplace) else none
    | .refillSpawning x => if s.spawnDone x then some ({ ctl with pc := .refillCheck }, .silent) else none
    | .saturation =>
      some ({ ctl with
        pc := if ctl.utilizationPct < o.idlePctThreshold then .roundEnd
          else .sleep (s.now + (cfg.ofMicros o.maxQueueLatency).toNat) }, .silent)
    | .sleep wake => if wake ≤ s.now then some ({ ctl with pc := .sleepCheck }, .silent) else none
    | .sleepCheck =>
      some ({ ctl with
        pc := if s.counters .threadsPending > 0 ∧
            cfg.sinceStart ctl.sinceLastControlRound s.now < o.stuckThreadTimeout then
          .sleep (s.now + (cfg.ofMicros o.maxQueueLatency).toNat)
        else .starved .loadPending }, .silent)
    | .starved st =>
      some (match st.step s with
        | .inl st' => { ctl with pc := .starved st' }
        | .inr b => { ctl with pc := if b then .starvedSpawn else .roundEnd }, .silent)
    | .starvedSpawn =>
      if free then some ({ ctl with pc := .starvedSpawning s.workers.length }, .emplace) else none
    | .starvedSpawning x => if s.spawnDone x then some ({ ctl with pc := .roundEnd }, .silent) else none
    | .roundEnd => some ({ ctl with pc := .loop, sinceLastControlRound := s.now }, .silent)
    | .idle | .done => none
  | _ => none

end AdaptiveExecutor
