import AdaptiveExecutor.Tasks

/-!
# The Past-Time Accumulators

The exit guard adds a worker's running total to `_pastThreadsSpentRunning`, then
its executing total to `_pastThreadsSpentExecuting`, each in a step of its own,
and erases the entry after. A worker's executing total never exceeds its running
total (`executing_within_running`), and in the guard its executing stopwatch is
closed, so that total no longer moves. The accumulators therefore keep the same
order as the stopwatches: what `_pastThreadsSpentExecuting` has received, plus
what the workers between the two additions still owe it, is at most
`_pastThreadsSpentRunning`.

Adding the entries still on `_threads`, a snapshot of both totals taken at one
instant never shows more time executing than running. `_getThreadTimerTotal`
takes no such snapshot: it reads the accumulator and the entries at different
times (`timerTotal_misses_exited_worker`).

## Main definitions

* `Worker.owedExecuting`, `Executor.owedExecuting`: The executing time the
  workers between the guard's two additions have yet to add.
* `timerTotalRaceActions`: An exit guard runs between the two halves of a call
  of `_getThreadTimerTotal`.

## Theorems

* `WorkerMove.pastOwed`: One step of a worker keeps the accumulators in order.
* `pastExecuting_owed_le`: In every reachable state, `_pastThreadsSpentExecuting`
  with what is owed to it is at most `_pastThreadsSpentRunning`.
* `pastExecuting_add_live_le`: The executing total of a snapshot is at most its
  running total.
* `timerTotal_misses_exited_worker`: A call of `_getThreadTimerTotal` returns
  less than the one before it and less than the time actually run.
-/

namespace AdaptiveExecutor

/-- What worker `w` still owes `_pastThreadsSpentExecuting`: its executing
total, from the guard's addition to `_pastThreadsSpentRunning` until its own. -/
def Worker.owedExecuting (now : Nat) (w : Worker) : Nat :=
  if w.pc = .guardPastExecuting then w.executing.totalTime now else 0

/-- What all the workers still owe `_pastThreadsSpentExecuting`. -/
def Executor.owedExecuting (s : Executor) : Nat :=
  (s.workers.map (Worker.owedExecuting s.now)).sum

@[simp] theorem afterLevel_ne_guardPastExecuting (handled : Bool) (rest : List Level) (r : LevelStep) :
    WorkerPc.afterLevel handled rest r ≠ .guardPastExecuting := by
  cases r with
  | next | push => simp [WorkerPc.afterLevel]
  | finish exn => cases rest <;> cases exn <;> simp [WorkerPc.afterLevel]

/-- A new entry owes nothing, so applying an event leaves the debt as it is. -/
@[simp] theorem owedExecuting_apply (s : Executor) (t : Tid) (e : Event) :
    (s.apply t e).owedExecuting = s.owedExecuting := by
  simp only [Executor.owedExecuting, apply_workers, apply_now]
  split <;> simp [Worker.owedExecuting, Worker.fresh]

/-- The events of tasks leave the accumulators alone. -/
theorem Event.delta_past_of_ofTask {e : Event} (h : e.ofTask) (which : ThreadTimer) :
    e.delta (pastCounter which) = 0 := by
  cases which <;> cases e <;> first | rfl | (simp [Event.ofTask, Event.ofSchedule] at h; done) | (cases ‹Bool› <;> rfl)

variable {cfg : Config} {s : Executor} {w w' : Worker} {e : Event}

/-- A worker's step adds to the accumulators only in the guard: the running
total it adds covers the executing total it then owes, and the executing total
it adds pays that debt. -/
theorem WorkerMove.pastOwed {limit : Int} (hm : WorkerMove cfg s w w' e) (hok : w.Ok limit s.now) :
    e.delta .pastThreadsSpentExecuting + w'.owedExecuting s.now ≤
      e.delta .pastThreadsSpentRunning + w.owedExecuting s.now := by
  cases hm with
  | level hpc hl =>
    have hr := Event.delta_past_of_ofTask hl.ofTask .running
    have hx := Event.delta_past_of_ofTask hl.ofTask .executing
    simp only [pastCounter] at hr hx
    simp [Worker.owedExecuting, hpc, hr, hx]
  | guardPastRunning hpc =>
    simpa [Worker.owedExecuting, hpc, Event.delta] using hok.executing_le_running
  | guardPastExecuting hpc => simp [Worker.owedExecuting, hpc, Event.delta]
  | guardPending hpc => split <;> simp [Worker.owedExecuting, hpc, Event.delta]
  | launch _ hpc | loop hpc | stopped hpc | retireCheck hpc | markStopped hpc =>
    split <;> simp [Worker.owedExecuting, hpc, Event.delta]
  | _ => simp_all [Worker.owedExecuting, Event.delta]

/-- An entry between the guard's two additions has no wrapper left, so its
executing stopwatch is closed and its total stays put while time passes. -/
theorem Worker.owedExecuting_tick {limit : Int} {now : Nat} (hok : w.Ok limit now) (now' : Nat) :
    w.owedExecuting now' = w.owedExecuting now := by
  unfold Worker.owedExecuting
  split
  · rename_i hpc
    have hE := (RunOk.nil_iff.mp (by simpa [hpc, WorkerPc.levels] using hok.run)).2
    simp [CumulativeTickTimer.totalTime, CumulativeTickTimer.openTime, hE]
  · rfl

/-- In every reachable state, `_pastThreadsSpentExecuting` together with the
executing time the guards still owe it is at most `_pastThreadsSpentRunning`. -/
theorem pastExecuting_owed_le (hs : Reachable cfg s) :
    s.counters .pastThreadsSpentExecuting + s.owedExecuting ≤ s.counters .pastThreadsSpentRunning := by
  refine Reachable.invariant
    (fun s => s.counters .pastThreadsSpentExecuting + s.owedExecuting ≤ s.counters .pastThreadsSpentRunning)
    (fun n => by simp [Executor.init, Executor.owedExecuting]) ?_ hs
  intro s s' a e hs ih hm
  have hinv := Inv.reachable hs
  cases hm with
  | tick d =>
    have : ({ s with now := s.now + d } : Executor).owedExecuting = s.owedExecuting := by
      simp only [Executor.owedExecuting]
      congr 1
      exact List.map_congr_left fun w hw => Worker.owedExecuting_tick (hinv.workers w hw) _
    simpa [this] using ih
  | main hm =>
    have := Event.delta_of_ofControl (MainPc.step_event hm).1
    simpa [this] using ih
  | controller hx =>
    have := Event.delta_of_ofControl (Controller.step_event hx).1
    simpa [this] using ih
  | @worker _ _ _ w' _ hw hm =>
    have hsum := sum_map_set (Worker.owedExecuting s.now) w' hw
    have hw' := hm.pastOwed (hinv.workers _ (List.getElem?_mem hw))
    simp only [owedExecuting_apply, apply_counters] at ih ⊢
    simp only [Executor.owedExecuting] at ih ⊢
    omega
  | client _ hp =>
    have ht : e.ofTask := by simp [Event.ofTask, ClientPc.step_ofSchedule hp]
    have hr := Event.delta_past_of_ofTask ht .running
    have hx := Event.delta_past_of_ofTask ht .executing
    simp only [pastCounter] at hr hx
    simpa [hr, hx] using ih

/-- The sum of one stopwatch over a list of entries, as `liveTotal` takes it. -/
theorem foldr_executing_le_running {now : Nat} :
    ∀ l : List Worker, (∀ w ∈ l, w.executing.totalTime now ≤ w.running.totalTime now) →
      l.foldr (fun w acc => w.executing.totalTime now + acc) 0 ≤
        l.foldr (fun w acc => w.running.totalTime now + acc) 0
  | [], _ => le_rfl
  | w :: l, h => by
    simp only [List.foldr_cons]
    have := foldr_executing_le_running l fun x hx => h x (by simp [hx])
    have := h w (by simp)
    omega

/-- A snapshot of `_getThreadTimerTotal`'s two sums taken at one instant, the
accumulator plus the entries on `_threads`, never has more time executing than
running. -/
theorem pastExecuting_add_live_le (hs : Reachable cfg s) :
    s.counters .pastThreadsSpentExecuting + s.liveTotal .executing ≤
      s.counters .pastThreadsSpentRunning + s.liveTotal .running := by
  have hpast := pastExecuting_owed_le hs
  have hlive : s.liveTotal .executing ≤ s.liveTotal .running := by
    simp only [Executor.liveTotal, Worker.timer]
    exact Int.ofNat_le.mpr (foldr_executing_le_running _ fun w hw =>
      ((Inv.reachable hs).workers w (List.mem_of_mem_filter hw)).executing_le_running)
  omega

theorem pastExecuting_add_live_le_demo :
    Reachable defaultConfig demoState ∧
      demoState.counters .pastThreadsSpentExecuting + demoState.liveTotal .executing ≤
        demoState.counters .pastThreadsSpentRunning + demoState.liveTotal .running :=
  ⟨demoState_reachable, pastExecuting_add_live_le demoState_reachable⟩

section TimerTotal

/-- Worker 0 runs a slice for 10 ticks and the controller's first totals record
them; in its next round the controller loads `_pastThreadsSpentRunning`, still
zero, for `ThreadTimer::Running`. `shutdown` then stores `_isRunning` false,
worker 0's slice ends and its exit guard adds its 5010 ticks to the accumulator
and erases its entry, and only then does the controller take the mutex to sum the
entries. -/
def timerTotalRaceActions : List Action :=
  let m := Action.thread .main .next
  let w := Action.thread (.worker 0) .next
  let c := Action.thread .controller .next
  [.thread .main .start, m, m, w, w, w, .thread (.worker 0) (.launch true), m, m,
   .thread (.worker 0) (.jitter 0), w, w, .tick 10] ++ List.replicate 14 c ++
  [.thread .main (.shutdown 0), m, .tick 5000] ++ List.replicate 11 w ++ [c]

theorem timerTotalRaceActions_exec :
    ((Executor.exec defaultConfig (Executor.init 0) timerTotalRaceActions).map fun r =>
      (r.1.controller.pc, r.1.liveTotal .running, r.1.controller.lastSpentRunning,
        r.1.counters .pastThreadsSpentRunning)) =
      some (.spentRunning 0 (.sum 0), 0, 10, 5010) := by
  decide

/-- A call of `_getThreadTimerTotal(ThreadTimer::Running)` about to sum the
entries, from the accumulator `acc` it loaded, returns `acc` plus the entries'
totals (`TimerTotalPc.step`). Here that is less than what the previous call
returned, so `diffRunning` is negative, and less than the time actually run:
the accumulator as it now stands plus the entries. -/
theorem timerTotal_misses_exited_worker :
    ∃ s, Reachable defaultConfig s ∧ ∃ x acc, s.controller.pc = .spentRunning x (.sum acc) ∧
      acc + s.liveTotal .running < s.controller.lastSpentRunning ∧
      acc + s.liveTotal .running < s.counters .pastThreadsSpentRunning + s.liveTotal .running := by
  obtain ⟨⟨s, es⟩, hx, h⟩ := Option.map_eq_some'.mp timerTotalRaceActions_exec
  simp only [Prod.mk.injEq] at h
  obtain ⟨hc, hl, hlast, hpast⟩ := h
  refine ⟨s, ⟨0, es, exec_run _ _ _ _ _ hx⟩, 0, 0, hc, ?_, ?_⟩ <;> omega

end TimerTotal

end AdaptiveExecutor
