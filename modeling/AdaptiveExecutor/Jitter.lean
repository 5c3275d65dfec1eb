import AdaptiveExecutor.Invariant

/-!
# The Slice Length

A worker draws its jitter once, when its thread starts, and runs every slice for

    Milliseconds runTime = _config->workerThreadRunTime() + jitter;
    dassert(runTime.count() > 0);

`_getThreadJitter` draws from `[-runTimeJitter, runTimeJitter]` and replaces a
draw above the run time by zero. Nothing looks at a draw below minus the run
time, so the assertion holds for every draw exactly when the jitter parameter
is below the run time (`runTime_pos_iff`). From there on the draw
`-runTimeJitter` gives a slice of no time or less, and such a slice is over as
soon as it opens (`Worker.sliceOver_of_runTime_nonpos`): in a build without the
assertion, that worker loops without ever taking a task.

Below the bound the assertion is an invariant of the whole executor
(`runTime_pos_of_jitter_lt`): a new entry has drawn nothing yet, and only the
draw sets a worker's jitter. That needs a parameter that is not negative: a
negative one inverts the distribution's bounds, and then nothing bounds the draw
(`getThreadJitter_of_neg`).

## Main definitions

* `jitterParameters`, `jitterConfig`: A run time of one millisecond and a
  jitter of one millisecond.
* `jitterActions`: Start the executor, and let worker 0 draw `-1`.

## Theorems

* `getThreadJitter_of_mem`: Every draw the distribution can make gives a
  jitter: the draw, or zero.
* `getThreadJitter_runTime_pos`: Below the bound, every jitter leaves the slice
  positive.
* `getThreadJitter_of_neg`: A negative parameter keeps a draw that takes the
  whole run time.
* `runTime_pos_iff`: Every draw leaves the slice positive exactly when the
  jitter parameter is below the run time.
* `Worker.sliceOver_of_runTime_nonpos`: A slice of no time is over at once.
* `runTime_pos_of_jitter_lt`: Below the bound, every entry of every reachable
  state has a positive slice length.
* `runTime_zero_reachable`: With a jitter equal to the run time, a worker can
  reach the assertion with a slice of no time.
-/

namespace AdaptiveExecutor

section Draw

variable {o : Options} {draw j : Int}

/-- Every draw in `[-runTimeJitter, runTimeJitter]` gives a jitter: zero when no
jitter is configured or the draw is above the run time, and the draw itself
otherwise, however far below zero it is. -/
theorem getThreadJitter_of_mem (hlo : -o.runTimeJitter ≤ draw) (hhi : draw ≤ o.runTimeJitter) :
    getThreadJitter o draw =
      some (if o.runTimeJitter = 0 ∨ draw > o.workerThreadRunTime then 0 else draw) := by
  unfold getThreadJitter
  split_ifs <;> first | rfl | omega

/-- For a parameter that is not negative, a jitter is at least
`-runTimeJitter`, so below the bound it cannot take the whole run time away. -/
theorem getThreadJitter_runTime_pos (hW : 0 < o.workerThreadRunTime) (hJ : 0 ≤ o.runTimeJitter)
    (hlt : o.runTimeJitter < o.workerThreadRunTime) (h : getThreadJitter o draw = some j) :
    0 < o.workerThreadRunTime + j := by
  unfold getThreadJitter at h
  split_ifs at h <;> cases h <;> omega

/-- A negative parameter bounds nothing: the draw `-workerThreadRunTime` is kept,
and the slice has no time at all. -/
theorem getThreadJitter_of_neg (hW : 0 < o.workerThreadRunTime) (hJ : o.runTimeJitter < 0) :
    getThreadJitter o (-o.workerThreadRunTime) = some (-o.workerThreadRunTime) := by
  unfold getThreadJitter
  rw [if_neg (by omega), if_pos (.inl hJ), if_neg (by omega)]

/-- For a positive run time, every draw the distribution can make leaves the
slice positive exactly when `runTimeJitter` is below `workerThreadRunTime`.
The clamp only looks above: from `runTimeJitter ≥ workerThreadRunTime` on, the
draw `-runTimeJitter` is kept, and the slice has no time or less. -/
theorem runTime_pos_iff (hW : 0 < o.workerThreadRunTime) :
    (∀ draw, -o.runTimeJitter ≤ draw → draw ≤ o.runTimeJitter →
      ∃ j, getThreadJitter o draw = some j ∧ 0 < o.workerThreadRunTime + j) ↔
      o.runTimeJitter < o.workerThreadRunTime := by
  constructor
  · intro h
    by_contra hge
    obtain ⟨j, hj, hpos⟩ := h (-o.runTimeJitter) (Int.le_refl _) (by omega)
    rw [getThreadJitter_of_mem (Int.le_refl _) (by omega), if_neg (by omega)] at hj
    cases hj
    omega
  · intro hlt draw hlo hhi
    exact ⟨_, getThreadJitter_of_mem hlo hhi,
      getThreadJitter_runTime_pos hW (by omega) hlt (getThreadJitter_of_mem hlo hhi)⟩

theorem runTime_pos_iff_defaults :
    0 < defaultConfig.options.workerThreadRunTime ∧
      (∀ draw, -defaultConfig.options.runTimeJitter ≤ draw → draw ≤ defaultConfig.options.runTimeJitter →
        ∃ j, getThreadJitter defaultConfig.options draw = some j ∧
          0 < defaultConfig.options.workerThreadRunTime + j) :=
  ⟨by decide, (runTime_pos_iff (by decide)).mpr (by decide)⟩

end Draw

/-- A slice of no time or less is over as soon as it opens: `run_for` is given
no time, whatever the stopwatch reads. -/
theorem Worker.sliceOver_of_runTime_nonpos {cfg : Config} {w : Worker} (h : w.runTime cfg ≤ 0)
    (now : Nat) : w.sliceOver cfg now = true := by
  have : cfg.ofMillis (w.runTime cfg) ≤ 0 :=
    Int.mul_nonpos_of_nonpos_of_nonneg h (Int.ofNat_nonneg _)
  simp only [Worker.sliceOver, decide_eq_true_eq]
  omega

section Invariant

variable {cfg : Config} {s : Executor} {e : Event}

/-- A wrapped task never touches its worker's jitter. -/
theorem LevelMove.jitter_eq {w w' : Worker} {l : Level} {r : LevelStep}
    (h : LevelMove cfg s w l w' r e) : w'.jitter = w.jitter := by
  cases h <;> rfl

/-- Below the bound, a worker's step keeps its slice positive: only the draw
sets the jitter. -/
theorem WorkerMove.runTime_pos {w w' : Worker} (hW : 0 < cfg.options.workerThreadRunTime)
    (hJ : 0 ≤ cfg.options.runTimeJitter) (hlt : cfg.options.runTimeJitter < cfg.options.workerThreadRunTime)
    (hm : WorkerMove cfg s w w' e) (h : 0 < w.runTime cfg) : 0 < w'.runTime cfg := by
  cases hm with
  | jitter _ hj => exact getThreadJitter_runTime_pos hW hJ hlt hj
  | level _ hl => simpa only [Worker.runTime, hl.jitter_eq] using h
  | _ => exact h

/-- With a positive run time and the jitter parameter from zero up to below it,
the `dassert` holds of every entry of every reachable state. -/
theorem runTime_pos_of_jitter_lt (hW : 0 < cfg.options.workerThreadRunTime) (hJ : 0 ≤ cfg.options.runTimeJitter)
    (hlt : cfg.options.runTimeJitter < cfg.options.workerThreadRunTime) (hs : Reachable cfg s) :
    ∀ w ∈ s.workers, 0 < w.runTime cfg := by
  refine Reachable.invariant (fun s => ∀ w ∈ s.workers, 0 < w.runTime cfg)
    (fun n => by simp [Executor.init]) ?_ hs
  intro s s' a e _ ih hm
  exact hm.forall_workers _ (by simpa [Worker.runTime, Worker.fresh] using hW)
    (fun hm => hm.runTime_pos hW hJ hlt) ih

theorem runTime_pos_of_jitter_lt_demo :
    0 < defaultConfig.options.workerThreadRunTime ∧ 0 ≤ defaultConfig.options.runTimeJitter ∧
      defaultConfig.options.runTimeJitter < defaultConfig.options.workerThreadRunTime ∧
      Reachable defaultConfig demoState ∧ ∀ w ∈ demoState.workers, 0 < w.runTime defaultConfig :=
  ⟨by decide, by decide, by decide, demoState_reachable,
    runTime_pos_of_jitter_lt (by decide) (by decide) (by decide) demoState_reachable⟩

end Invariant

section Counterexample

/-- A run time of one millisecond, and a jitter of one millisecond. -/
def jitterParameters : ServerParameters where
  adaptiveServiceExecutorRunTimeMillis := 1
  adaptiveServiceExecutorRunTimeJitterMillis := 1

/-- `jitterParameters` on a two-core machine, a tick a millisecond. -/
def jitterConfig : Config := ⟨ServerParameterOptions jitterParameters 2, 1, Nat.one_pos⟩

/-- Start the executor, launch worker 0, let it draw `-1`, and let it read
`_isRunning` as true. -/
def jitterActions : List Action :=
  let w := Action.thread (.worker 0) .next
  [.thread .main .start, .thread .main .next, .thread .main .next, w, w, w,
   .thread (.worker 0) (.launch true), .thread (.worker 0) (.jitter (-1)), w]

theorem jitterActions_exec :
    ((Executor.exec jitterConfig (Executor.init 0) jitterActions).bind fun r =>
      r.1.workers[0]?.map fun w => (w.pc, w.runTime jitterConfig)) = some (.slice, 0) := by
  decide

/-- With `jitterConfig`, worker 0 of `jitterActions` stands at the `dassert`
with a slice of no time, and each of its slices is over as soon as it opens. -/
theorem runTime_zero_reachable :
    ∃ s w, Reachable jitterConfig s ∧ s.workers[0]? = some w ∧ w.pc = .slice ∧
      w.runTime jitterConfig = 0 ∧ ∀ now, w.sliceOver jitterConfig now = true := by
  obtain ⟨⟨s, es⟩, hx, h⟩ := Option.bind_eq_some.mp jitterActions_exec
  obtain ⟨w, hw, h⟩ := Option.map_eq_some'.mp h
  obtain ⟨hpc, hrun⟩ := Prod.mk.inj h
  exact ⟨s, w, ⟨0, es, exec_run _ _ _ _ _ hx⟩, hw, hpc, hrun,
    Worker.sliceOver_of_runTime_nonpos (Int.le_of_eq hrun)⟩

end Counterexample

end AdaptiveExecutor
