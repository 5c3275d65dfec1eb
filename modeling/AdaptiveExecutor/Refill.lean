import AdaptiveExecutor.Invariant

/-!
# The Reserve-Refill Loop

`_controllerThreadRoutine` tops the pool up to `reservedThreads` with

    while (_threadsRunning.load() < _config->reservedThreads())
        _startWorkerThread();

A spawn whose launch fails rolls `_threadsRunning` back to what it was, so after
a failed spawn the loop's condition reads exactly what it read before. Nothing
bounds the number of calls: the loop waiting for pending threads just below has
a time limit, this one has none. While every launch fails, the controller stays
in the loop for good, and never returns to its `_isRunning` check.

`failedSpawn_within` runs one failed spawn from any state where the controller
is about to check the condition, and `refill_spawns` repeats it any number of
times, with the controller inside the loop at every state in between.

The loop is also the only way back to the reserve. A worker's retirement check
loads `_threadsRunning` and compares it with `reservedThreads`, and the
decrement comes later, in the exit guard. Two idle workers can both see two
threads running against one reserved, both retire, and leave none
(`retirements_break_reserve`); the refill loop starts new threads only in a
later round.

## Main definitions

* `ControllerPc.inRefill`: The controller is inside the refill loop.
* `RunWithin`: A run every state of which satisfies a predicate.
* `failedLaunchActions`: The new entry's side of a spawn whose launch fails.
* `Task.raises`, `Action.ordinary`: Runs where every launch succeeds, no
  exception leaves the reactor and nobody calls `shutdown`.
* `reserveActions`, `retireRaceActions`: Two retirements from where the reserve
  is full.

## Theorems

* `RunWithin.of_workerExec`: Steps of workers keep the controller where it is.
* `failedSpawn_within`: A failed spawn brings the loop back to its check, with
  the counters and the mutex as they were.
* `refill_spawns`: The loop can make any number of calls in one round.
* `refill_loop_unbounded`: With the default parameters and failing launches,
  one controller round makes any number of calls.
* `retirements_break_reserve`: Voluntary retirements take `_threadsRunning` from
  the reserve down to zero.
-/

namespace AdaptiveExecutor

/-- The controller is inside the reserve-refill loop: at its check, or in a call
of `_startWorkerThread` the loop made. -/
def ControllerPc.inRefill : ControllerPc → Bool
  | .refillCheck | .refillSpawn | .refillSpawning _ => true
  | _ => false

/-- A run every state of which, the first and the last included, satisfies `P`. -/
inductive RunWithin (cfg : Config) (P : Executor → Prop) : Executor → Executor → Prop
  | refl {s : Executor} : P s → RunWithin cfg P s s
  | step {s s' s'' : Executor} {a : Action} {e : Event} :
      RunWithin cfg P s s' → s'.step cfg a = some (s'', e) → P s'' → RunWithin cfg P s s''

namespace RunWithin

variable {cfg : Config} {P : Executor → Prop} {s s' s'' : Executor}

theorem start (h : RunWithin cfg P s s') : P s := by
  induction h with
  | refl hp => exact hp
  | step _ _ _ ih => exact ih

theorem finish (h : RunWithin cfg P s s') : P s' := by
  cases h with
  | refl hp => exact hp
  | step _ _ hp => exact hp

theorem trans (h1 : RunWithin cfg P s s') (h2 : RunWithin cfg P s' s'') : RunWithin cfg P s s'' := by
  induction h2 with
  | refl => exact h1
  | step _ hst hp ih => exact .step ih hst hp

/-- A step in front of a run within `P`, from a state in `P`. -/
theorem head {a : Action} {e : Event} (hp : P s) (hst : s.step cfg a = some (s', e))
    (h : RunWithin cfg P s' s'') : RunWithin cfg P s s'' :=
  (RunWithin.step (.refl hp) hst h.start).trans h

/-- A run within `P` is a run. -/
theorem run (h : RunWithin cfg P s s') : ∃ es, Run cfg s es s' := by
  induction h with
  | refl => exact ⟨[], .refl _⟩
  | step _ hst _ ih =>
    obtain ⟨es, hr⟩ := ih
    exact ⟨_, hr.step hst⟩

end RunWithin

/-- The new entry's side of a spawn whose launch fails: it counts itself,
releases the mutex, fails to launch, takes the mutex again, uncounts itself and
is erased. -/
def failedLaunchActions (k : Nat) : List Action :=
  let w := Action.thread (.worker k) .next
  [w, w, w, .thread (.worker k) (.launch false), w, w, w, w]

/-- A worker's step leaves the controller as it is. -/
theorem step_worker_controller {cfg : Config} {s s' : Executor} {i : Nat} {c : Choice} {e : Event}
    (h : s.step cfg (.thread (.worker i) c) = some (s', e)) : s'.controller.pc = s.controller.pc := by
  cases Executor.step_move h with
  | worker _ hm => simp [hm.ne_startController]

/-- Steps of workers only keep the controller where it is, so a run of them from
a state in a predicate of the controller's position stays in it. -/
theorem RunWithin.of_workerExec {cfg : Config} {Q : ControllerPc → Prop} :
    ∀ (as : List Action) (s s' : Executor) (es : List (Action × Event)),
      (∀ a ∈ as, ∃ i c, a = .thread (.worker i) c) → Executor.exec cfg s as = some (s', es) →
      Q s.controller.pc → RunWithin cfg (fun t => Q t.controller.pc) s s'
  | [], s, s', es, _, h, hq => by
    simp only [Executor.exec, Option.some.injEq, Prod.mk.injEq] at h
    obtain ⟨rfl, -⟩ := h
    exact .refl hq
  | a :: as, s, s', es, has, h, hq => by
    simp only [Executor.exec] at h
    split at h
    · rename_i t e hst
      obtain ⟨⟨t', es'⟩, hrest, heq⟩ := Option.map_eq_some'.mp h
      obtain ⟨rfl, -⟩ := Prod.mk.inj heq
      obtain ⟨i, c, rfl⟩ := has a (by simp)
      have hq' : Q t.controller.pc := step_worker_controller hst ▸ hq
      exact RunWithin.head hq hst
        (of_workerExec as t _ es' (fun a ha => has a (by simp [ha])) hrest hq')
    · cases h

section Loop

variable (cfg : Config)

/-- The entry emplaced at the end of the list, holding the mutex, fails to
launch: it ends erased, with the mutex free and `_threadsRunning` as before. -/
theorem failedLaunch_exec {s : Executor} {l : List Worker} (hw : s.workers = l ++ [Worker.fresh])
    (hm : s.threadsMutex = some (.worker l.length)) :
    ((Executor.exec cfg s (failedLaunchActions l.length)).map fun r =>
      (r.1.threadsMutex, r.1.counters .threadsRunning, r.1.workers.length, r.1.workers[l.length]?.map Worker.pc)) =
      some (none, s.counters .threadsRunning, l.length + 1, some .failed) := by
  rcases s with ⟨_, _, _, _, _, _, _, workers, _, _, _⟩
  simp only at hw hm
  subst hw hm
  -- run the eight steps, leaving the counter as a sum of the events' deltas
  simp only [failedLaunchActions, Executor.exec, Executor.step, Worker.fresh, List.length_append,
    List.length_singleton, lt_add_iff_pos_right, zero_lt_one, List.getElem?_eq_getElem, List.getElem_concat_length,
    Executor.apply, Event.update, le_refl, List.set_append_right, tsub_self, List.set_cons_zero, List.append_assoc,
    List.singleton_append, Worker.step, Option.map_some', Bool.false_eq_true, ↓reduceIte, Option.some.injEq,
    Prod.mk.injEq, and_true, true_and]
  simp [Event.delta]

/-- One iteration of the loop whose launch fails brings the controller back to
the loop's check with the mutex free and `_threadsRunning` as it was, one entry
longer, having stayed in the loop throughout. -/
theorem failedSpawn_within {s : Executor} (hc : s.controller.pc = .refillCheck) (hm : s.threadsMutex = none)
    (hr : s.counters .threadsRunning < cfg.options.reservedThreads) :
    ∃ s', RunWithin cfg (fun t => t.controller.pc.inRefill = true) s s' ∧ s'.controller.pc = .refillCheck ∧
      s'.threadsMutex = none ∧ s'.counters .threadsRunning = s.counters .threadsRunning ∧
      s'.workers.length = s.workers.length + 1 := by
  -- the loop's check, and the call's `emplace` of entry `k`
  set s₁ := { s with controller := { s.controller with pc := .refillSpawn } }.apply .controller .silent
  have h1 : s.step cfg (.thread .controller .next) = some (s₁, .silent) := by
    simp [s₁, Executor.step, Controller.step, hc, hr]
  set s₂ := { s₁ with controller := { s₁.controller with pc := .refillSpawning s.workers.length } }.apply .controller .emplace
  have h2 : s₁.step cfg (.thread .controller .next) = some (s₂, .emplace) := by
    simp [s₂, s₁, Executor.step, Controller.step, hm, Executor.apply, Event.update]
  have hw₂ : s₂.workers = s.workers ++ [Worker.fresh] := by simp [s₂, s₁]
  have hm₂ : s₂.threadsMutex = some (.worker s.workers.length) := by simp [s₂, s₁, apply_threadsMutex]
  -- the new entry's failed launch, which leaves the controller waiting for it
  obtain ⟨⟨s₃, es⟩, hx, h⟩ := Option.map_eq_some'.mp (failedLaunch_exec cfg hw₂ hm₂)
  simp only [Prod.mk.injEq] at h
  obtain ⟨hm₃, hr₃, hl₃, hk₃⟩ := h
  obtain ⟨w₃, hw₃, hpc₃⟩ := Option.map_eq_some'.mp hk₃
  have hacts : ∀ a ∈ failedLaunchActions s.workers.length, ∃ i c, a = .thread (.worker i) c := by
    simp [failedLaunchActions]
  have hin := RunWithin.of_workerExec (Q := fun p => p = .refillSpawning s.workers.length) _ _ _ _ hacts hx
    (by simp [s₂, s₁])
  -- the call returns to the loop's check
  set s₄ := { s₃ with controller := { s₃.controller with pc := .refillCheck } }.apply .controller .silent
  have h4 : s₃.step cfg (.thread .controller .next) = some (s₄, .silent) := by
    simp [s₄, Executor.step, Controller.step, hin.finish, Executor.spawnDone, hw₃, hpc₃, WorkerPc.spawned]
  refine ⟨s₄, ?_, by simp [s₄], by simp [s₄, apply_threadsMutex, hm₃], ?_, by simp [s₄, hl₃]⟩
  · refine RunWithin.head (by simp [hc, ControllerPc.inRefill]) h1
      (RunWithin.head (by simp [s₁, ControllerPc.inRefill]) h2 ?_)
    refine (RunWithin.of_workerExec (Q := fun p => p.inRefill = true) _ _ _ _ hacts hx
      (by simp [s₂, s₁, ControllerPc.inRefill])).trans ?_
    exact .step (.refl (by simp [hin.finish, ControllerPc.inRefill])) h4 (by simp [s₄, ControllerPc.inRefill])
  · simp [s₄, hr₃, s₂, s₁, Event.delta]

/-- From the loop's check, with the mutex free and fewer threads running than
reserved, the loop can make any number `k` of calls without leaving. -/
theorem refill_spawns (k : Nat) :
    ∀ s : Executor, s.controller.pc = .refillCheck → s.threadsMutex = none →
      s.counters .threadsRunning < cfg.options.reservedThreads →
      ∃ s', RunWithin cfg (fun t => t.controller.pc.inRefill = true) s s' ∧ s'.controller.pc = .refillCheck ∧
        s'.threadsMutex = none ∧ s'.counters .threadsRunning = s.counters .threadsRunning ∧
        s'.workers.length = s.workers.length + k := by
  induction k with
  | zero => exact fun s hc _ _ => ⟨s, .refl (by simp [hc, ControllerPc.inRefill]), hc, ‹_›, rfl, rfl⟩
  | succ k ih =>
    intro s hc hm hr
    obtain ⟨t, ht, htc, htm, htr, htl⟩ := failedSpawn_within cfg hc hm hr
    obtain ⟨u, hu, huc, hum, hur, hul⟩ := ih t htc htm (htr ▸ hr)
    exact ⟨u, ht.trans hu, huc, hum, hur.trans htr, by omega⟩

end Loop

/-- The default parameters with every launch failing: `start`'s spawn fails,
and the controller's first round reaches the refill loop's check with no thread
running. -/
def refillEntryActions : List Action :=
  let m := Action.thread .main .next
  let w := Action.thread (.worker 0) .next
  let c := Action.thread .controller .next
  [.thread .main .start, m, m, w, w, w, .thread (.worker 0) (.launch false), w, w, w, w, m, m] ++
    List.replicate 18 c

theorem refillEntryActions_exec :
    ((Executor.exec defaultConfig (Executor.init 0) refillEntryActions).map fun r =>
      (r.1.controller.pc, r.1.threadsMutex, r.1.counters .threadsRunning)) = some (.refillCheck, none, 0) := by
  decide

theorem refill_loop_unbounded :
    ∃ s₀, Reachable defaultConfig s₀ ∧ s₀.controller.pc = .refillCheck ∧
      ∀ k, ∃ s, RunWithin defaultConfig (fun t => t.controller.pc.inRefill = true) s₀ s ∧
        s.controller.pc = .refillCheck ∧
        s.counters .threadsRunning < defaultConfig.options.reservedThreads ∧
        s.workers.length = s₀.workers.length + k := by
  obtain ⟨⟨s₀, es⟩, hx, h⟩ := Option.map_eq_some'.mp refillEntryActions_exec
  simp only [Prod.mk.injEq] at h
  obtain ⟨hc, hm, hr⟩ := h
  have hlt : s₀.counters .threadsRunning < defaultConfig.options.reservedThreads := by rw [hr]; decide
  refine ⟨s₀, ⟨0, es, exec_run _ _ _ _ _ hx⟩, hc, fun k => ?_⟩
  obtain ⟨s, hs, hsc, -, hsr, hsl⟩ := refill_spawns defaultConfig k s₀ hc hm hlt
  exact ⟨s, hs, hsc, hsr ▸ hlt, hsl⟩

section Reserve

/-- The task raises an exception somewhere, itself or in a task it schedules. -/
def Task.raises : Task → Bool
  | .done => false
  | .raise => true
  | .schedule _ t _ next => t.raises || next.raises

/-- The action keeps to a run where every launch succeeds, no exception escapes
the reactor and `shutdown` is not called: no failed launch, no exception thrown
out of `run_for`, no `shutdown`, and no task that raises. -/
def Action.ordinary : Action → Bool
  | .thread _ (.launch ok) => ok
  | .thread _ .throw | .thread _ (.shutdown _) => false
  | .thread _ (.schedule _ t) => !t.raises
  | _ => true

/-- `start` with one reserved thread: worker 0 launches and `_threadsRunning` is
at the reserve. -/
def reserveActions : List Action :=
  let m := Action.thread .main .next
  let w := Action.thread (.worker 0) .next
  [.thread .main .start, m, m, w, w, w, .thread (.worker 0) (.launch true), m, m]

/-- Worker 0 takes a task and is still inside it 250 ticks later, so every
running thread is in use and nothing was scheduled for `stuckThreadTimeout`: the
controller starts worker 1. Both finish their pending slices, run a full slice
without tasks each, and reach the retirement check; both load
`_threadsRunning = 2 > 1` before either one lowers it, and both leave. -/
def retireRaceActions : List Action :=
  let w₀ := Action.thread (.worker 0) .next
  let w₁ := Action.thread (.worker 1) .next
  let c := Action.thread .controller .next
  let k := Action.thread (.client 0) .next
  [.thread (.worker 0) (.jitter 0), w₀, w₀, .thread (.client 0) (.schedule ⟨false, false⟩ .done)] ++
  List.replicate 5 k ++ List.replicate 6 w₀ ++ List.replicate 16 c ++ [.tick 250] ++
  List.replicate 5 c ++ [w₁, w₁, w₁, .thread (.worker 1) (.launch true)] ++ List.replicate 3 c ++
  List.replicate 9 w₀ ++ [.thread (.worker 1) (.jitter 0), w₁, w₁, .tick 5000] ++
  List.replicate 6 w₁ ++ List.replicate 3 w₀ ++ [.tick 5000] ++ List.replicate 3 w₁ ++
  [w₀, w₁, w₀, w₀, w₁, w₁]

theorem reserveActions_all_ordinary : (reserveActions ++ retireRaceActions).all Action.ordinary := by
  simp [reserveActions, retireRaceActions, Action.ordinary, Task.raises]

set_option maxRecDepth 2000 in
theorem retireRaceActions_exec :
    ((Executor.exec defaultConfig (Executor.init 1) reserveActions).bind fun r =>
      (Executor.exec defaultConfig r.1 retireRaceActions).map fun r' =>
        (r.1.counters .threadsRunning, r'.1.counters .threadsRunning)) = some (1, 0) := by
  decide

/-- Every launch succeeds, no exception escapes the reactor and `shutdown` is
never called, and `_threadsRunning` reaches `reservedThreads`; voluntary
retirements, the only way out left, then bring it below. -/
theorem retirements_break_reserve :
    ∃ es₁ s₁ es₂ s₂, Run defaultConfig (Executor.init 1) es₁ s₁ ∧ Run defaultConfig s₁ es₂ s₂ ∧
      (∀ p ∈ es₁ ++ es₂, p.1.ordinary = true) ∧
      defaultConfig.options.reservedThreads ≤ s₁.counters .threadsRunning ∧
      s₂.counters .threadsRunning < defaultConfig.options.reservedThreads := by
  obtain ⟨⟨s₁, es₁⟩, hx₁, h⟩ := Option.bind_eq_some.mp retireRaceActions_exec
  obtain ⟨⟨s₂, es₂⟩, hx₂, h⟩ := Option.map_eq_some'.mp h
  simp only [Prod.mk.injEq] at h
  have hord : ∀ p ∈ es₁ ++ es₂, p.1.ordinary = true := by
    intro p hp
    have hmem : p.1 ∈ es₁.map Prod.fst ++ es₂.map Prod.fst := by
      simpa using Or.imp (List.mem_map_of_mem Prod.fst) (List.mem_map_of_mem Prod.fst) (List.mem_append.mp hp)
    rw [Executor.exec_actions hx₁, Executor.exec_actions hx₂] at hmem
    exact List.all_eq_true.mp reserveActions_all_ordinary _ hmem
  refine ⟨es₁, s₁, es₂, s₂, exec_run _ _ _ _ _ hx₁, exec_run _ _ _ _ _ hx₂, hord, ?_, ?_⟩ <;>
    simp only [h.1, h.2] <;> decide

end Reserve

end AdaptiveExecutor
