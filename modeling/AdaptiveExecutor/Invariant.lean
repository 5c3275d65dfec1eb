import AdaptiveExecutor.Thread
import AdaptiveExecutor.Mutex
import Mathlib.Algebra.Order.Field.Rat

/-!
# The Executor's Invariant

What holds in every state a fresh executor reaches, whatever the interleaving:
every worker satisfies `Worker.Ok`, `_threadsMutex` is owned by whoever is in a
critical section, and each of the three thread counters is the number of
entries in a window of their life.

* `_threadsPending` counts the entries between the spawn's increment and the
  decrement that ends the pending state (the first slice's, the exit guard's or
  the failed launch's), while the thread is still pending.
* `_threadsRunning` counts the entries between the spawn's increment and the
  exit guard's or the rollback's decrement.
* `_threadsInUse` counts the workers whose outermost wrapper holds the in-use
  mark.

Each counter is changed only by the events of the entries it counts, and each of
those events moves the entry in or out of the window exactly as it moves the
counter (`WorkerMove.pendingDelta` and its siblings). No other thread's event
touches these counters, and a new entry starts outside every window.

## Main definitions

* `WorkerPc.pendingWindow`, `WorkerPc.runningWindow`: The windows.
* `Worker.pendingCounted`, `Worker.runningCounted`, `Worker.inUse`: The entry is
  counted.
* `Inv`: The invariant.

## Theorems

* `ExecMove.count`: A count of entries that follows the counter's events stays
  equal to the counter.
* `ExecMove.forall_workers`: A property that new entries have and the workers'
  steps keep holds of every entry after every step.
* `ExecMove.inv`: Every step keeps `Inv`.
* `Inv.reachable`: `Inv` holds in every reachable state.
* `threadsInUse_le_threadsRunning`: `0 ≤ _threadsInUse ≤ _threadsRunning`.
* `recursionDepth_le_limit`: The depth and the stack stay within the recursion
  limit.
* `executing_within_running`: The executing total stays within the running
  total, and a slice's executing time within the slice.
* `retireCheck_of_empty_slice`: A retirement check can follow a slice of no
  ticks, where the ratio it asserts about is not a number.
-/

namespace AdaptiveExecutor

namespace WorkerPc

/-- From the spawn's increment of `_threadsPending` to the decrement that ends
the pending state: the failed launch's, the first slice's, or the exit guard's. -/
def pendingWindow : WorkerPc → Bool
  | .spawning .incPending | .spawning .decRunning | .spawning .erase | .failed => false
  | .guardRunning | .guardPastRunning | .guardPastExecuting | .guardLock | .guardErase
  | .guardNotify | .exited => false
  | _ => true

/-- From the spawn's increment of `_threadsRunning` to the failed launch's or the
exit guard's decrement. -/
def runningWindow : WorkerPc → Bool
  | .spawning .incPending | .spawning .incRunning | .spawning .erase | .failed => false
  | .guardPastRunning | .guardPastExecuting | .guardLock | .guardErase | .guardNotify
  | .exited => false
  | _ => true

/-- A wrapper's step leaves the worker inside both windows. -/
@[simp] theorem pendingWindow_afterLevel (handled : Bool) (rest : List Level) (r : LevelStep) :
    (afterLevel handled rest r).pendingWindow = true := by
  cases r with
  | next | push => rfl
  | finish exn => cases rest <;> cases exn <;> rfl

@[simp] theorem runningWindow_afterLevel (handled : Bool) (rest : List Level) (r : LevelStep) :
    (afterLevel handled rest r).runningWindow = true := by
  cases r with
  | next | push => rfl
  | finish exn => cases rest <;> cases exn <;> rfl

end WorkerPc

/-- The entry is counted in `_threadsPending`. -/
def Worker.pendingCounted (w : Worker) : Bool := w.stillPending && w.pc.pendingWindow

/-- The entry is counted in `_threadsRunning`. -/
def Worker.runningCounted (w : Worker) : Bool := w.pc.runningWindow

/-- The worker is counted in `_threadsInUse`: its outermost wrapper holds the
in-use mark. -/
def Worker.inUse (w : Worker) : Bool := w.pc.levels.getLast?.any Level.marked

/-- What holds in every reachable state. -/
structure Inv (cfg : Config) (s : Executor) : Prop where
  workers : ∀ w ∈ s.workers, w.Ok cfg.options.recursionLimit s.now
  pending : s.counters .threadsPending = s.workers.countP Worker.pendingCounted
  running : s.counters .threadsRunning = s.workers.countP Worker.runningCounted
  inUse : s.counters .threadsInUse = s.workers.countP Worker.inUse
  mutex : MutexOk s

variable {cfg : Config} {s s' : Executor} {w w' : Worker} {e : Event}

/-! ## Each entry's share of the counters -/

namespace WorkerMove

/-- A worker's step moves it in or out of the pending window exactly as its
event moves `_threadsPending`. -/
theorem pendingDelta (hm : WorkerMove cfg s w w' e) (h : w.pc.surelyPending → w.stillPending) :
    (w'.pendingCounted.toNat : Int) = w.pendingCounted.toNat + e.delta .threadsPending := by
  cases hm with
  | level hpc hl =>
    simp only [Worker.pendingCounted, WorkerPc.pendingWindow_afterLevel, hl.stillPending_eq,
      Event.delta_of_ofTask hl.ofTask (.inl rfl), hpc]
    simp [WorkerPc.pendingWindow]
  | launch ok hpc | loop hpc | stopped hpc | retireCheck hpc | markStopped hpc =>
    split <;> simp [Worker.pendingCounted, hpc, WorkerPc.pendingWindow, Event.delta]
  | guardPending hpc =>
    cases hp : w.stillPending <;> simp [Worker.pendingCounted, hpc, hp, WorkerPc.pendingWindow, Event.delta]
  | incPending hpc | decPending hpc | pendingDone hpc =>
    have := h (by simp [hpc, WorkerPc.surelyPending])
    simp [Worker.pendingCounted, hpc, this, WorkerPc.pendingWindow, Event.delta]
  | _ => simp_all [Worker.pendingCounted, WorkerPc.pendingWindow, Event.delta]

/-- A worker's step moves it in or out of the running window exactly as its
event moves `_threadsRunning`. -/
theorem runningDelta (hm : WorkerMove cfg s w w' e) :
    (w'.runningCounted.toNat : Int) = w.runningCounted.toNat + e.delta .threadsRunning := by
  cases hm with
  | level hpc hl =>
    simp only [Worker.runningCounted, WorkerPc.runningWindow_afterLevel,
      Event.delta_of_ofTask hl.ofTask (.inr rfl), hpc]
    rfl
  | launch ok hpc | loop hpc | stopped hpc | retireCheck hpc | markStopped hpc =>
    split <;> simp [Worker.runningCounted, hpc, WorkerPc.runningWindow, Event.delta]
  | guardPending hpc =>
    split <;> simp [Worker.runningCounted, hpc, WorkerPc.runningWindow, Event.delta]
  | _ => simp_all [Worker.runningCounted, WorkerPc.runningWindow, Event.delta]

/-- A worker's step moves its in-use mark exactly as its event moves
`_threadsInUse`. -/
theorem inUseDelta (hm : WorkerMove cfg s w w' e) (h : RunOk cfg.options.recursionLimit w.pc.levels w) :
    (w'.inUse.toNat : Int) = w.inUse.toNat + e.delta .threadsInUse := by
  cases hm with
  | level hpc hl =>
    rw [hpc] at h
    simpa [Worker.inUse, hpc] using hl.inUse h
  | launch ok hpc | loop hpc | stopped hpc | retireCheck hpc | markStopped hpc =>
    split <;> simp [Worker.inUse, hpc, WorkerPc.levels, Event.delta]
  | guardPending hpc =>
    split <;> simp [Worker.inUse, hpc, WorkerPc.levels, Event.delta]
  | pop hpc => simp [Worker.inUse, hpc, WorkerPc.levels, Event.delta, Level.marked]
  | _ => simp_all [Worker.inUse, WorkerPc.levels, Event.delta]

end WorkerMove

/-- A count over the entries after one entry changed moves by what that entry's
own share moved by. -/
theorem countP_set_step {p : Worker → Bool} {l : List Worker} {i : Nat} (hw : l[i]? = some w)
    {d : Int} (hd : ((p w').toNat : Int) = (p w).toNat + d) :
    ((l.set i w').countP p : Int) = l.countP p + d := by
  obtain ⟨hi, rfl⟩ := List.getElem?_eq_some_iff.mp hw
  rw [List.countP_set p l i w' hi]
  cases hp : p l[i]
  · cases hp' : p w' <;> simp [hp, hp'] at hd ⊢ <;> omega
  · -- the entry was counted, so the count is positive
    have := List.countP_pos_iff.mpr ⟨_, List.getElem_mem hi, hp⟩
    cases hp' : p w' <;> simp [hp, hp'] at hd ⊢ <;> omega

/-- A count of entries stays equal to counter `c` over a step, when every
worker's step moves the entry's share by the event's delta, a new entry starts
with no share, and the events of the other threads leave `c` alone. -/
theorem ExecMove.count {a : Action} {c : Counter} {p : Worker → Bool} (hm : ExecMove cfg s a s' e)
    (hok : ∀ w ∈ s.workers, w.Ok cfg.options.recursionLimit s.now)
    (hw : ∀ {w w' : Worker} {e : Event}, WorkerMove cfg s w w' e → w.Ok cfg.options.recursionLimit s.now →
      ((p w').toNat : Int) = (p w).toNat + e.delta c)
    (hfresh : p Worker.fresh = false) (hsch : ∀ {e : Event}, e.ofSchedule → e.delta c = 0)
    (h : s.counters c = s.workers.countP p) : s'.counters c = s'.workers.countP p := by
  cases hm with
  | tick => exact h
  | main hs =>
    simp only [apply_counters, apply_workers, Event.delta_of_ofControl (MainPc.step_event hs).1]
    split <;> simp [List.countP_append, hfresh, h]
  | controller hs =>
    simp only [apply_counters, apply_workers, Event.delta_of_ofControl (Controller.step_event hs).1]
    split <;> simp [List.countP_append, hfresh, h]
  | client hp hs =>
    simp only [apply_counters, apply_workers, hsch (ClientPc.step_ofSchedule hs)]
    split <;> simp [List.countP_append, hfresh, h]
  | worker hi hs =>
    have hd := hw hs (hok _ (List.getElem?_mem hi))
    simp only [apply_counters, apply_workers]
    split <;> simp [List.countP_append, hfresh, h, countP_set_step hi hd]

/-- A property of single entries holds of every entry after a step of the
executor if every new entry has it and every step of a worker keeps it. -/
theorem ExecMove.forall_workers {a : Action} (Q : Worker → Prop) (hfresh : Q Worker.fresh)
    (hmove : ∀ {w w' e}, WorkerMove cfg s w w' e → Q w → Q w')
    (hm : ExecMove cfg s a s' e) (h : ∀ w ∈ s.workers, Q w) : ∀ w ∈ s'.workers, Q w := by
  have happend : ∀ l : List Worker, (∀ w ∈ l, Q w) →
      ∀ w ∈ (if e = .emplace then l ++ [Worker.fresh] else l), Q w := by
    intro l hl w hw
    split at hw
    · rcases List.mem_append.mp hw with hw | hw
      · exact hl w hw
      · exact List.mem_singleton.mp hw ▸ hfresh
    · exact hl w hw
  cases hm with
  | tick d => exact h
  | @worker _ i w w' _ hi hs =>
    rw [apply_workers]
    refine happend _ fun x hx => ?_
    rcases List.mem_or_eq_of_mem_set hx with hx | rfl
    · exact h x hx
    · exact hmove hs (h _ (List.getElem?_mem hi))
  | main | controller | client =>
    rw [apply_workers]
    exact happend _ h

/-- Every entry of the list after a step satisfies `Worker.Ok`. -/
theorem ExecMove.workersOk {a : Action} (hm : ExecMove cfg s a s' e)
    (hok : ∀ w ∈ s.workers, w.Ok cfg.options.recursionLimit s.now) :
    ∀ w ∈ s'.workers, w.Ok cfg.options.recursionLimit s'.now := by
  have h := hm.forall_workers _ (Worker.Ok.fresh _ s.now) (fun hm => hm.ok) hok
  cases hm with
  | tick d => exact fun w hw => (hok w hw).tick (Nat.le_add_right _ _)
  | _ => simpa only [apply_now] using h

/-- Every step of the executor keeps `Inv`. -/
theorem ExecMove.inv {a : Action} (hm : ExecMove cfg s a s' e) (h : Inv cfg s) : Inv cfg s' where
  workers := hm.workersOk h.workers
  pending := hm.count h.workers (fun hs hw => hs.pendingDelta hw.pending) rfl
    (fun he => Event.delta_of_ofSchedule he (.inl rfl)) h.pending
  running := hm.count h.workers (fun hs _ => hs.runningDelta) rfl
    (fun he => Event.delta_of_ofSchedule he (.inr (.inl rfl))) h.running
  inUse := hm.count h.workers (fun hs hw => hs.inUseDelta hw.run) rfl
    (fun he => Event.delta_of_ofSchedule he (.inr (.inr rfl))) h.inUse
  mutex := hm.mutexOk h.mutex

/-- A fresh executor satisfies `Inv`. -/
theorem Inv.init (n : Nat) : Inv cfg (Executor.init n) :=
  ⟨by simp [Executor.init], rfl, rfl, rfl, fun t h => by
    cases t <;> simp_all [Executor.init, Executor.holds, MainPc.holdsMutex, ControllerPc.holdsMutex]⟩

/-- `Inv` holds in every reachable state. -/
theorem Inv.reachable {s : Executor} (hs : Reachable cfg s) : Inv cfg s :=
  Reachable.invariant (Inv cfg) Inv.init (fun _ _ _ _ _ h hm => hm.inv h) hs

/-! ## Consequences -/

/-- A worker in use is inside a slice, so it is running. -/
theorem Worker.runningCounted_of_inUse (h : w.inUse) : w.runningCounted := by
  rcases w with ⟨_ | _ | _ | _ | _ | ⟨levels, handled⟩ | _, _, _, _, _, _, _⟩ <;>
    simp_all [Worker.inUse, Worker.runningCounted, WorkerPc.levels, WorkerPc.runningWindow]

theorem threadsInUse_le_threadsRunning {s : Executor} (hs : Reachable cfg s) :
    0 ≤ s.counters .threadsInUse ∧ s.counters .threadsInUse ≤ s.counters .threadsRunning ∧
      s.counters .threadsInUse = s.workers.countP Worker.inUse := by
  have h := Inv.reachable hs
  rw [h.inUse, h.running]
  exact ⟨by omega, by exact_mod_cast List.countP_mono_left fun _ _ => Worker.runningCounted_of_inUse, rfl⟩

theorem threadsInUse_le_threadsRunning_demo :
    Reachable defaultConfig demoState ∧
      0 ≤ demoState.counters .threadsInUse ∧
      demoState.counters .threadsInUse ≤ demoState.counters .threadsRunning ∧
      demoState.counters .threadsInUse = demoState.workers.countP Worker.inUse :=
  ⟨demoState_reachable, threadsInUse_le_threadsRunning demoState_reachable⟩

theorem recursionDepth_le_limit {s : Executor} (hs : Reachable cfg s) :
    ∀ w ∈ s.workers, 0 ≤ w.recursionDepth ∧
      w.recursionDepth ≤ max 1 (cfg.options.recursionLimit - 1) ∧
      (w.pc.levels.length : Int) ≤ max 1 (cfg.options.recursionLimit - 1) := by
  intro w hw
  obtain ⟨⟨-, -, hb⟩, hd, -⟩ := ((Inv.reachable hs).workers w hw).run
  -- the depth counts the wrappers that have entered, so it is at most the height
  have : w.pc.levels.countP Level.entered ≤ w.pc.levels.length := List.countP_le_length _
  exact ⟨by omega, by omega, hb⟩

theorem recursionDepth_le_limit_demo :
    Reachable defaultConfig demoState ∧
      ∀ w ∈ demoState.workers, 0 ≤ w.recursionDepth ∧
        w.recursionDepth ≤ max 1 (defaultConfig.options.recursionLimit - 1) ∧
        (w.pc.levels.length : Int) ≤ max 1 (defaultConfig.options.recursionLimit - 1) :=
  ⟨demoState_reachable, recursionDepth_le_limit demoState_reachable⟩

/-- A slice of at least one tick fits its executing time: the ratio is at most a
hundred. -/
theorem executingToRunning_le_hundred {cur spent : Nat} (h : cur ≤ spent) (hs : 0 < spent) :
    ∃ r, executingToRunning cur spent = some r ∧ r ≤ 100 := by
  refine ⟨_, if_neg (Nat.pos_iff_ne_zero.mp hs), ?_⟩
  have hq : (0 : ℚ) < spent := Nat.cast_pos.mpr hs
  rw [div_mul_eq_mul_div, div_le_iff₀ hq]
  exact_mod_cast (by omega : cur * 100 ≤ 100 * spent)

theorem executing_within_running {s : Executor} (hs : Reachable cfg s) :
    ∀ w ∈ s.workers, w.executing.totalTime s.now ≤ w.running.totalTime s.now ∧
      ∀ spent, w.pc = .retireCheck spent → w.executingCurRun ≤ spent ∧
        (0 < spent → ∃ r, executingToRunning w.executingCurRun spent = some r ∧ r ≤ 100) := by
  intro w hw
  have h := (Inv.reachable hs).workers w hw
  exact ⟨h.executing_le_running, fun spent hpc =>
    ⟨(h.retire hpc).1, executingToRunning_le_hundred (h.retire hpc).1⟩⟩

theorem executing_within_running_demo :
    Reachable defaultConfig demoState ∧
      ∀ w ∈ demoState.workers, w.executing.totalTime demoState.now ≤ w.running.totalTime demoState.now ∧
        ∀ spent, w.pc = .retireCheck spent → w.executingCurRun ≤ spent ∧
          (0 < spent → ∃ r, executingToRunning w.executingCurRun spent = some r ∧ r ≤ 100) :=
  ⟨demoState_reachable, executing_within_running demoState_reachable⟩

/-- Two workers with the default parameters: the first throws out of its reactor
and starts a replacement, which finishes its pending slice after the run time
and opens a second one. `shutdown` then stops the reactor, so the second slice
ends at once, no tick after it began, and the replacement reaches the retirement
check with `spentRunning` zero while two threads run. -/
def zeroSliceActions : List Action :=
  let m := Action.thread .main .next
  let w₀ := Action.thread (.worker 0) .next
  let w₁ := Action.thread (.worker 1) .next
  let c := Action.thread .controller .next
  [.thread .main .start, m, m, w₀, w₀, w₀, .thread (.worker 0) (.launch true), m, m,
   .thread (.worker 0) (.jitter 0), w₀, w₀, .thread (.worker 0) .throw, w₀,
   w₁, w₁, w₁, .thread (.worker 1) (.launch true), .thread (.worker 1) (.jitter 0), w₁, w₁,
   .tick 5000, w₁, w₁, w₁, w₁, w₁, w₁,
   .thread .main (.shutdown 0), m, m, c, c, c, c, c, c, c, c, m, m, m,
   w₁, w₁, w₁, w₁]

theorem zeroSliceActions_exec :
    ((Executor.exec defaultConfig (Executor.init 0) zeroSliceActions).map fun r =>
      (r.1.workers[1]?.map Worker.pc, r.1.counters .threadsRunning)) = some (some (.retireCheck 0), 2) := by
  decide

theorem retireCheck_of_empty_slice :
    ∃ s, Reachable defaultConfig s ∧ ∃ (i : Nat) (w : Worker), s.workers[i]? = some w ∧ w.pc = .retireCheck 0 ∧
      s.counters .threadsRunning > defaultConfig.options.reservedThreads ∧
      executingToRunning w.executingCurRun 0 = none := by
  obtain ⟨⟨s, es⟩, hx, hr⟩ := Option.map_eq_some'.mp zeroSliceActions_exec
  simp only [Prod.mk.injEq, Option.map_eq_some'] at hr
  obtain ⟨⟨w, hw, hpc⟩, hrun⟩ := hr
  exact ⟨s, ⟨0, es, exec_run _ _ _ _ _ hx⟩, 1, w, hw, hpc, by rw [hrun]; decide, rfl⟩

end AdaptiveExecutor
