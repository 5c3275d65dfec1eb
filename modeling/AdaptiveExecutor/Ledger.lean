import AdaptiveExecutor.Invariant

/-!
# Spawn Accounting

`_startWorkerThread` counts every new entry in `_threadsPending` and
`_threadsRunning`, and the entry's own thread (or the spawn's rollback) takes
both back. This module follows the increments and decrements of one entry
through a whole run, whatever the other threads do in between.

An entry's events are the events of its thread, which are the spawn's stages
after the `emplace` and then `_workerThreadRoutine`. Each counter is raised
once by the spawn, and lowered at most once afterwards: `_threadsPending` by the
end of the first slice, by the exit guard while the thread is still pending, or
by a failed launch's rollback; `_threadsRunning` by the exit guard or the
rollback. `SpawnShare` says so for a run: an entry has raised a counter exactly
when it is past the increment, and has lowered it exactly when it has left the
window `Inv` counts it in.

The two increments of a spawn are separate atomic additions made under the
mutex, so the spawning entry itself holds the mutex between them, with
`_threadsPending` up to one ahead of `_threadsRunning`, and never more. Every
other holder finds `_threadsPending ≤ _threadsRunning`.

## Main definitions

* `Action.tid`: The thread an action is a step of.
* `eventCount`: How many times a thread did an event in a run.
* `WorkerPc.pendingIncremented`, `WorkerPc.runningIncremented`: The spawn has
  raised the counter.
* `SpawnShare`: Each entry's increments and decrements of one counter in a run.
* `failExitActions`: A run with a failed launch and an exit, ending with
  `_threads` empty.

## Theorems

* `ExecMove.spawnShare`: Every step keeps `SpawnShare`.
* `Run.spawnShare`: `SpawnShare` holds of every run from a fresh executor.
* `threadsPending_le_threadsRunning_add_one`: `_threadsPending` is at most one
  ahead of `_threadsRunning`.
* `spawn_counters_balanced`: The counters are never negative, a thread holding
  the mutex outside a spawn's increments sees `_threadsPending ≤ _threadsRunning`,
  every increment is undone at most once and exactly once by the time the entry
  is gone, and both counters are zero when `_threads` is empty.
* `pending_exceeds_running_in_spawn`: The spawn's own hold of the mutex, where
  `_threadsPending` is ahead.
-/

namespace AdaptiveExecutor

/-- The thread an action is a step of; a tick is no thread's. -/
def Action.tid : Action → Option Tid
  | .tick _ => none
  | .thread t _ => some t

/-- How many times thread `t` did event `e` in a run. -/
def eventCount (es : List (Action × Event)) (t : Tid) (e : Event) : Nat :=
  es.countP fun p => p.1.tid = some t ∧ p.2 = e

@[simp] theorem eventCount_nil (t : Tid) (e : Event) : eventCount [] t e = 0 := rfl

@[simp] theorem eventCount_snoc (es : List (Action × Event)) (a : Action) (e' : Event) (t : Tid)
    (e : Event) :
    eventCount (es ++ [(a, e')]) t e = eventCount es t e + if a.tid = some t ∧ e' = e then 1 else 0 := by
  simp only [eventCount, List.countP_append, List.countP_singleton]
  congr 1
  simp

namespace WorkerPc

/-- The spawn has raised `_threadsPending` for the entry. -/
def pendingIncremented : WorkerPc → Bool
  | .spawning .incPending => false
  | _ => true

/-- The spawn has raised `_threadsRunning` for the entry. -/
def runningIncremented : WorkerPc → Bool
  | .spawning .incPending | .spawning .incRunning => false
  | _ => true

@[simp] theorem pendingIncremented_afterLevel (handled : Bool) (rest : List Level) (r : LevelStep) :
    (afterLevel handled rest r).pendingIncremented = true := by
  cases r with
  | next | push => rfl
  | finish exn => cases rest <;> cases exn <;> rfl

@[simp] theorem runningIncremented_afterLevel (handled : Bool) (rest : List Level) (r : LevelStep) :
    (afterLevel handled rest r).runningIncremented = true := by
  cases r with
  | next | push => rfl
  | finish exn => cases rest <;> cases exn <;> rfl

end WorkerPc

/-- A wrapped task moves no counter of threads. -/
theorem Event.ne_of_ofTask {e : Event} (h : e.ofTask) :
    e ≠ .pendingIncrement ∧ e ≠ .pendingDecrement ∧ e ≠ .runningIncrement ∧ e ≠ .runningDecrement := by
  cases e <;> simp_all [Event.ofTask, Event.ofSchedule]

theorem Event.delta_threadsPending (e : Event) :
    e.delta .threadsPending =
      (if e = .pendingIncrement then 1 else 0) - (if e = .pendingDecrement then 1 else 0) := by
  cases e <;> simp [Event.delta]

theorem Event.delta_threadsRunning (e : Event) :
    e.delta .threadsRunning =
      (if e = .runningIncrement then 1 else 0) - (if e = .runningDecrement then 1 else 0) := by
  cases e <;> simp [Event.delta]

/-! ## The steps of one entry -/

section Steps

variable {cfg : Config} {s : Executor} {w w' : Worker} {e : Event}

/-- Only the spawn's increment moves an entry past it. -/
theorem WorkerMove.pendingIncremented (hm : WorkerMove cfg s w w' e) :
    w'.pc.pendingIncremented.toNat = w.pc.pendingIncremented.toNat + if e = .pendingIncrement then 1 else 0 := by
  cases hm with
  | level hpc hl =>
    simp only [hpc, WorkerPc.pendingIncremented_afterLevel, (Event.ne_of_ofTask hl.ofTask).1]
    rfl
  | _ => (try split) <;> simp_all [WorkerPc.pendingIncremented]

theorem WorkerMove.runningIncremented (hm : WorkerMove cfg s w w' e) :
    w'.pc.runningIncremented.toNat = w.pc.runningIncremented.toNat + if e = .runningIncrement then 1 else 0 := by
  cases hm with
  | level hpc hl =>
    simp only [hpc, WorkerPc.runningIncremented_afterLevel, (Event.ne_of_ofTask hl.ofTask).2.2.1]
    rfl
  | _ => (try split) <;> simp_all [WorkerPc.runningIncremented]

end Steps

/-! ## Each entry's share over a run -/

/-- Each entry's increments `inc` and decrements `dec` of one counter in a run:
it has incremented once it is past the increment (`done`), and it has undone
the increment unless it is still counted (`counted`). An index with no entry
has done neither. -/
def SpawnShare (inc dec : Event) (done counted : Worker → Bool) (es : List (Action × Event))
    (s : Executor) : Prop :=
  ∀ i, eventCount es (.worker i) inc = (s.workers[i]?.any done).toNat ∧
    eventCount es (.worker i) dec + (s.workers[i]?.any counted).toNat = eventCount es (.worker i) inc

/-- A new entry is not seen by a predicate that a fresh entry fails. -/
theorem any_apply_workers {p : Worker → Bool} (hp : p Worker.fresh = false) (s : Executor) (t : Tid)
    (e : Event) (j : Nat) : ((s.apply t e).workers[j]?.any p) = (s.workers[j]?.any p) := by
  rw [apply_workers]
  split
  · rcases Nat.lt_or_ge j s.workers.length with hj | hj
    · rw [List.getElem?_append_left hj]
    · rw [List.getElem?_append_right hj, List.getElem?_eq_none hj]
      cases h : j - s.workers.length <;> simp [hp]
  · rfl

section Share

variable {cfg : Config} {s s' : Executor} {e : Event} {inc dec : Event} {done counted : Worker → Bool}

/-- `SpawnShare` over a step, when every worker's step moves its entry's shares
exactly as its event, and a fresh entry has none. -/
theorem ExecMove.spawnShare {a : Action} {es : List (Action × Event)} (hm : ExecMove cfg s a s' e)
    (hok : ∀ w ∈ s.workers, w.Ok cfg.options.recursionLimit s.now)
    (hw : ∀ {w w' : Worker} {e : Event}, WorkerMove cfg s w w' e → w.Ok cfg.options.recursionLimit s.now →
      (done w').toNat = (done w).toNat + (if e = inc then 1 else 0) ∧
      (counted w').toNat + (if e = dec then 1 else 0) = (counted w).toNat + (if e = inc then 1 else 0))
    (hdone : done Worker.fresh = false) (hcounted : counted Worker.fresh = false)
    (h : SpawnShare inc dec done counted es s) : SpawnShare inc dec done counted (es ++ [(a, e)]) s' := by
  intro j
  cases hm with
  | tick => simpa [Action.tid] using h j
  | main | controller | client =>
    simp only [eventCount_snoc, Action.tid, any_apply_workers hdone, any_apply_workers hcounted]
    simpa using h j
  | @worker _ i w w' _ hi hs =>
    simp only [eventCount_snoc, Action.tid, any_apply_workers hdone, any_apply_workers hcounted,
      List.getElem?_set, (List.getElem?_eq_some_iff.mp hi).1]
    by_cases hij : i = j
    · subst hij
      obtain ⟨h1, h2⟩ := h i
      obtain ⟨d1, d2⟩ := hw hs (hok _ (List.getElem?_mem hi))
      simp only [hi, Option.any_some, if_true, true_and] at h1 h2 ⊢
      constructor <;> split_ifs at d1 d2 ⊢ <;> omega
    · simpa [hij, Ne.symm hij] using h j

end Share

section Run

variable {cfg : Config}

/-- A worker's step moves its share of `_threadsPending` as its event does. -/
theorem WorkerMove.pendingShare {s : Executor} {w w' : Worker} {e : Event} (hm : WorkerMove cfg s w w' e)
    (hw : w.Ok cfg.options.recursionLimit s.now) :
    (w'.pc.pendingIncremented).toNat = w.pc.pendingIncremented.toNat + (if e = .pendingIncrement then 1 else 0) ∧
      w'.pendingCounted.toNat + (if e = .pendingDecrement then 1 else 0) =
        w.pendingCounted.toNat + (if e = .pendingIncrement then 1 else 0) := by
  have h := hm.pendingDelta hw.pending
  rw [Event.delta_threadsPending] at h
  exact ⟨hm.pendingIncremented, by split_ifs at h ⊢ <;> omega⟩

theorem WorkerMove.runningShare {s : Executor} {w w' : Worker} {e : Event} (hm : WorkerMove cfg s w w' e) :
    (w'.pc.runningIncremented).toNat = w.pc.runningIncremented.toNat + (if e = .runningIncrement then 1 else 0) ∧
      w'.runningCounted.toNat + (if e = .runningDecrement then 1 else 0) =
        w.runningCounted.toNat + (if e = .runningIncrement then 1 else 0) := by
  have h := hm.runningDelta
  rw [Event.delta_threadsRunning] at h
  exact ⟨hm.runningIncremented, by split_ifs at h ⊢ <;> omega⟩

/-- Both counters' shares hold of every run from a fresh executor. -/
theorem Run.spawnShare {n : Nat} {es : List (Action × Event)} {s : Executor}
    (h : Run cfg (Executor.init n) es s) :
    SpawnShare .pendingIncrement .pendingDecrement (fun w => w.pc.pendingIncremented) Worker.pendingCounted es s ∧
      SpawnShare .runningIncrement .runningDecrement (fun w => w.pc.runningIncremented) Worker.runningCounted es s := by
  induction h with
  | refl => exact ⟨fun i => by simp [Executor.init], fun i => by simp [Executor.init]⟩
  | @step s₁ s₂ es' a e hr hst ih =>
    have hinv : Inv cfg s₁ := Inv.reachable ⟨n, es', hr⟩
    have hm := Executor.step_move hst
    exact ⟨hm.spawnShare hinv.workers (fun hs hw => hs.pendingShare hw) rfl rfl ih.1,
      hm.spawnShare hinv.workers (fun hs _ => hs.runningShare) rfl rfl ih.2⟩

end Run

/-! ## The counters of threads -/

/-- An entry in the pending window but not in the running one is between the
spawn's two increments. -/
theorem Worker.runningCounted_of_pendingCounted {w : Worker} (h : w.pendingCounted)
    (hw : w.pc ≠ .spawning .incRunning) : w.runningCounted := by
  rcases w with ⟨pc, _⟩
  cases pc with
  | spawning st =>
    cases st <;> simp_all [Worker.pendingCounted, Worker.runningCounted, WorkerPc.pendingWindow,
      WorkerPc.runningWindow]
  | _ => simp_all [Worker.pendingCounted, Worker.runningCounted, WorkerPc.pendingWindow, WorkerPc.runningWindow]

/-- A thread holding the mutex sees `_threadsPending ≤ _threadsRunning`, unless it
is an entry between its spawn's two increments. -/
theorem threadsPending_le_threadsRunning {cfg : Config} {s : Executor} (h : Inv cfg s) {t : Tid}
    (ht : s.threadsMutex = some t) :
    s.counters .threadsPending ≤ s.counters .threadsRunning ∨
      ∃ (i : Nat) (w : Worker), t = .worker i ∧ s.workers[i]? = some w ∧ w.pc = .spawning .incRunning := by
  by_cases hx : ∃ (i : Nat) (w : Worker), s.workers[i]? = some w ∧ w.pc = .spawning .incRunning
  · -- that entry holds the mutex, so it is `t`
    obtain ⟨i, w, hw, hpc⟩ := hx
    have hh := h.mutex (.worker i) (by simp [Executor.holds, hw, hpc, WorkerPc.holdsMutex])
    exact .inr ⟨i, w, Option.some.inj (hh.symm.trans ht) |>.symm, hw, hpc⟩
  · refine .inl ?_
    rw [h.pending, h.running]
    refine Int.ofNat_le.mpr (List.countP_mono_left fun w hw hp => ?_)
    obtain ⟨i, hi⟩ := List.mem_iff_getElem?.mp hw
    exact Worker.runningCounted_of_pendingCounted hp fun hpc => hx ⟨i, w, hi, hpc⟩

/-- Entries that satisfy `p` satisfy `q` or `r`, so there are no more of them
than of the two together. -/
theorem countP_le_countP_add {α : Type} {p q r : α → Bool} :
    ∀ {l : List α}, (∀ x ∈ l, p x → q x ∨ r x) → l.countP p ≤ l.countP q + l.countP r
  | [], _ => by simp
  | a :: l, h => by
    have := countP_le_countP_add fun x hx => h x (List.mem_cons_of_mem a hx)
    have ha := h a (List.mem_cons_self a l)
    simp only [List.countP_cons]
    cases hp : p a <;> cases hq : q a <;> cases hr : r a <;> simp_all <;> omega

/-- A predicate that holds at one index of a list at most counts one entry. -/
theorem countP_le_one {α : Type} {r : α → Bool} :
    ∀ {l : List α}, (∀ (i j : Nat) (x y : α), l[i]? = some x → l[j]? = some y → r x → r y → i = j) →
      l.countP r ≤ 1
  | [], _ => by simp
  | a :: l, h => by
    by_cases ha : r a
    · have : l.countP r = 0 := List.countP_eq_zero.mpr fun x hx hrx => by
        obtain ⟨i, hi⟩ := List.mem_iff_getElem?.mp hx
        exact absurd (h (i + 1) 0 x a (by simpa using hi) (by simp) hrx ha) (Nat.succ_ne_zero i)
      simp [List.countP_cons, ha, this]
    · have := countP_le_one (l := l) fun i j x y hx hy hrx hry => by
        simpa using h (i + 1) (j + 1) x y (by simpa using hx) (by simpa using hy) hrx hry
      simpa [List.countP_cons, ha] using this

/-- `_threadsPending` is at most one ahead of `_threadsRunning`: an entry between
its spawn's two increments holds the mutex, so there is at most one, and every
other pending entry is also running. -/
theorem threadsPending_le_threadsRunning_add_one {cfg : Config} {s : Executor} (h : Inv cfg s) :
    s.counters .threadsPending ≤ s.counters .threadsRunning + 1 := by
  have hone : s.workers.countP (fun w => w.pc = .spawning .incRunning) ≤ 1 :=
    countP_le_one fun i j x y hx hy hix hjy => by
      have hi := h.mutex (.worker i) (by simp [Executor.holds, hx, of_decide_eq_true hix, WorkerPc.holdsMutex])
      have hj := h.mutex (.worker j) (by simp [Executor.holds, hy, of_decide_eq_true hjy, WorkerPc.holdsMutex])
      simpa using hi.symm.trans hj
  have hle : s.workers.countP Worker.pendingCounted ≤
      s.workers.countP Worker.runningCounted + s.workers.countP (fun w => w.pc = .spawning .incRunning) :=
    countP_le_countP_add fun w _ hp => by
      by_cases hw : w.pc = .spawning .incRunning
      · exact .inr (decide_eq_true hw)
      · exact .inl (Worker.runningCounted_of_pendingCounted hp hw)
  rw [h.pending, h.running]
  omega

/-- An entry off `_threads` is past both of its spawn's increments. -/
theorem WorkerPc.incremented_of_not_listed {p : WorkerPc} (h : p.listed = false) :
    p.pendingIncremented ∧ p.runningIncremented := by
  cases p <;> simp_all [WorkerPc.listed, WorkerPc.pendingIncremented, WorkerPc.runningIncremented]

/-- An entry off `_threads` is counted in neither counter. -/
theorem Worker.not_counted_of_not_listed {w : Worker} (h : w.pc.listed = false) :
    w.pendingCounted = false ∧ w.runningCounted = false := by
  rcases w with ⟨_ | _ | _ | _ | _ | _ | _ | _ | _ | _ | _ | _ | _ | _ | _ | _ | _ | _ | _ | _ | _,
    _, _, _, _, _, _⟩ <;>
    simp_all [WorkerPc.listed, Worker.pendingCounted, Worker.runningCounted, WorkerPc.pendingWindow,
      WorkerPc.runningWindow]

theorem spawn_counters_balanced {cfg : Config} {n : Nat} {es : List (Action × Event)} {s : Executor}
    (h : Run cfg (Executor.init n) es s) :
    (0 ≤ s.counters .threadsPending ∧ 0 ≤ s.counters .threadsRunning) ∧
    (∀ t, s.threadsMutex = some t →
      s.counters .threadsPending ≤ s.counters .threadsRunning ∨
        ∃ (i : Nat) (w : Worker), t = .worker i ∧ s.workers[i]? = some w ∧ w.pc = .spawning .incRunning ∧
          s.counters .threadsPending ≤ s.counters .threadsRunning + 1) ∧
    (∀ i w, s.workers[i]? = some w →
      eventCount es (.worker i) .pendingIncrement = w.pc.pendingIncremented.toNat ∧
      eventCount es (.worker i) .pendingDecrement + w.pendingCounted.toNat =
        eventCount es (.worker i) .pendingIncrement ∧
      eventCount es (.worker i) .runningIncrement = w.pc.runningIncremented.toNat ∧
      eventCount es (.worker i) .runningDecrement + w.runningCounted.toNat =
        eventCount es (.worker i) .runningIncrement ∧
      (w.pc.listed = false → eventCount es (.worker i) .pendingDecrement = 1 ∧
        eventCount es (.worker i) .runningDecrement = 1)) ∧
    (s.threadsEmpty → s.counters .threadsPending = 0 ∧ s.counters .threadsRunning = 0) := by
  have hinv : Inv cfg s := Inv.reachable ⟨n, es, h⟩
  obtain ⟨hp, hr⟩ := h.spawnShare
  refine ⟨⟨by rw [hinv.pending]; omega, by rw [hinv.running]; omega⟩,
    fun t ht => (threadsPending_le_threadsRunning hinv ht).imp_right fun ⟨i, w, hi, hw, hpc⟩ =>
      ⟨i, w, hi, hw, hpc, threadsPending_le_threadsRunning_add_one hinv⟩, fun i w hw => ?_, fun he => ?_⟩
  · obtain ⟨p1, p2⟩ := hp i
    obtain ⟨r1, r2⟩ := hr i
    simp only [hw, Option.any_some] at p1 p2 r1 r2
    refine ⟨p1, p2, r1, r2, fun hl => ?_⟩
    -- an entry off the list is past both increments and out of both windows
    obtain ⟨hpc, hrc⟩ := Worker.not_counted_of_not_listed hl
    have := WorkerPc.incremented_of_not_listed hl
    simp only [hpc, hrc, this.1, this.2, Bool.toNat_false, Bool.toNat_true, add_zero] at p1 p2 r1 r2
    omega
  · -- every entry is off the list, so none is counted
    have hall : ∀ w ∈ s.workers, w.pc.listed = false := by simpa [Executor.threadsEmpty] using he
    rw [hinv.pending, hinv.running]
    simp only [Nat.cast_eq_zero, List.countP_eq_zero]
    exact ⟨fun w hw => by simp [(Worker.not_counted_of_not_listed (hall w hw)).1],
      fun w hw => by simp [(Worker.not_counted_of_not_listed (hall w hw)).2]⟩

/-- `start`'s spawn of worker 0 fails and is rolled back; the controller's
refill loop spawns worker 1, which launches; `shutdown(0)` stops the controller,
worker 1 sees `_isRunning` false and runs its whole exit guard, and `shutdown`
finds `_threads` empty. -/
def failExitActions : List Action :=
  let m := Action.thread .main .next
  let w₀ := Action.thread (.worker 0) .next
  let w₁ := Action.thread (.worker 1) .next
  let c := Action.thread .controller .next
  [.thread .main .start, m, m, w₀, w₀, w₀, .thread (.worker 0) (.launch false), w₀, w₀, w₀, w₀, m, m] ++
    List.replicate 20 c ++ [w₁, w₁, w₁, .thread (.worker 1) (.launch true), c, c, c,
    .thread .main (.shutdown 0), m, m, c, c, .thread (.worker 1) (.jitter 0)] ++
    List.replicate 8 w₁ ++ [m, m, m, m]

theorem failExitActions_exec :
    ((Executor.exec defaultConfig (Executor.init 0) failExitActions).map fun r =>
      (r.1.workers.map Worker.pc, r.1.threadsEmpty)) = some ([.failed, .exited], true) := by
  decide

/-- The run has a failed launch and an exit: both entries are off `_threads`, and
`_threads` is empty. -/
theorem spawn_counters_balanced_demo :
    ∃ es s, Run defaultConfig (Executor.init 0) es s ∧ s.workers.map Worker.pc = [.failed, .exited] ∧
      s.threadsEmpty = true ∧
      (0 ≤ s.counters .threadsPending ∧ 0 ≤ s.counters .threadsRunning) ∧
      (∀ t, s.threadsMutex = some t →
        s.counters .threadsPending ≤ s.counters .threadsRunning ∨
          ∃ (i : Nat) (w : Worker), t = .worker i ∧ s.workers[i]? = some w ∧ w.pc = .spawning .incRunning ∧
            s.counters .threadsPending ≤ s.counters .threadsRunning + 1) ∧
      (∀ i w, s.workers[i]? = some w →
        eventCount es (.worker i) .pendingIncrement = w.pc.pendingIncremented.toNat ∧
        eventCount es (.worker i) .pendingDecrement + w.pendingCounted.toNat =
          eventCount es (.worker i) .pendingIncrement ∧
        eventCount es (.worker i) .runningIncrement = w.pc.runningIncremented.toNat ∧
        eventCount es (.worker i) .runningDecrement + w.runningCounted.toNat =
          eventCount es (.worker i) .runningIncrement ∧
        (w.pc.listed = false → eventCount es (.worker i) .pendingDecrement = 1 ∧
          eventCount es (.worker i) .runningDecrement = 1)) ∧
      (s.threadsEmpty → s.counters .threadsPending = 0 ∧ s.counters .threadsRunning = 0) := by
  obtain ⟨⟨s, es⟩, hx, h⟩ := Option.map_eq_some'.mp failExitActions_exec
  simp only [Prod.mk.injEq] at h
  have hr := exec_run _ _ _ _ _ hx
  exact ⟨es, s, hr, h.1, h.2, spawn_counters_balanced hr⟩

/-- `start` with the default parameters, up to its first spawn's increment of
`_threadsPending`: the new entry holds the mutex and has not yet raised
`_threadsRunning`. -/
def firstSpawnActions : List Action :=
  [.thread .main .start, .thread .main .next, .thread .main .next, .thread (.worker 0) .next]

theorem firstSpawnActions_exec :
    ((Executor.exec defaultConfig (Executor.init 0) firstSpawnActions).map fun r =>
      (r.1.threadsMutex, r.1.counters .threadsPending, r.1.counters .threadsRunning)) =
        some (some (.worker 0), 1, 0) := by
  decide

theorem pending_exceeds_running_in_spawn :
    ∃ s, Reachable defaultConfig s ∧ ∃ t, s.threadsMutex = some t ∧
      s.counters .threadsRunning < s.counters .threadsPending := by
  obtain ⟨⟨s, es⟩, hx, hr⟩ := Option.map_eq_some'.mp firstSpawnActions_exec
  simp only [Prod.mk.injEq] at hr
  obtain ⟨hm, hp, hrun⟩ := hr
  exact ⟨s, ⟨0, es, exec_run _ _ _ _ _ hx⟩, _, hm, by rw [hp, hrun]; decide⟩

end AdaptiveExecutor
