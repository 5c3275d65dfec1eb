import AdaptiveExecutor.System

/-!
# Mutual Exclusion on `_threadsMutex`

Where each thread holds `_threadsMutex`, read off its program counter, and the
fact that the model's `threadsMutex` field names exactly that thread: whoever is
inside a critical section is the mutex's owner, so at most one thread is.

The critical sections are `_startWorkerThread`'s, from the `emplace` to the
`unlock` and from the relock of a failed launch to the `erase`;
`_getThreadTimerTotal`'s summing of the entries; `shutdown`'s, from the lock to
`ioContext->stop()` and the check of `_threads.empty()`, and again after every
wake; and the exit guard's `erase`. A spawn's critical section is held by the
new entry, which runs the spawn's steps after the `emplace`.

Every step of a thread uses the mutex in one of four ways (`MutexStep`): it
takes it when it is free, it releases a hold, it emplaces an entry (which takes
the mutex on the entry's behalf), or it keeps holding or not holding as before.
That is all `MutexOk.step` needs.

## Main definitions

* `WorkerPc.holdsMutex`, `ControllerPc.holdsMutex`, `MainPc.holdsMutex`: Where
  each thread is inside a critical section.
* `Executor.holds`: Thread `t` is inside a critical section.
* `MutexStep`: How one step of a thread may use the mutex.
* `MutexOk`: Every thread inside a critical section owns the mutex.

## Theorems

* `MutexOk.step`: A step that uses the mutex as `MutexStep` allows keeps
  `MutexOk`.
* `ExecMove.mutexOk`: Every step of the executor keeps `MutexOk`.
* `MutexOk.reachable`: `MutexOk` holds in every reachable state.
-/

namespace AdaptiveExecutor

/-- `_getThreadTimerTotal` holds the mutex while it sums the entries. -/
def TimerTotalPc.holdsMutex : TimerTotalPc → Bool
  | .sum _ => true
  | _ => false

/-- The controller holds the mutex only inside `_getThreadTimerTotal`; its calls
of `_startWorkerThread` hand it to the new entry. -/
def ControllerPc.holdsMutex : ControllerPc → Bool
  | .initExecuting tt | .initRunning tt | .spentExecuting tt | .spentRunning _ tt => tt.holdsMutex
  | _ => false

/-- `shutdown` holds the mutex from its lock to `stop()` and the check of
`_threads.empty()`, and again from every wake to the next check. -/
def MainPc.holdsMutex : MainPc → Bool
  | .shutdownStop _ | .shutdownCheck _ => true
  | _ => false

/-- An entry holds the mutex through its spawn's increments, through a failed
launch's rollback, and for its exit guard's `erase`. -/
def WorkerPc.holdsMutex : WorkerPc → Bool
  | .spawning .incPending | .spawning .incRunning | .spawning .unlock => true
  | .spawning .decPending | .spawning .decRunning | .spawning .erase => true
  | .guardErase => true
  | _ => false

/-- A wrapper's step leaves its worker outside every critical section. -/
@[simp] theorem WorkerPc.holdsMutex_afterLevel (handled : Bool) (rest : List Level) (r : LevelStep) :
    (afterLevel handled rest r).holdsMutex = false := by
  cases r with
  | next | push => rfl
  | finish exn => cases rest <;> cases exn <;> rfl

/-- Thread `t` is inside a critical section. -/
def Executor.holds (s : Executor) : Tid → Bool
  | .main => s.main.holdsMutex
  | .controller => s.controller.pc.holdsMutex
  | .worker i => s.workers[i]?.any fun w => w.pc.holdsMutex
  | .client _ => false

/-- How one step of a thread may use the mutex, given its owner `m` and whether
the thread holds it before and after: a `lock` takes it when it is free, an
`unlock` or an `erase` ends a hold, an `emplace` needs it free and leaves it to
the new entry, and every other step holds it exactly as before. -/
def MutexStep (m : Option Tid) (before after : Bool) : Event → Prop
  | .lock => m = none ∧ after = true
  | .unlock | .erase => before = true ∧ after = false
  | .emplace => m = none ∧ after = false
  | _ => after = before

/-- Every thread inside a critical section owns the mutex. -/
def MutexOk (s : Executor) : Prop :=
  ∀ t, s.holds t = true → s.threadsMutex = some t

/-- What an event does to the mutex's owner. -/
theorem apply_threadsMutex (s : Executor) (t : Tid) (e : Event) :
    (s.apply t e).threadsMutex =
      match e with
      | .lock => some t
      | .unlock | .erase => none
      | .emplace => some (.worker s.workers.length)
      | _ => s.threadsMutex := by
  cases e <;> rfl

/-- Applying an event starts no critical section, except the new entry's. -/
theorem holds_apply {s : Executor} {t t' : Tid} {e : Event} (h : (s.apply t e).holds t' = true) :
    s.holds t' = true ∨ (e = .emplace ∧ t' = .worker s.workers.length) := by
  cases t' with
  | main => exact .inl (by simpa [Executor.holds] using h)
  | controller =>
    simp only [Executor.holds, apply_controller_pc] at h
    split at h
    · cases h
    · exact .inl h
  | worker i =>
    simp only [Executor.holds, apply_workers] at h ⊢
    split at h
    · rcases Nat.lt_or_ge i s.workers.length with hi | hi
      · rw [List.getElem?_append_left hi] at h
        exact .inl h
      · rcases Nat.eq_or_lt_of_le hi with rfl | hi
        · exact .inr ⟨‹_›, rfl⟩
        · rw [List.getElem?_eq_none (by simp; omega)] at h
          cases h
    · exact .inl h
  | client => cases h

theorem MutexOk.step {s s' : Executor} {t : Tid} {e : Event} (h : MutexOk s)
    (hst : MutexStep s.threadsMutex (s.holds t) (s'.holds t) e)
    (hmx : s'.threadsMutex = (s.apply t e).threadsMutex)
    (hother : ∀ t', t' ≠ t → s'.holds t' = true →
      s.holds t' = true ∨ (e = .emplace ∧ t' = .worker s.workers.length)) :
    MutexOk s' := by
  intro t' ht'
  rw [hmx, apply_threadsMutex]
  by_cases heq : t' = t
  · -- the thread itself: it holds afterwards only by taking the mutex, or by keeping it
    subst heq
    cases e with
    | lock => rfl
    | unlock | erase | emplace => simp [MutexStep, ht'] at hst
    | _ => exact h _ ((show s'.holds t' = s.holds t' from hst) ▸ ht')
  · cases e with
    | lock =>
      -- taken when free: whoever else holds afterwards held before, and owned it
      rcases hother t' heq ht' with hb | ⟨⟨⟩, -⟩
      simp [MutexStep, h t' hb] at hst
    | unlock | erase =>
      -- the releasing thread owned the mutex, so nobody else held it
      rcases hother t' heq ht' with hb | ⟨⟨⟩, -⟩
      exact absurd ((h t hst.1).symm.trans (h t' hb)) (by simpa using Ne.symm heq)
    | emplace =>
      -- needs the mutex free, and hands it to the new entry
      rcases hother t' heq ht' with hb | ⟨-, rfl⟩
      · simp [MutexStep, h t' hb] at hst
      · rfl
    | _ =>
      -- another thread held it already, and this step neither took nor released it
      rcases hother t' heq ht' with hb | ⟨⟨⟩, -⟩
      exact h t' hb

/-! ## Each thread's use of the mutex -/

variable {cfg : Config} {s : Executor} {e : Event}

/-- The events of tasks leave the mutex alone. -/
theorem Event.mutexStep_of_ofTask (h : e.ofTask) (m : Option Tid) (b : Bool) : MutexStep m b b e := by
  cases e <;> simp_all [Event.ofTask, Event.ofSchedule, MutexStep]

theorem WorkerMove.mutexStep {w w' : Worker} (hm : WorkerMove cfg s w w' e) :
    MutexStep s.threadsMutex w.pc.holdsMutex w'.pc.holdsMutex e := by
  cases hm with
  | level hpc hl =>
    rw [WorkerPc.holdsMutex_afterLevel, hpc]
    exact Event.mutexStep_of_ofTask hl.ofTask _ false
  | launch ok hpc | loop hpc | stopped hpc | retireCheck hpc | markStopped hpc =>
    split <;> simp [hpc, MutexStep, WorkerPc.holdsMutex]
  | guardPending hpc => split <;> simp [hpc, MutexStep, WorkerPc.holdsMutex]
  | _ => simp_all [MutexStep, WorkerPc.holdsMutex]

/-- A worker's step starts no controller. -/
theorem WorkerMove.ne_startController {w w' : Worker} (hm : WorkerMove cfg s w w' e) : e ≠ .startController := by
  cases hm with
  | level _ hl => have := hl.ofTask; rintro rfl; simp [Event.ofTask, Event.ofSchedule] at this
  | guardPending => split <;> simp
  | _ => simp

/-- What a step of the owning thread can do: it changes no counter and not the
queue, and it uses the mutex as `MutexStep` allows. -/
theorem MainPc.step_event {m m' : MainPc} {c : Choice} (h : m.step cfg s c = some (m', e)) :
    e.ofControl ∧ MutexStep s.threadsMutex m.holdsMutex m'.holdsMutex e := by
  cases c <;> cases m <;> simp [MainPc.step] at h <;> (try split_ifs at h) <;>
    (try simp only [Option.some.injEq, Prod.mk.injEq] at h) <;> (try casesm* _ ∧ _) <;> subst_vars <;>
    simp_all [MutexStep, MainPc.holdsMutex, Event.ofControl]

/-- What an action of `_getThreadTimerTotal` can do: take the mutex, sum under
it and release it. -/
theorem TimerTotalPc.step_event {tt : TimerTotalPc} {which : ThreadTimer} {r : TimerTotalPc ⊕ Int}
    (h : tt.step s which = some (r, e)) :
    e.ofControl ∧ e ≠ .startController ∧
      MutexStep s.threadsMutex tt.holdsMutex (r.elim TimerTotalPc.holdsMutex fun _ => false) e := by
  cases tt <;> simp [TimerTotalPc.step] at h <;> casesm* _ ∧ _ <;> subst_vars <;>
    simp_all [MutexStep, TimerTotalPc.holdsMutex, Event.ofControl]

/-- What a step of the controller can do: it changes no counter and not the
queue, it starts no thread, and it uses the mutex as `MutexStep` allows. -/
theorem Controller.step_event {x x' : Controller} {c : Choice} (h : x.step cfg s c = some (x', e)) :
    e.ofControl ∧ e ≠ .startController ∧ MutexStep s.threadsMutex x.pc.holdsMutex x'.pc.holdsMutex e := by
  rcases x with ⟨pc, _, _, _, _⟩
  cases c <;> try (simp [Controller.step] at h; done)
  cases pc with
  | initExecuting tt | initRunning tt | spentExecuting tt | spentRunning _ tt =>
    simp only [Controller.step] at h
    obtain ⟨⟨r, e'⟩, ht, h⟩ := Option.map_eq_some'.mp h
    have := TimerTotalPc.step_event ht
    cases r <;> simp only [Prod.mk.injEq] at h <;> obtain ⟨rfl, rfl⟩ := h <;>
      simpa [ControllerPc.holdsMutex] using this
  | stuckSpawn | refillSpawn | starvedSpawn =>
    simp only [Controller.step] at h
    split_ifs at h <;> simp only [Option.some.injEq, Prod.mk.injEq, reduceCtorEq] at h <;>
      obtain ⟨rfl, rfl⟩ := h <;> simp_all [MutexStep, ControllerPc.holdsMutex, Event.ofControl]
  | idle | done => simp [Controller.step] at h
  | _ =>
    simp only [Controller.step] at h
    (try split_ifs at h) <;> simp only [Option.some.injEq, Prod.mk.injEq, reduceCtorEq] at h <;>
      obtain ⟨rfl, rfl⟩ := h <;> refine ⟨rfl, by simp, ?_⟩ <;> (repeat' split) <;> rfl

/-- A step of an outside thread is a step of `schedule`. -/
theorem ClientPc.step_ofSchedule {p p' : ClientPc} {c : Choice} (h : p.step cfg s c = some (p', e)) :
    e.ofSchedule := by
  cases c with
  | schedule f t =>
    cases p <;> simp only [ClientPc.step, Option.some.injEq, Prod.mk.injEq, reduceCtorEq] at h
    rw [← h.2]
    rfl
  | next =>
    cases p with
    | scheduling c =>
      obtain ⟨⟨r, e'⟩, hc, h⟩ := Option.bind_eq_some.mp h
      have := (Call.step_move hc).ofSchedule
      cases r <;> simp only [Option.some.injEq, Prod.mk.injEq, reduceCtorEq] at h <;> rw [← h.2] <;>
        exact this
    | _ => simp [ClientPc.step] at h
  | _ => simp [ClientPc.step] at h

/-! ## Mutual exclusion over every run -/

/-- The step of thread `t` from `s` to `s₁.apply t e`, where `s₁` is `s` with
only `t`'s own state changed, keeps `MutexOk` when it uses the mutex as
`MutexStep` allows. -/
theorem MutexOk.thread {s s₁ : Executor} {t : Tid} (h : MutexOk s)
    (hmx : s₁.threadsMutex = s.threadsMutex) (hlen : s₁.workers.length = s.workers.length)
    (hsame : ∀ t', t' ≠ t → s₁.holds t' = s.holds t')
    (hst : MutexStep s.threadsMutex (s.holds t) ((s₁.apply t e).holds t) e) : MutexOk (s₁.apply t e) :=
  h.step hst (by rw [apply_threadsMutex, apply_threadsMutex, hmx, hlen]) fun t' ht h' => by
    rcases holds_apply h' with h' | h'
    · exact .inl (hsame t' ht ▸ h')
    · exact .inr (hlen ▸ h')

/-- Every step of the executor keeps `MutexOk`. -/
theorem ExecMove.mutexOk {s' : Executor} {a : Action} (hm : ExecMove cfg s a s' e) (h : MutexOk s) :
    MutexOk s' := by
  cases hm with
  | tick => exact h
  | main hs =>
    refine h.thread rfl rfl (fun t' ht => ?_) (by simpa [Executor.holds] using (MainPc.step_event hs).2)
    cases t' <;> first | rfl | exact absurd rfl ht
  | controller hs =>
    obtain ⟨-, hc, hst⟩ := Controller.step_event hs
    refine h.thread rfl rfl (fun t' ht => ?_) (by simpa [Executor.holds, hc] using hst)
    cases t' <;> first | rfl | exact absurd rfl ht
  | @worker _ i w w' _ hw hs =>
    have hi : i < s.workers.length := (List.getElem?_eq_some_iff.mp hw).1
    refine h.thread rfl (by simp) (fun t' ht => ?_) ?_
    · cases t' with
      | worker j =>
        have : i ≠ j := fun h => ht (h ▸ rfl)
        simp [Executor.holds, List.getElem?_set_ne this]
      | _ => rfl
    · have h' : ((s.workers.set i w' ++ [Worker.fresh])[i]?) = some w' := by
        rw [List.getElem?_append_left (by simpa using hi)]
        simp [hi]
      have := hs.mutexStep
      simp only [Executor.holds, hw, Option.any_some, apply_workers]
      split <;> simp_all
  | client hp hs =>
    refine h.thread rfl rfl (fun t' ht => ?_) (Event.mutexStep_of_ofTask (by simp [Event.ofTask, ClientPc.step_ofSchedule hs]) _ _)
    cases t' <;> rfl

/-- In every reachable state, every thread inside a critical section owns the
mutex: there is at most one such thread. -/
theorem MutexOk.reachable {s : Executor} (hs : Reachable cfg s) : MutexOk s :=
  Reachable.invariant MutexOk (fun n t h => by
    cases t <;> simp_all [Executor.init, Executor.holds, MainPc.holdsMutex, ControllerPc.holdsMutex])
    (fun _ _ _ _ _ h hm => hm.mutexOk h) hs

end AdaptiveExecutor
