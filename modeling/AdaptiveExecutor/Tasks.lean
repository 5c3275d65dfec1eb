import AdaptiveExecutor.Ledger
import Mathlib.Algebra.BigOperators.Group.List

/-!
# Queued Tasks

`schedule` raises `_tasksQueued` (or `_deferredTasksQueued`, through
`pendingCounterPtr`) before it posts or dispatches anything, and the wrapper it
builds lowers the same counter as its first action. Nothing else touches either
counter, so each is the number of calls of its kind that have counted a task,
less the number of its kind's decrements (`Run.pendingCounter`).

Which wrappers have started is read off the executor, not off the decrements: a
wrapper has started once it has been handed over, by `post` or by a dispatch,
and no longer waits in the reactor's queue or at the top of a stack before its
decrement. Every step that starts a waiting wrapper is that wrapper's decrement,
of its own kind, and every step that adds one is a hand-off
(`ExecMove.unstartedWrappers`). So the decrements of each kind are exactly the
started wrappers of that kind (`Run.unstartedWrappers`).

That the difference is never negative needs an argument about where each
counted task is. A task is counted by its call and stays the call's until the
call posts or dispatches it; a posted wrapper waits in the reactor's queue until
a worker takes it, and a taken or dispatched wrapper sits at the top of a
worker's stack until it uncounts itself. A call rejected with
`ShutdownInProgress`, or one that faults, keeps its task counted for good.
`Executor.unstartedTasks` counts the tasks in the first three places, and no
step makes more of them than it adds to the counter (`ExecMove.unstartedTasks`).

## Main definitions

* `Call.holdsTask`: The call has counted its task and not handed it on.
* `Level.unstartedTasks`, `Worker.unstartedTasks`, `ClientPc.unstartedTasks`,
  `queuedTasks`, `Executor.unstartedTasks`: The counted tasks that have not
  started, by where they are.
* `eventTotal`: How many times an event occurs in a run, by any thread.
* `Event.handsOver`: The event hands a wrapper of a kind to the reactor.
* `Level.unstartedWrapper`, `Worker.unstartedWrappers`,
  `Executor.unstartedWrappers`: The wrappers handed over that have not started.
* `startedWrappers`: The wrappers a run has handed over and started.

## Theorems

* `ExecMove.counters`: A step adds its event's delta to every counter.
* `ExecMove.unstartedTasks`: No step makes more unstarted tasks than it counts.
* `unstartedTasks_le_pendingCounter`: The counter covers its unstarted tasks.
* `ExecMove.unstartedWrappers`: A step starts a wrapper exactly by its decrement,
  and adds one exactly by a hand-off.
* `Run.unstartedWrappers`: Over a run, the waiting wrappers and the decrements are
  the hand-offs.
* `tasksQueued_eq_scheduled_sub_started`: Each counter is the increments of its
  kind less the wrappers of its kind that have started, each started wrapper
  decremented its own kind's counter once, and neither counter is negative.
-/

namespace AdaptiveExecutor

/-- The reactor's queue after an event. -/
def Event.queueAfter (q : List Wrapped) : Event → List Wrapped
  | .post w => q ++ [w]
  | .pop => q.tail
  | _ => q

@[simp] theorem apply_queue (s : Executor) (t : Tid) (e : Event) :
    (s.apply t e).queue = e.queueAfter s.queue := by
  cases e <;> rfl

/-- The task of kind `k` a call of `schedule` has counted and not yet posted or
dispatched. -/
def Call.unstartedTasks (k : Bool) (c : Call) : Nat :=
  match c.pc with
  | .checkRunning _ | .submit _ => if c.flags.deferredTask = k then 1 else 0
  | _ => 0

/-- The counted tasks of kind `k` a wrapper holds: itself before its decrement,
or the task its `schedule` call holds. -/
def Level.unstartedTasks (k : Bool) (l : Level) : Nat :=
  match l.pc with
  | .decrement => if l.wrapped.deferred = k then 1 else 0
  | .call c _ _ => c.unstartedTasks k
  | _ => 0

/-- The counted tasks of kind `k` on a stack of wrappers. -/
def stackTasks (k : Bool) (levels : List Level) : Nat :=
  (levels.map (Level.unstartedTasks k)).sum

/-- The counted tasks of kind `k` on a worker's stack. -/
def Worker.unstartedTasks (k : Bool) (w : Worker) : Nat := stackTasks k w.pc.levels

/-- The counted task of kind `k` an outside thread's call holds. -/
def ClientPc.unstartedTasks (k : Bool) : ClientPc → Nat
  | .scheduling c => c.unstartedTasks k
  | _ => 0

/-- The wrappers of kind `k` in the reactor's queue. -/
def queuedTasks (k : Bool) (q : List Wrapped) : Nat := q.countP fun w => w.deferred = k

/-- The counted tasks of kind `k` that have not started: held by a call, in the
queue, or on a stack before their decrement. -/
def Executor.unstartedTasks (k : Bool) (s : Executor) : Nat :=
  queuedTasks k s.queue + (s.workers.map (Worker.unstartedTasks k)).sum +
    (s.clients.map (ClientPc.unstartedTasks k)).sum

/-- What a step of `schedule` leaves of its task: the call's, and a dispatched
wrapper's. -/
def CallStep.unstartedTasks (k : Bool) : CallStep → Nat
  | .next c => c.unstartedTasks k
  | .inline w c => (if w.deferred = k then 1 else 0) + c.unstartedTasks k
  | .done | .fault => 0

/-- How many times event `e` occurs in a run, by any thread. -/
def eventTotal (es : List (Action × Event)) (e : Event) : Nat := es.countP (·.2 = e)

@[simp] theorem eventTotal_nil (e : Event) : eventTotal [] e = 0 := rfl

@[simp] theorem eventTotal_snoc (es : List (Action × Event)) (a : Action) (e' e : Event) :
    eventTotal (es ++ [(a, e')]) e = eventTotal es e + if e' = e then 1 else 0 := by
  simp only [eventTotal, List.countP_append, List.countP_singleton]
  congr 1
  simp

@[simp] theorem queuedTasks_append (k : Bool) (q q' : List Wrapped) :
    queuedTasks k (q ++ q') = queuedTasks k q + queuedTasks k q' := List.countP_append _ _ _

@[simp] theorem queuedTasks_nil (k : Bool) : queuedTasks k [] = 0 := rfl

@[simp] theorem queuedTasks_cons (k : Bool) (w : Wrapped) (q : List Wrapped) :
    queuedTasks k (w :: q) = queuedTasks k q + if w.deferred = k then 1 else 0 := by
  simp [queuedTasks, List.countP_cons]

@[simp] theorem stackTasks_nil (k : Bool) : stackTasks k [] = 0 := rfl

@[simp] theorem stackTasks_cons (k : Bool) (l : Level) (levels : List Level) :
    stackTasks k (l :: levels) = l.unstartedTasks k + stackTasks k levels := List.sum_cons

/-- Only `schedule` and the wrapper's decrement move a task counter. -/
theorem Event.delta_pendingCounter (e : Event) (k : Bool) :
    e.delta (pendingCounter k) =
      (if e = .scheduleIncrement k then 1 else 0) - (if e = .wrapperDecrement k then 1 else 0) := by
  cases e with
  | scheduleIncrement k' | wrapperDecrement k' => cases k <;> cases k' <;> rfl
  | _ => rw [if_neg nofun, if_neg nofun]; cases k <;> rfl

/-- A wrapper that picks up after its inline task holds no task of its own. -/
theorem Level.unstartedTasks_resume (k exn : Bool) (l : Level) :
    (l.resume exn).unstartedTasks k ≤ l.unstartedTasks k := by
  rcases l with ⟨x, _ | _ | _ | _ | _ | ⟨c, catches, n⟩ | _ | _ | _⟩ <;> simp only [Level.resume, le_refl]
  cases exn <;> cases catches <;> simp [Level.unstartedTasks, Call.unstartedTasks]

/-- Replacing one entry of a list moves a sum over it by the entry's change. -/
theorem sum_map_set {α : Type} (f : α → Nat) (x : α) :
    ∀ {l : List α} {i : Nat} {y : α}, l[i]? = some y →
      ((l.set i x).map f).sum + f y = (l.map f).sum + f x
  | _ :: _, 0, _, h => by simp only [List.getElem?_cons_zero, Option.some.injEq] at h; subst h; simp; omega
  | _ :: _, _ + 1, _, h => by
    simp only [List.getElem?_cons_succ] at h
    simp only [List.set_cons_succ, List.map_cons, List.sum_cons]
    have := sum_map_set f x h
    omega

/-! ## Where a step puts the tasks -/

section Steps

variable {cfg : Config} {s : Executor} {k : Bool} {e : Event}

/-- A step of `schedule` hands its task on to the queue or to a dispatched
wrapper, keeps it, or drops it. -/
theorem CallMove.unstartedTasks {depth : Option Int} {c : Call} {r : CallStep} (q : List Wrapped)
    (hm : CallMove cfg s depth c r e) :
    queuedTasks k (e.queueAfter q) + r.unstartedTasks k ≤ queuedTasks k q + c.unstartedTasks k := by
  cases hm <;> simp [Event.queueAfter, CallStep.unstartedTasks, Call.unstartedTasks, *]

/-- A step of the innermost wrapper: its `schedule` counts a task, its
decrement uncounts one, and every other step moves tasks without making any. -/
theorem LevelMove.unstartedTasks {w w' : Worker} {l : Level} {r : LevelStep} (rest : List Level)
    (q : List Wrapped) (hm : LevelMove cfg s w l w' r e) :
    queuedTasks k (e.queueAfter q) + stackTasks k (Level.stack rest r) + (if e = .wrapperDecrement k then 1 else 0) ≤
      queuedTasks k q + stackTasks k (l :: rest) + (if e = .scheduleIncrement k then 1 else 0) := by
  cases hm with
  | callNext hc | callInline hc | callDone hc =>
    have := hc.unstartedTasks (k := k) q
    have hne : e ≠ .wrapperDecrement k ∧ e ≠ .scheduleIncrement k := by cases hc <;> simp
    simp only [Level.stack, stackTasks_cons, Level.unstartedTasks, CallStep.unstartedTasks, hne, if_false] at this ⊢
    omega
  | executed =>
    cases rest with
    | nil => simp [Level.stack, Event.queueAfter]
    | cons l' rest =>
      have := Level.unstartedTasks_resume k ‹Bool› l'
      simp only [Level.stack, stackTasks_cons, Event.queueAfter, reduceCtorEq, if_false]
      simp only [Level.unstartedTasks] at this ⊢
      omega
  | decrement | schedule =>
    simp only [Level.stack, stackTasks_cons, Level.unstartedTasks, Call.unstartedTasks, Event.queueAfter,
      Event.wrapperDecrement.injEq, Event.scheduleIncrement.injEq, reduceCtorEq, if_false]
    split_ifs <;> omega
  | _ => simp [Level.stack, Level.unstartedTasks, Event.queueAfter]

/-- A step of a worker: taking a wrapper from the queue moves its task onto the
stack, and every other step outside a wrapper moves no task. -/
theorem WorkerMove.unstartedTasks {w w' : Worker} (hm : WorkerMove cfg s w w' e) :
    queuedTasks k (e.queueAfter s.queue) + w'.unstartedTasks k + (if e = .wrapperDecrement k then 1 else 0) ≤
      queuedTasks k s.queue + w.unstartedTasks k + (if e = .scheduleIncrement k then 1 else 0) := by
  cases hm with
  | level hpc hl =>
    simpa [Worker.unstartedTasks, hpc] using hl.unstartedTasks _ s.queue
  | pop hpc _ hq =>
    simp [Worker.unstartedTasks, hpc, hq, WorkerPc.levels, Event.queueAfter, Level.unstartedTasks]
  | guardPending hpc =>
    split <;> simp [Worker.unstartedTasks, hpc, WorkerPc.levels, Event.queueAfter]
  | launch _ hpc | loop hpc | stopped hpc | markStopped hpc | retireCheck hpc =>
    split <;> simp [Worker.unstartedTasks, hpc, WorkerPc.levels, Event.queueAfter]
  | _ => simp [Worker.unstartedTasks, WorkerPc.levels, Event.queueAfter, *]

/-- A step of an outside thread: a new call counts its task, and the call's
steps move it. -/
theorem ClientPc.step_unstartedTasks {p p' : ClientPc} {ch : Choice} (h : p.step cfg s ch = some (p', e)) :
    queuedTasks k (e.queueAfter s.queue) + p'.unstartedTasks k + (if e = .wrapperDecrement k then 1 else 0) ≤
      queuedTasks k s.queue + p.unstartedTasks k + (if e = .scheduleIncrement k then 1 else 0) := by
  cases ch with
  | schedule flags task =>
    cases p <;> simp only [ClientPc.step, Option.some.injEq, Prod.mk.injEq, reduceCtorEq] at h
    obtain ⟨rfl, rfl⟩ := h
    simp [ClientPc.unstartedTasks, Call.unstartedTasks, Event.queueAfter]
  | next =>
    cases p with
    | scheduling c =>
      obtain ⟨⟨r, e'⟩, hc, h⟩ := Option.bind_eq_some.mp h
      have hm := Call.step_move hc
      have := hm.unstartedTasks (k := k) s.queue
      have he := hm.ofSchedule
      cases r <;> simp only [Option.some.injEq, Prod.mk.injEq, reduceCtorEq] at h <;>
        obtain ⟨rfl, rfl⟩ := h <;>
        cases hm <;> simp_all [ClientPc.unstartedTasks, CallStep.unstartedTasks, Event.queueAfter]
    | _ => simp [ClientPc.step] at h
  | _ => simp [ClientPc.step] at h

end Steps

/-! ## The wrappers that have started -/

/-- The event hands a wrapper of kind `k` to the reactor: `post` queues it, and
a dispatch runs it on the calling worker. -/
def Event.handsOver (k : Bool) : Event → Bool
  | .post x => x.deferred = k
  | .dispatch k' => k' = k
  | _ => false

/-- The wrapper is of kind `k` and has not started: it stands before its
decrement. -/
def Level.unstartedWrapper (k : Bool) (l : Level) : Nat :=
  match l.pc with
  | .decrement => if l.wrapped.deferred = k then 1 else 0
  | _ => 0

/-- The wrappers of kind `k` on a stack that have not started. -/
def stackWrappers (k : Bool) (levels : List Level) : Nat :=
  (levels.map (Level.unstartedWrapper k)).sum

/-- The wrappers of kind `k` on a worker's stack that have not started. -/
def Worker.unstartedWrappers (k : Bool) (w : Worker) : Nat := stackWrappers k w.pc.levels

/-- The wrappers of kind `k` handed over that have not started: waiting in the
reactor's queue, or on a stack before their decrement. -/
def Executor.unstartedWrappers (k : Bool) (s : Executor) : Nat :=
  queuedTasks k s.queue + (s.workers.map (Worker.unstartedWrappers k)).sum

/-- The wrapper a step of `schedule` dispatches, if it is of kind `k`. -/
def CallStep.unstartedWrapper (k : Bool) : CallStep → Nat
  | .inline y _ => if y.deferred = k then 1 else 0
  | _ => 0

/-- The wrappers of kind `k` a run has started: those it handed over that no
longer wait in the queue or before their decrement. -/
def startedWrappers (k : Bool) (es : List (Action × Event)) (s : Executor) : Nat :=
  (es.countP fun p => p.2.handsOver k) - s.unstartedWrappers k

@[simp] theorem stackWrappers_nil (k : Bool) : stackWrappers k [] = 0 := rfl

@[simp] theorem stackWrappers_cons (k : Bool) (l : Level) (levels : List Level) :
    stackWrappers k (l :: levels) = l.unstartedWrapper k + stackWrappers k levels := List.sum_cons

/-- A wrapper that picks up after its inline task was past its decrement, and
still is. -/
@[simp] theorem Level.unstartedWrapper_resume (k exn : Bool) (l : Level) :
    (l.resume exn).unstartedWrapper k = l.unstartedWrapper k := by
  rcases l with ⟨x, _ | _ | _ | _ | _ | ⟨c, catches, n⟩ | _ | _ | _⟩ <;> simp only [Level.resume]
  cases exn <;> cases catches <;> rfl

section Steps

variable {cfg : Config} {s : Executor} {k : Bool} {e : Event}

/-- A step of `schedule` hands a wrapper over by posting it to the queue or by
dispatching it, and does nothing else to the wrappers. -/
theorem CallMove.unstartedWrappers {depth : Option Int} {c : Call} {r : CallStep} (q : List Wrapped)
    (hm : CallMove cfg s depth c r e) :
    queuedTasks k (e.queueAfter q) + r.unstartedWrapper k = queuedTasks k q + if e.handsOver k then 1 else 0 := by
  cases hm <;> simp [Event.queueAfter, CallStep.unstartedWrapper, Event.handsOver]

/-- A step of the innermost wrapper: its decrement starts it, its `schedule`
call hands a wrapper over, and every other step leaves the waiting wrappers
alone. -/
theorem LevelMove.unstartedWrappers {w w' : Worker} {l : Level} {r : LevelStep} (rest : List Level)
    (q : List Wrapped) (hm : LevelMove cfg s w l w' r e) :
    queuedTasks k (e.queueAfter q) + stackWrappers k (Level.stack rest r) +
        (if e = .wrapperDecrement k then 1 else 0) =
      queuedTasks k q + stackWrappers k (l :: rest) + if e.handsOver k then 1 else 0 := by
  cases hm with
  | callNext hc | callInline hc | callDone hc =>
    have := hc.unstartedWrappers (k := k) q
    have hne : e ≠ .wrapperDecrement k := by cases hc <;> simp
    simp only [Level.stack, stackWrappers_cons, Level.unstartedWrapper, CallStep.unstartedWrapper, hne,
      if_false] at this ⊢
    omega
  | executed => cases rest <;> simp [Level.stack, Event.queueAfter, Event.handsOver] <;> rfl
  | decrement => simp [Level.stack, Level.unstartedWrapper, Event.queueAfter, Event.handsOver]; omega
  | _ => simp [Level.stack, Level.unstartedWrapper, Event.queueAfter, Event.handsOver]

/-- A step of a worker: taking a wrapper from the queue moves it onto the stack,
still before its decrement. -/
theorem WorkerMove.unstartedWrappers {w w' : Worker} (hm : WorkerMove cfg s w w' e) :
    queuedTasks k (e.queueAfter s.queue) + w'.unstartedWrappers k + (if e = .wrapperDecrement k then 1 else 0) =
      queuedTasks k s.queue + w.unstartedWrappers k + if e.handsOver k then 1 else 0 := by
  cases hm with
  | level hpc hl => simpa [Worker.unstartedWrappers, hpc] using hl.unstartedWrappers _ s.queue
  | pop hpc _ hq =>
    simp [Worker.unstartedWrappers, hpc, hq, WorkerPc.levels, Event.queueAfter, Event.handsOver,
      Level.unstartedWrapper]
  | guardPending hpc | launch _ hpc | loop hpc | stopped hpc | markStopped hpc | retireCheck hpc =>
    split <;> simp [Worker.unstartedWrappers, hpc, WorkerPc.levels, Event.queueAfter, Event.handsOver]
  | _ => simp [Worker.unstartedWrappers, WorkerPc.levels, Event.queueAfter, Event.handsOver, *]

/-- A step of an outside thread hands a wrapper over only by posting it. -/
theorem ClientPc.step_unstartedWrappers {p p' : ClientPc} {ch : Choice} (h : p.step cfg s ch = some (p', e)) :
    queuedTasks k (e.queueAfter s.queue) + (if e = .wrapperDecrement k then 1 else 0) =
      queuedTasks k s.queue + if e.handsOver k then 1 else 0 := by
  cases ch with
  | schedule flags task =>
    cases p <;> simp only [ClientPc.step, Option.some.injEq, Prod.mk.injEq, reduceCtorEq] at h
    obtain ⟨-, rfl⟩ := h
    simp [Event.queueAfter, Event.handsOver]
  | next =>
    cases p with
    | scheduling c =>
      obtain ⟨⟨r, e'⟩, hc, h⟩ := Option.bind_eq_some.mp h
      have hm := Call.step_move hc
      have := hm.unstartedWrappers (k := k) s.queue
      have hne : e' ≠ .wrapperDecrement k := by cases hm <;> simp
      cases r <;> simp only [Option.some.injEq, Prod.mk.injEq, reduceCtorEq] at h <;>
        obtain ⟨-, rfl⟩ := h <;> simpa [CallStep.unstartedWrapper, hne] using this
    | _ => simp [ClientPc.step] at h
  | _ => simp [ClientPc.step] at h

end Steps

/-! ## The whole executor -/

section Exec

variable {cfg : Config} {s s' : Executor} {e : Event}

/-- A step adds its event's delta to every counter. -/
theorem ExecMove.counters {a : Action} (hm : ExecMove cfg s a s' e) (c : Counter) :
    s'.counters c = s.counters c + e.delta c := by
  cases hm with
  | tick => cases c <;> simp [Event.delta]
  | _ => rfl

/-- The queue is only changed by posting and taking, which the threads that run
no task never do. -/
theorem Event.queueAfter_of_ofControl (h : e.ofControl) (q : List Wrapped) : e.queueAfter q = q := by
  cases e <;> simp_all [Event.ofControl, Event.queueAfter]

@[simp] theorem Worker.unstartedTasks_fresh (k : Bool) : Worker.fresh.unstartedTasks k = 0 := rfl

/-- The workers' share of a count after a step of another thread: at most a new
entry, which holds nothing. -/
theorem sum_map_workers_apply (f : Worker → Nat) (hf : f Worker.fresh = 0) (s : Executor) (t : Tid) :
    ((s.apply t e).workers.map f).sum = (s.workers.map f).sum := by
  rw [apply_workers]
  split <;> simp [hf]

theorem Executor.unstartedTasks_apply_ofControl (h : e.ofControl) (s : Executor) (t : Tid) (k : Bool) :
    (s.apply t e).unstartedTasks k = s.unstartedTasks k := by
  simp only [Executor.unstartedTasks, apply_queue, Event.queueAfter_of_ofControl h, apply_clients,
    sum_map_workers_apply _ (Worker.unstartedTasks_fresh k)]

/-- The threads that run no task neither count nor start one. -/
theorem Event.ne_of_ofControl (h : e.ofControl) (k : Bool) :
    e ≠ .wrapperDecrement k ∧ e ≠ .scheduleIncrement k := by
  cases e <;> simp_all [Event.ofControl]

/-- No step makes more unstarted tasks than it counts. -/
theorem ExecMove.unstartedTasks {a : Action} (hm : ExecMove cfg s a s' e) (k : Bool) :
    s'.unstartedTasks k + (if e = .wrapperDecrement k then 1 else 0) ≤
      s.unstartedTasks k + (if e = .scheduleIncrement k then 1 else 0) := by
  cases hm with
  | tick => simp [Executor.unstartedTasks]
  | main hs =>
    have hc := (MainPc.step_event hs).1
    rw [Executor.unstartedTasks_apply_ofControl hc]
    simp [Event.ne_of_ofControl hc k, Executor.unstartedTasks]
  | controller hs =>
    have hc := (Controller.step_event hs).1
    rw [Executor.unstartedTasks_apply_ofControl hc]
    simp [Event.ne_of_ofControl hc k, Executor.unstartedTasks]
  | @worker _ i w w' _ hi hs =>
    have hw := hs.unstartedTasks (k := k)
    have hset := sum_map_set (Worker.unstartedTasks k) w' hi
    simp only [Executor.unstartedTasks, apply_queue, apply_clients,
      sum_map_workers_apply _ (Worker.unstartedTasks_fresh k)]
    omega
  | @client _ i p p' _ hp hs =>
    have hc := ClientPc.step_unstartedTasks (k := k) hs
    have hset := sum_map_set (ClientPc.unstartedTasks k) p' hp
    simp only [Executor.unstartedTasks, apply_queue, apply_clients,
      sum_map_workers_apply _ (Worker.unstartedTasks_fresh k)]
    omega

/-- Every counted task that has not started is still counted. -/
theorem unstartedTasks_le_pendingCounter (hs : Reachable cfg s) (k : Bool) :
    (s.unstartedTasks k : Int) ≤ s.counters (pendingCounter k) := by
  refine Reachable.invariant (fun s => (s.unstartedTasks k : Int) ≤ s.counters (pendingCounter k))
    (fun n => by simp [Executor.unstartedTasks, Executor.init, ClientPc.unstartedTasks, List.sum_replicate])
    (fun s s' a e _ h hm => ?_) hs
  have := hm.unstartedTasks k
  show (s'.unstartedTasks k : Int) ≤ s'.counters (pendingCounter k)
  rw [hm.counters, Event.delta_pendingCounter]
  split_ifs at this ⊢ <;> omega

/-- The counters of tasks over a run: each counts its kind's calls less its
kind's started wrappers. -/
theorem Run.pendingCounter {n : Nat} {es : List (Action × Event)} (h : Run cfg (Executor.init n) es s)
    (k : Bool) :
    s.counters (pendingCounter k) =
      (eventTotal es (.scheduleIncrement k) : Int) - eventTotal es (.wrapperDecrement k) := by
  induction h with
  | refl => simp [Executor.init]
  | step _ hst ih =>
    rw [(Executor.step_move hst).counters, ih, Event.delta_pendingCounter]
    simp only [eventTotal_snoc]
    split_ifs <;> simp_all <;> omega

/-- The threads that run no task hand no wrapper over. -/
theorem Event.handsOver_of_ofControl (h : e.ofControl) (k : Bool) : e.handsOver k = false := by
  cases e <;> simp_all [Event.ofControl, Event.handsOver]

@[simp] theorem Worker.unstartedWrappers_fresh (k : Bool) : Worker.fresh.unstartedWrappers k = 0 := rfl

/-- A step starts a waiting wrapper exactly when it is that wrapper's decrement,
and adds one exactly when it hands one over. -/
theorem ExecMove.unstartedWrappers {a : Action} (hm : ExecMove cfg s a s' e) (k : Bool) :
    s'.unstartedWrappers k + (if e = .wrapperDecrement k then 1 else 0) =
      s.unstartedWrappers k + if e.handsOver k then 1 else 0 := by
  cases hm with
  | tick => simp [Executor.unstartedWrappers, Event.handsOver]
  | main hs | controller hs =>
    first
    | have hc := (MainPc.step_event hs).1
    | have hc := (Controller.step_event hs).1
    simp only [Executor.unstartedWrappers, apply_queue, Event.queueAfter_of_ofControl hc,
      sum_map_workers_apply _ (Worker.unstartedWrappers_fresh k)]
    simp [(Event.ne_of_ofControl hc k).1, Event.handsOver_of_ofControl hc]
  | @worker _ i w w' _ hi hs =>
    have hw := hs.unstartedWrappers (k := k)
    have hset := sum_map_set (Worker.unstartedWrappers k) w' hi
    simp only [Executor.unstartedWrappers, apply_queue,
      sum_map_workers_apply _ (Worker.unstartedWrappers_fresh k)]
    omega
  | client _ hs =>
    have hc := ClientPc.step_unstartedWrappers (k := k) hs
    simp only [Executor.unstartedWrappers, apply_queue,
      sum_map_workers_apply _ (Worker.unstartedWrappers_fresh k)]
    omega

/-- Over a run from a fresh executor, the wrappers still waiting and the
decrements together are the wrappers handed over. -/
theorem Run.unstartedWrappers {n : Nat} {es : List (Action × Event)} (h : Run cfg (Executor.init n) es s)
    (k : Bool) :
    s.unstartedWrappers k + eventTotal es (.wrapperDecrement k) = es.countP fun p => p.2.handsOver k := by
  induction h with
  | refl => simp [Executor.unstartedWrappers, Executor.init]
  | step _ hst ih =>
    have := (Executor.step_move hst).unstartedWrappers k
    simp only [eventTotal_snoc, List.countP_append, List.countP_singleton]
    omega

end Exec

/-- Each task counter is the calls of its kind that have counted a task, less
the wrappers of its kind that have started: handed over, and no longer waiting
in the queue or before their decrement. Each started wrapper has decremented its
own kind's counter once, and neither counter is ever negative. -/
theorem tasksQueued_eq_scheduled_sub_started {cfg : Config} {n : Nat} {es : List (Action × Event)}
    {s : Executor} (h : Run cfg (Executor.init n) es s) (k : Bool) :
    s.counters (pendingCounter k) = (eventTotal es (.scheduleIncrement k) : Int) - startedWrappers k es s ∧
      s.unstartedWrappers k ≤ (es.countP fun p => p.2.handsOver k) ∧
      eventTotal es (.wrapperDecrement k) = startedWrappers k es s ∧
      startedWrappers k es s ≤ eventTotal es (.scheduleIncrement k) ∧
      0 ≤ s.counters (pendingCounter k) := by
  have heq := h.pendingCounter k
  have hw := h.unstartedWrappers k
  have hle := unstartedTasks_le_pendingCounter (⟨n, es, h⟩ : Reachable cfg s) k
  have hst : eventTotal es (.wrapperDecrement k) = startedWrappers k es s := by
    unfold startedWrappers
    omega
  exact ⟨by rw [heq, hst], by omega, hst, by omega, by omega⟩

theorem tasksQueued_eq_scheduled_sub_started_demo :
    Run defaultConfig (Executor.init 1) demoEvents demoState ∧
      demoState.counters (pendingCounter false) =
        (eventTotal demoEvents (.scheduleIncrement false) : Int) - startedWrappers false demoEvents demoState ∧
      demoState.unstartedWrappers false ≤ (demoEvents.countP fun p => p.2.handsOver false) ∧
      eventTotal demoEvents (.wrapperDecrement false) = startedWrappers false demoEvents demoState ∧
      startedWrappers false demoEvents demoState ≤ eventTotal demoEvents (.scheduleIncrement false) ∧
      0 ≤ demoState.counters (pendingCounter false) :=
  ⟨demoRun, tasksQueued_eq_scheduled_sub_started demoRun false⟩

end AdaptiveExecutor
