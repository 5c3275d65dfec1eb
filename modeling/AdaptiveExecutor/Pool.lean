import AdaptiveExecutor.Tasks
import Mathlib.Data.Multiset.Basic

/-!
# The Task Pool

Seen from above, `schedule` and the reactor implement a pool of wrapped tasks.
A call hands its wrapper over, either by posting it to the queue or by
dispatching it on the calling worker. The wrapper stays in the pool until its
guard counts it in `_totalExecuted`. `Pool.Step` says exactly that, and nothing
about threads, stacks or the order in which wrappers run.

`Executor.pool` reads the pool off the executor: the wrappers waiting in the
reactor's queue and those on the workers' stacks, with `_totalExecuted`. Every
step of every thread, in any interleaving, is a step of the pool
(`ExecMove.poolStep`), and so every run of the executor is a run of the pool
(`Run.refinesPool`). A worker that takes a wrapper from the queue only moves
it onto its stack. A wrapper leaves the pool exactly when `_totalExecuted`
counts it, also when its task throws and the exception leaves the `schedule`
that dispatched it. No other step adds or removes a wrapper. So no wrapper is
lost and none is counted twice: over every run from a fresh executor,
`_totalExecuted` plus the wrappers still in the pool is the number of wrappers
handed over (`totalExecuted_add_wrappers`).

## Main definitions

* `Event.submits`: The event hands a wrapper to the reactor.
* `Pool`, `Pool.Step`, `Pool.Run`: The task pool, its steps and its runs.
* `Worker.wrappers`, `Executor.wrappers`: The wrappers on a stack, and all the
  wrappers handed over and not finished.
* `Executor.pool`: The pool the executor implements.

## Theorems

* `Pool.Step.add`: A step of part of the pool is a step of the whole.
* `Pool.Step.count`: A step adds to the pool's size and count exactly what it
  hands over.
* `LevelMove.poolStep`, `WorkerMove.poolStep`, `ClientPc.step_poolStep`: The
  steps of wrappers, workers and outside threads are pool steps.
* `ExecMove.poolStep`: Every step of the executor is a step of the pool.
* `Run.refinesPool`: Every run of the executor is a run of the pool.
* `totalExecuted_add_wrappers`: Over every run, `_totalExecuted` plus the
  wrappers in the pool is the number handed over.
-/

namespace AdaptiveExecutor

/-- The event hands a wrapper to the reactor: `post` queues it, and a dispatch
runs it on the calling worker. -/
def Event.submits : Event → Bool
  | .post _ | .dispatch _ => true
  | _ => false

/-- The task pool: the wrappers handed to the reactor that have not finished,
and how many have finished. -/
structure Pool where
  alive : Multiset Wrapped
  executed : Int

/-- One step of the pool, labelled with the event that takes it: a wrapper is
handed over, a wrapper of the pool finishes and is counted, or the pool stays as
it is. -/
inductive Pool.Step : Event → Pool → Pool → Prop
  | submit {e : Event} (x : Wrapped) (p : Pool) (he : e = .post x ∨ e = .dispatch x.deferred) :
      Pool.Step e p ⟨x ::ₘ p.alive, p.executed⟩
  | finish (x : Wrapped) (m : Multiset Wrapped) (n : Int) :
      Pool.Step .executedIncrement ⟨x ::ₘ m, n⟩ ⟨m, n + 1⟩
  | skip {e : Event} (p : Pool) (he : e.submits = false) (hx : e ≠ .executedIncrement) :
      Pool.Step e p p

namespace Pool.Step

variable {e : Event} {p p' : Pool}

/-- A step of part of the pool is a step of the whole: the other wrappers stay. -/
theorem add (h : Pool.Step e p p') (b : Multiset Wrapped) :
    Pool.Step e ⟨p.alive + b, p.executed⟩ ⟨p'.alive + b, p'.executed⟩ := by
  cases h with
  | submit x p he => rw [Multiset.cons_add]; exact .submit x _ he
  | finish x m n => rw [Multiset.cons_add]; exact .finish x _ n
  | skip p he hx => exact .skip _ he hx

/-- A step adds to the pool's size and count exactly what it hands over. -/
theorem count (h : Pool.Step e p p') :
    p'.executed + Multiset.card p'.alive = p.executed + Multiset.card p.alive + if e.submits then 1 else 0 := by
  cases h with
  | submit x p he => rcases he with rfl | rfl <;> simp [Event.submits] <;> omega
  | finish x m n => simp [Event.submits]; omega
  | skip p he _ => simp [he]

end Pool.Step

/-- The pool's runs: its steps one after another, with their events. -/
inductive Pool.Run : List Event → Pool → Pool → Prop
  | refl (p : Pool) : Pool.Run [] p p
  | step {es : List Event} {e : Event} {p p' p'' : Pool} :
      Pool.Run es p p' → Pool.Step e p' p'' → Pool.Run (es ++ [e]) p p''

/-- The wrappers on a worker's stack. -/
def Worker.wrappers (w : Worker) : Multiset Wrapped := (w.pc.levels.map Level.wrapped : List Wrapped)

/-- The wrappers handed to the reactor and not finished: waiting in the queue,
or on a worker's stack. -/
def Executor.wrappers (s : Executor) : Multiset Wrapped :=
  (s.queue : Multiset Wrapped) + (s.workers.map Worker.wrappers).sum

/-- The pool the executor implements. -/
def Executor.pool (s : Executor) : Pool := ⟨s.wrappers, s.counters .totalExecuted⟩

/-- Only the guard's last action counts a task executed. -/
theorem Event.delta_totalExecuted (e : Event) :
    e.delta .totalExecuted = if e = .executedIncrement then 1 else 0 := by
  cases e <;> first | rfl | (cases ‹Bool› <;> rfl)

/-- The wrapper below a finished inline task is the same wrapper. -/
@[simp] theorem Level.wrapped_resume (exn : Bool) (l : Level) : (l.resume exn).wrapped = l.wrapped := by
  unfold Level.resume
  split <;> (try split) <;> rfl

/-- Replacing one entry of a list splits a sum over it into the entry's share
and a rest that stays. -/
theorem sum_map_set_split {α M : Type} [AddCommMonoid M] (f : α → M) (x : α) :
    ∀ {l : List α} {i : Nat} {y : α}, l[i]? = some y →
      ∃ r, (l.map f).sum = f y + r ∧ ((l.set i x).map f).sum = f x + r
  | _ :: l, 0, _, h => by
    simp only [List.getElem?_cons_zero, Option.some.injEq] at h
    subst h
    exact ⟨(l.map f).sum, by simp, by simp⟩
  | z :: _, _ + 1, _, h => by
    obtain ⟨r, h1, h2⟩ := sum_map_set_split f x (by simpa using h)
    exact ⟨f z + r, by rw [List.map_cons, List.sum_cons, h1, add_left_comm],
      by rw [List.set_cons_succ, List.map_cons, List.sum_cons, h2, add_left_comm]⟩

section Steps

variable {cfg : Config} {s : Executor} {e : Event}

/-- A step that hands over no wrapper and finishes none. -/
theorem Pool.Step.skip_of_eq {p p' : Pool} (he : e.submits = false) (hx : e ≠ .executedIncrement)
    (h : p' = p) : Pool.Step e p p' :=
  h ▸ .skip p he hx

/-- A step that hands over `x`. -/
theorem Pool.Step.submit_of_eq {p p' : Pool} {x : Wrapped} (he : e = .post x ∨ e = .dispatch x.deferred)
    (h : p' = ⟨x ::ₘ p.alive, p.executed⟩) : Pool.Step e p p' :=
  h ▸ .submit x p he

/-- A step that finishes `x`. -/
theorem Pool.Step.finish_of_eq {p p' : Pool} (x : Wrapped) (ha : p.alive = x ::ₘ p'.alive)
    (hn : p'.executed = p.executed + 1) : Pool.Step .executedIncrement p p' := by
  rcases p with ⟨_, n⟩
  rcases p' with ⟨m, _⟩
  simp only at ha hn
  subst ha hn
  exact .finish x m n

/-- A step of the innermost wrapper: a `schedule` call posts or dispatches a
wrapper, the guard's last action finishes the wrapper, and every other action
keeps the same wrappers. -/
theorem LevelMove.poolStep {w w' : Worker} {l : Level} {r : LevelStep} (rest : List Level)
    (q : List Wrapped) (n : Int) (hm : LevelMove cfg s w l w' r e) :
    Pool.Step e ⟨(q : Multiset Wrapped) + ((l :: rest).map Level.wrapped : List Wrapped), n⟩
      ⟨(e.queueAfter q : Multiset Wrapped) + ((Level.stack rest r).map Level.wrapped : List Wrapped),
        n + e.delta .totalExecuted⟩ := by
  cases hm with
  | callNext hc =>
    cases hc with
    | post => exact .submit_of_eq (.inl rfl) (by simp [Level.stack, Event.queueAfter, Event.delta_totalExecuted])
    | _ => exact .skip_of_eq rfl (by simp) (by simp [Level.stack, Event.queueAfter, Event.delta_totalExecuted])
  | @callInline _ _ c _ _ _ _ hc =>
    cases hc with
    | @dispatch t _ _ _ _ _ =>
      exact .submit_of_eq (x := ⟨c.task, t, c.flags.deferredTask⟩) (.inr rfl)
        (by simp [Level.stack, Event.queueAfter, Event.delta_totalExecuted])
  | callDone hc =>
    cases hc <;> exact .skip_of_eq rfl (by simp) (by simp [Level.stack, Event.queueAfter, Event.delta_totalExecuted])
  | @executed x _ =>
    refine .finish_of_eq x ?_ (by simp [Event.delta_totalExecuted])
    -- the wrapper below, if any, resumes: the stack loses exactly `x`
    have hstack : (Level.stack rest (.finish ‹Bool›)).map Level.wrapped = rest.map Level.wrapped := by
      cases rest <;> simp [Level.stack]
    simp only [hstack, List.map_cons, ← Multiset.cons_coe, Multiset.add_cons, Event.queueAfter]
  | _ => exact .skip_of_eq rfl (by simp) (by simp [Level.stack, Event.queueAfter, Event.delta_totalExecuted])

/-- The wrappers `post` adds to the queue. -/
theorem coe_add_singleton (q : List Wrapped) (x : Wrapped) :
    (q : Multiset Wrapped) + {x} = ((x :: q : List Wrapped) : Multiset Wrapped) := by
  rw [add_comm]
  simp

/-- A step of `schedule` on a thread with no stack: it posts its wrapper, or
hands over nothing. Such a thread never dispatches. -/
theorem CallMove.poolStep {c : Call} {r : CallStep} (q : List Wrapped) (n : Int)
    (hm : CallMove cfg s none c r e) :
    Pool.Step e ⟨(q : Multiset Wrapped), n⟩ ⟨(e.queueAfter q : Multiset Wrapped), n + e.delta .totalExecuted⟩ := by
  cases hm with
  | post => exact .submit_of_eq (.inl rfl) (by simp [Event.queueAfter, Event.delta_totalExecuted])
  | dispatch _ _ hd => cases hd
  | _ => exact .skip_of_eq rfl (by simp) (by simp [Event.queueAfter, Event.delta_totalExecuted])

/-- A step of a worker: a wrapper it takes from the queue only moves onto its
stack, and its wrappers' steps are pool steps. -/
theorem WorkerMove.poolStep {w w' : Worker} (n : Int) (hm : WorkerMove cfg s w w' e) :
    Pool.Step e ⟨(s.queue : Multiset Wrapped) + w.wrappers, n⟩
      ⟨(e.queueAfter s.queue : Multiset Wrapped) + w'.wrappers, n + e.delta .totalExecuted⟩ := by
  cases hm with
  | @level _ _ _ rest _ _ hpc hl =>
    simp only [Worker.wrappers, hpc, WorkerPc.levels_afterLevel]
    exact hl.poolStep rest s.queue n
  | pop hpc _ hq =>
    exact .skip_of_eq rfl (by simp) (by
      simp [Worker.wrappers, hpc, hq, WorkerPc.levels, Event.queueAfter, Event.delta_totalExecuted,
        coe_add_singleton])
  | launch _ hpc | loop hpc | stopped hpc | markStopped hpc | retireCheck hpc =>
    split <;> exact .skip_of_eq rfl (by simp) (by
      simp [Worker.wrappers, hpc, WorkerPc.levels, Event.queueAfter, Event.delta_totalExecuted])
  | guardPending hpc =>
    split <;> exact .skip_of_eq rfl (by simp) (by
      simp [Worker.wrappers, hpc, WorkerPc.levels, Event.queueAfter, Event.delta_totalExecuted])
  | _ => exact .skip_of_eq rfl (by simp) (by
      simp [Worker.wrappers, WorkerPc.levels, Event.queueAfter, Event.delta_totalExecuted, *])

/-- A step of an outside thread: a new call hands over nothing, and the call's
steps post its wrapper or hand over nothing. -/
theorem ClientPc.step_poolStep {p p' : ClientPc} {ch : Choice} (q : List Wrapped) (n : Int)
    (h : p.step cfg s ch = some (p', e)) :
    Pool.Step e ⟨(q : Multiset Wrapped), n⟩ ⟨(e.queueAfter q : Multiset Wrapped), n + e.delta .totalExecuted⟩ := by
  cases ch with
  | schedule flags task =>
    cases p <;> simp only [ClientPc.step, Option.some.injEq, Prod.mk.injEq, reduceCtorEq] at h
    obtain ⟨-, rfl⟩ := h
    exact .skip_of_eq rfl (by simp) (by simp [Event.queueAfter, Event.delta_totalExecuted])
  | next =>
    cases p with
    | scheduling c =>
      obtain ⟨⟨r, e'⟩, hc, h⟩ := Option.bind_eq_some.mp h
      have he : e = e' := by
        cases r <;> simp only [Option.some.injEq, Prod.mk.injEq, reduceCtorEq] at h <;> exact h.2.symm
      exact he ▸ (Call.step_move hc).poolStep q n
    | _ => simp [ClientPc.step] at h
  | _ => simp [ClientPc.step] at h

end Steps

section Exec

variable {cfg : Config} {s s' : Executor} {e : Event}

/-- The threads that run no task hand over no wrapper and finish none. -/
theorem Event.submits_of_ofControl (h : e.ofControl) : e.submits = false ∧ e ≠ .executedIncrement := by
  cases e <;> simp_all [Event.ofControl, Event.submits]

@[simp] theorem Worker.wrappers_fresh : Worker.fresh.wrappers = 0 := rfl

/-- The pool after an event: the queue as the event leaves it, the stacks as
they were (a new entry has none), and the event's count. -/
theorem Executor.pool_apply (s : Executor) (t : Tid) (e : Event) :
    (s.apply t e).pool = ⟨(e.queueAfter s.queue : Multiset Wrapped) + (s.workers.map Worker.wrappers).sum,
      s.counters .totalExecuted + e.delta .totalExecuted⟩ := by
  simp only [Executor.pool, Executor.wrappers, apply_queue, apply_workers, apply_counters]
  split <;> simp

/-- Every step of the executor, in any interleaving, is a step of the task pool. -/
theorem ExecMove.poolStep {a : Action} (hm : ExecMove cfg s a s' e) : Pool.Step e s.pool s'.pool := by
  cases hm with
  | tick d => exact .skip _ rfl (by simp)
  | main hs | controller hs =>
    first
    | have hc := (MainPc.step_event hs).1
    | have hc := (Controller.step_event hs).1
    rw [Executor.pool_apply]
    exact .skip_of_eq (Event.submits_of_ofControl hc).1 (Event.submits_of_ofControl hc).2 (by
      simp [Executor.pool, Executor.wrappers, Event.queueAfter_of_ofControl hc, Event.delta_of_ofControl hc])
  | @worker _ i w w' _ hi hs =>
    obtain ⟨r, h1, h2⟩ := sum_map_set_split Worker.wrappers w' hi
    rw [Executor.pool_apply]
    simp only [Executor.pool, Executor.wrappers, h1, h2, ← add_assoc]
    exact (hs.poolStep (s.counters .totalExecuted)).add r
  | client _ hs =>
    rw [Executor.pool_apply]
    exact (ClientPc.step_poolStep s.queue (s.counters .totalExecuted) hs).add (s.workers.map Worker.wrappers).sum

/-- The executor refines the task pool: every run of the executor, from any
state and in any interleaving, is a run of the pool with the same events. -/
theorem Run.refinesPool {es : List (Action × Event)} (h : Run cfg s es s') :
    Pool.Run (es.map Prod.snd) s.pool s'.pool := by
  induction h with
  | refl => exact .refl _
  | step _ hst ih =>
    rw [List.map_append, List.map_singleton]
    exact ih.step (Executor.step_move hst).poolStep

theorem Run.refinesPool_demo : Pool.Run (demoEvents.map Prod.snd) (Executor.init 1).pool demoState.pool :=
  Run.refinesPool demoRun

end Exec

/-- No wrapper is lost and none is counted twice: over every run from a fresh
executor, `_totalExecuted` plus the wrappers still queued or on a stack is the
number of wrappers posted or dispatched. -/
theorem totalExecuted_add_wrappers {cfg : Config} {n : Nat} {es : List (Action × Event)} {s : Executor}
    (h : Run cfg (Executor.init n) es s) :
    s.counters .totalExecuted + Multiset.card s.wrappers = es.countP fun p => p.2.submits := by
  induction h with
  | refl => simp [Executor.init, Executor.wrappers]
  | @step _ _ _ a e _ hst ih =>
    have := ((Executor.step_move hst).poolStep).count
    simp only [Executor.pool] at this
    rw [List.countP_append, List.countP_singleton]
    cases hsub : e.submits <;> simp only [hsub, if_true, if_false, Bool.false_eq_true] at this ⊢ <;> omega

theorem totalExecuted_add_wrappers_demo :
    Run defaultConfig (Executor.init 1) demoEvents demoState ∧
      demoState.counters .totalExecuted + Multiset.card demoState.wrappers =
        demoEvents.countP fun p => p.2.submits :=
  ⟨demoRun, totalExecuted_add_wrappers demoRun⟩

end AdaptiveExecutor
