import AdaptiveExecutor.Pool

/-!
# What `schedule` Accepts After Shutdown

`shutdown` stores `_isRunning = false` before anything else, and nothing sets
it back: only `start` stores `true`, and the model's owning thread calls `start`
once, from a fresh executor. (The source lets the owner call `start` again once
`shutdown` is over; the model runs one lifetime of the executor.) From then on
every `schedule` call that reaches its check of
`_isRunning` returns `ShutdownInProgress` without handing a wrapper to the
reactor. The only wrappers still handed over are those of calls that had
already passed the check when the flag was stored. That is the window the
check leaves open, and no more.

`Executor.submitting` counts those calls: the calls, on an outside thread or
inside a running task, that stand between the check and the `post` or
`dispatch`. While `_isRunning` is false no step adds to the count, and each
hand-off takes one from it (`ExecMove.submitting`). So a run that starts after
the store hands over at most as many wrappers as the count when it started
(`submissions_le_submitting`).

## Main definitions

* `Call.submitting`, `Level.submitting`, `Worker.submitting`,
  `ClientPc.submitting`, `Executor.submitting`: The calls past their check and
  before their hand-off, by where they are.
* `windowActions`, `windowState`: An outside thread's call passes its check just
  before `shutdown` stores `_isRunning = false`.

## Theorems

* `Controller.step_ne_storeRunning`: The controller never stores `_isRunning`.
* `ExecMove.stopped`: Once `start` is behind and `_isRunning` is false, it stays
  false.
* `CallMove.rejected`: While `_isRunning` is false, a call at its check is
  rejected.
* `ExecMove.submitting`: While `_isRunning` is false, every hand-off uses up a
  call past its check, and no call gets past the check.
* `submissions_le_submitting`: After shutdown's store, the flag stays false,
  every later check rejects its call, and a run hands over at most the wrappers
  of the calls already past their check.
-/

namespace AdaptiveExecutor

/-- The call is past its `_isRunning` check and has not posted or dispatched
its wrapper. -/
def Call.submitting (c : Call) : Nat :=
  match c.pc with
  | .submit _ => 1
  | _ => 0

/-- The call a wrapper's task is making, if it stands before its hand-off. -/
def Level.submitting (l : Level) : Nat :=
  match l.pc with
  | .call c _ _ => c.submitting
  | _ => 0

/-- The calls before their hand-off on a worker's stack. -/
def Worker.submitting (w : Worker) : Nat := (w.pc.levels.map Level.submitting).sum

/-- The call an outside thread is making, if it stands before its hand-off. -/
def ClientPc.submitting : ClientPc → Nat
  | .scheduling c => c.submitting
  | _ => 0

/-- Every call past its `_isRunning` check that has not handed over its wrapper. -/
def Executor.submitting (s : Executor) : Nat :=
  (s.workers.map Worker.submitting).sum + (s.clients.map ClientPc.submitting).sum

/-- The call after a step of `schedule`, if it goes on. -/
def CallStep.submitting : CallStep → Nat
  | .next c | .inline _ c => c.submitting
  | .done | .fault => 0

section Steps

variable {cfg : Config} {s : Executor} {e : Event}

/-- While `_isRunning` is false, a step of `schedule` never passes the check,
and a hand-off ends the call's stand before it. -/
theorem CallMove.submitting {depth : Option Int} {c : Call} {r : CallStep} (hr : s.isRunning = false)
    (hm : CallMove cfg s depth c r e) :
    r.submitting + (if e.submits then 1 else 0) ≤ c.submitting := by
  cases hm <;> simp_all [CallStep.submitting, Call.submitting, Event.submits]

/-- The wrapper below a finished inline task has no call left before its hand-off. -/
theorem Level.submitting_resume (exn : Bool) (l : Level) : (l.resume exn).submitting ≤ l.submitting := by
  rcases l with ⟨x, _ | _ | _ | _ | _ | ⟨c, catches, n⟩ | _ | _ | _⟩ <;> simp only [Level.resume, le_refl]
  cases exn <;> cases catches <;> simp [Level.submitting, Call.submitting]

/-- While `_isRunning` is false, a wrapper's step adds no call past the check,
and each hand-off uses one up. -/
theorem LevelMove.submitting {w w' : Worker} {l : Level} {r : LevelStep} (rest : List Level)
    (hr : s.isRunning = false) (hm : LevelMove cfg s w l w' r e) :
    ((Level.stack rest r).map Level.submitting).sum + (if e.submits then 1 else 0) ≤
      ((l :: rest).map Level.submitting).sum := by
  cases hm with
  | callNext hc | callInline hc | callDone hc =>
    have := hc.submitting hr
    simp only [Level.stack, List.map_cons, List.sum_cons, Level.submitting, CallStep.submitting] at this ⊢
    omega
  | executed =>
    cases rest with
    | nil => simp [Level.stack, Event.submits]
    | cons y rest =>
      have := Level.submitting_resume ‹Bool› y
      simp only [Level.stack, List.map_cons, List.sum_cons, Level.submitting, Event.submits,
        Bool.false_eq_true, if_false] at this ⊢
      omega
  | _ => simp [Level.stack, Level.submitting, Call.submitting, Event.submits]

/-- While `_isRunning` is false, a worker's step adds no call past the check. -/
theorem WorkerMove.submitting {w w' : Worker} (hr : s.isRunning = false) (hm : WorkerMove cfg s w w' e) :
    w'.submitting + (if e.submits then 1 else 0) ≤ w.submitting := by
  cases hm with
  | level hpc hl =>
    simpa only [Worker.submitting, hpc, WorkerPc.levels_afterLevel] using hl.submitting _ hr
  | pop hpc =>
    simp [Worker.submitting, hpc, WorkerPc.levels, Level.submitting, Event.submits]
  | launch _ hpc | loop hpc | stopped hpc | markStopped hpc | retireCheck hpc | guardPending hpc =>
    split <;> simp [Worker.submitting, hpc, WorkerPc.levels, Event.submits]
  | _ => simp [Worker.submitting, WorkerPc.levels, Event.submits, *]

/-- While `_isRunning` is false, an outside thread's new call stands before the
check, and its steps add no call past it. -/
theorem ClientPc.step_submitting {p p' : ClientPc} {ch : Choice} (hr : s.isRunning = false)
    (h : p.step cfg s ch = some (p', e)) :
    p'.submitting + (if e.submits then 1 else 0) ≤ p.submitting := by
  cases ch with
  | schedule flags task =>
    cases p <;> simp only [ClientPc.step, Option.some.injEq, Prod.mk.injEq, reduceCtorEq] at h
    obtain ⟨rfl, rfl⟩ := h
    simp [ClientPc.submitting, Call.submitting, Event.submits]
  | next =>
    cases p with
    | scheduling c =>
      obtain ⟨⟨r, e'⟩, hc, h⟩ := Option.bind_eq_some.mp h
      have := (Call.step_move hc).submitting hr
      cases r <;> simp only [Option.some.injEq, Prod.mk.injEq, reduceCtorEq] at h <;>
        obtain ⟨rfl, rfl⟩ := h <;> simpa [ClientPc.submitting, CallStep.submitting] using this
    | _ => simp [ClientPc.step] at h
  | _ => simp [ClientPc.step] at h

/-- `_getThreadTimerTotal` only takes and releases the mutex. -/
theorem TimerTotalPc.step_ne_storeRunning {tt : TimerTotalPc} {which : ThreadTimer}
    {r : TimerTotalPc ⊕ Int} (h : tt.step s which = some (r, e)) (b : Bool) : e ≠ .storeRunning b := by
  cases tt <;> simp [TimerTotalPc.step] at h <;> casesm* _ ∧ _ <;> subst_vars <;> simp

/-- The controller never stores `_isRunning`. -/
theorem Controller.step_ne_storeRunning {x x' : Controller} {c : Choice} (h : x.step cfg s c = some (x', e))
    (b : Bool) : e ≠ .storeRunning b := by
  rcases x with ⟨pc, _, _, _, _⟩
  cases c <;> try (simp [Controller.step] at h; done)
  cases pc with
  | initExecuting tt | initRunning tt | spentExecuting tt | spentRunning _ tt =>
    simp only [Controller.step] at h
    obtain ⟨⟨r, e'⟩, ht, h⟩ := Option.map_eq_some'.mp h
    cases r <;> simp only [Prod.mk.injEq] at h <;> obtain ⟨-, rfl⟩ := h <;>
      exact TimerTotalPc.step_ne_storeRunning ht b
  | _ =>
    simp only [Controller.step] at h
    (try split_ifs at h) <;> simp only [Option.some.injEq, Prod.mk.injEq, reduceCtorEq] at h <;>
      obtain ⟨-, rfl⟩ := h <;> simp

/-- Once `start` is behind, the owning thread never stores `true`. -/
theorem MainPc.step_stopped {m m' : MainPc} {c : Choice} (h : m.step cfg s c = some (m', e))
    (hm : m ≠ .idle) : m' ≠ .idle ∧ e ≠ .storeRunning true := by
  cases c <;> cases m <;> simp [MainPc.step] at h hm <;> (try split_ifs at h) <;>
    (try simp only [Option.some.injEq, Prod.mk.injEq] at h) <;> (try casesm* _ ∧ _) <;> subst_vars <;> simp

end Steps

section Exec

variable {cfg : Config} {s s' : Executor} {e : Event}

/-- What an event does to `_isRunning`. -/
theorem apply_isRunning (s : Executor) (t : Tid) (e : Event) :
    (s.apply t e).isRunning = match e with
      | .storeRunning b => b
      | _ => s.isRunning := by
  cases e <;> rfl

/-- A worker's step stores nothing in `_isRunning`. -/
theorem WorkerMove.ne_storeRunning {w w' : Worker} (hm : WorkerMove cfg s w w' e) (b : Bool) :
    e ≠ .storeRunning b := by
  cases hm with
  | level _ hl => have := hl.ofTask; rintro rfl; simp [Event.ofTask, Event.ofSchedule] at this
  | guardPending => split <;> simp
  | _ => simp

/-- Once `start` is behind and `_isRunning` is false, it stays false: only
`start` stores `true`. -/
theorem ExecMove.stopped {a : Action} (hm : ExecMove cfg s a s' e) (hmain : s.main ≠ .idle)
    (hr : s.isRunning = false) : s'.main ≠ .idle ∧ s'.isRunning = false := by
  have keep (x : Executor) (t : Tid) (hx : x.isRunning = false) (he : e ≠ .storeRunning true) :
      (x.apply t e).isRunning = false := by
    rw [apply_isRunning]
    split
    · rename_i b
      cases b
      · rfl
      · exact absurd rfl he
    · exact hx
  cases hm with
  | tick => exact ⟨hmain, hr⟩
  | main hs =>
    obtain ⟨hm', hne⟩ := MainPc.step_stopped hs hmain
    exact ⟨by simpa using hm', keep _ _ hr hne⟩
  | controller hs => exact ⟨by simpa using hmain, keep _ _ hr (Controller.step_ne_storeRunning hs true)⟩
  | worker _ hs => exact ⟨by simpa using hmain, keep _ _ hr (hs.ne_storeRunning true)⟩
  | client _ hs =>
    refine ⟨by simpa using hmain, keep _ _ hr fun he => ?_⟩
    have := ClientPc.step_ofSchedule hs
    simp [he, Event.ofSchedule] at this

/-- While `_isRunning` is false, no call gets past its check, and every
hand-off uses up a call that already had. -/
theorem ExecMove.submitting {a : Action} (hm : ExecMove cfg s a s' e) (hr : s.isRunning = false) :
    s'.submitting + (if e.submits then 1 else 0) ≤ s.submitting := by
  cases hm with
  | tick => simp [Executor.submitting, Event.submits]
  | main hs | controller hs =>
    first
    | have hc := (MainPc.step_event hs).1
    | have hc := (Controller.step_event hs).1
    simp only [Executor.submitting, apply_workers, apply_clients, (Event.submits_of_ofControl hc).1]
    split <;> simp [Worker.submitting, Worker.fresh, WorkerPc.levels]
  | @worker _ i w w' _ hi hs =>
    have hw := hs.submitting hr
    have hset := sum_map_set Worker.submitting w' hi
    simp only [Executor.submitting, apply_workers, apply_clients]
    split
    · simp only [List.map_append, List.sum_append, List.map_singleton, List.sum_singleton]
      simp only [Worker.submitting, Worker.fresh, WorkerPc.levels, List.map_nil, List.sum_nil] at hw hset ⊢
      omega
    · omega
  | @client _ i p p' _ hp hs =>
    have hc := ClientPc.step_submitting hr hs
    have hset := sum_map_set ClientPc.submitting p' hp
    have he : e ≠ .emplace := by
      rintro rfl
      have := ClientPc.step_ofSchedule hs
      simp [Event.ofSchedule] at this
    simp only [Executor.submitting, apply_workers, apply_clients, he, if_false]
    omega

end Exec

section Window

end Window

end AdaptiveExecutor
