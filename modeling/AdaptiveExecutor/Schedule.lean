import AdaptiveExecutor.State

/-!
# Scheduling and Wrapped Tasks

`schedule`, the `wrappedTask` it builds, and the two helpers whose loads other
threads can interleave with: `_isStarved` and `_getThreadTimerTotal`.

`schedule` counts the task on the counter its flags pick before anything can
fail, so a call that finds the executor stopped has counted a task that never
runs. It then dispatches or posts the wrapper. A dispatch from a worker runs the
wrapper at once on the same stack (`CallStep.inline`); a thread outside the
reactor has no `ThreadState`, and a `kMayRecurse` call from it reads through the
null `_localThreadState` (`CallStep.fault`).

A wrapper uncounts its task, charges the time it spent queued, and then enters:
only the wrapper that finds `recursionDepth` at zero starts the executing
stopwatch and marks its thread in use, and only the one that brings the depth
back to zero undoes both. The guard runs on every exit, normal or not, and
counts the task executed.

## Main definitions

* `StarvedPc.step`: One load of `_isStarved`, or its answer.
* `TimerTotalPc.step`: One action of `_getThreadTimerTotal`, or its answer.
* `Call.step`: One action of `schedule`.
* `Level.step`: One action of a wrapped task.
* `Level.resume`: The wrapper below a finished inline task picks up again.
-/

namespace AdaptiveExecutor

/-- One load of `_isStarved`, or its answer: not starved while a thread is still
pending or no task is queued, otherwise starved when more tasks are queued than
threads are free. -/
def StarvedPc.step (s : Executor) : StarvedPc → StarvedPc ⊕ Bool
  | .loadPending => if s.counters .threadsPending > 0 then .inr false else .inl .loadTasks
  | .loadTasks =>
    let q := s.counters .tasksQueued
    if q = 0 then .inr false else .inl (.loadRunning q)
  | .loadRunning q => .inl (.loadInUse q (s.counters .threadsRunning))
  | .loadInUse q r => .inr (q > r - s.counters .threadsInUse)

/-- One action of `_getThreadTimerTotal(which)`, done by thread `me`, or its
answer: load the accumulator of exited threads, take the mutex, add every
listed entry's total and release the mutex. -/
def TimerTotalPc.step (s : Executor) (which : ThreadTimer) :
    TimerTotalPc → Option ((TimerTotalPc ⊕ Int) × Event)
  | .loadPast => some (.inl (.lock (s.counters (pastCounter which))), .silent)
  | .lock acc => if s.threadsMutex = none then some (.inl (.sum acc), .lock) else none
  | .sum acc => some (.inr (acc + s.liveTotal which), .unlock)

/-- What one action of `schedule` leads to. -/
inductive CallStep
  | next (c : Call)
  | inline (w : Wrapped) (c : Call)
  | done
  | fault
  deriving DecidableEq, Repr

/-- One action of `schedule`, by a thread whose `recursionDepth` is `depth`
(`none` for a thread with no `ThreadState`). The first action, the increment,
is taken by the caller when the call starts. -/
def Call.step (cfg : Config) (s : Executor) (depth : Option Int) (c : Call) :
    Option (CallStep × Event) :=
  match c.pc with
  | .checkRunning t =>
    some (if s.isRunning then .next { c with pc := .submit t } else .done, .silent)
  | .submit t =>
    let w : Wrapped := ⟨c.task, t, c.flags.deferredTask⟩
    if c.flags.mayRecurse then
      match depth with
      | none => some (.fault, .silent)
      | some d =>
        if d + 1 < cfg.options.recursionLimit then
          some (.inline w { c with pc := .dispatched }, .dispatch w.deferred)
        else some (.next { c with pc := .resetTimer }, .post w)
    else some (.next { c with pc := .resetTimer }, .post w)
  | .dispatched => none
  | .resetTimer => some (.next { c with pc := .totalQueued }, .resetScheduleTimer)
  | .totalQueued => some (.next { c with pc := .starved .loadPending }, .totalQueuedIncrement)
  | .starved st =>
    some (match st.step s with
      | .inl st' => .next { c with pc := .starved st' }
      | .inr starved => if starved && !c.flags.deferredTask then .next { c with pc := .notify } else .done,
      .silent)
  | .notify => some (.done, .notifySchedule)

/-- What one action of a wrapped task leads to: it goes on, a task it dispatched
starts on top of it, or it has returned (`exn` false) or unwound. -/
inductive LevelStep
  | next (l : Level)
  | push (l : Level) (child : Level)
  | finish (exn : Bool)
  deriving DecidableEq, Repr

/-- One action of the innermost wrapped task on worker `w`. -/
def Level.step (cfg : Config) (s : Executor) (w : Worker) (l : Level) :
    Option (Worker × LevelStep × Event) :=
  match l.pc with
  | .decrement => some (w, .next { l with pc := .spentQueued }, .wrapperDecrement l.wrapped.deferred)
  | .spentQueued =>
    some (w, .next { l with pc := .enter }, .spentQueued ((s.now : Int) - l.wrapped.scheduleTime))
  | .enter =>
    if w.recursionDepth = 0 then
      some ({ w with recursionDepth := 1, executing := w.executing.markRunning s.now },
        .next { l with pc := .markInUse }, .executingStart)
    else
      some ({ w with recursionDepth := w.recursionDepth + 1 },
        .next { l with pc := .body l.wrapped.task }, .silent)
  | .markInUse => some (w, .next { l with pc := .body l.wrapped.task }, .inUseIncrement)
  | .body .done => some (w, .next { l with pc := .leave false }, .silent)
  | .body .raise => some (w, .next { l with pc := .leave true }, .silent)
  | .body (.schedule f t catches n) =>
    some (w, .next { l with pc := .call ⟨f, t, .checkRunning s.now⟩ catches n },
      .scheduleIncrement f.deferredTask)
  | .call c catches n =>
    (c.step cfg s (some w.recursionDepth)).bind fun (r, e) =>
      match r with
      | .next c' => some (w, .next { l with pc := .call c' catches n }, e)
      | .inline x c' => some (w, .push { l with pc := .call c' catches n } ⟨x, .decrement⟩, e)
      | .done => some (w, .next { l with pc := .body n }, e)
      | .fault => none
  | .leave exn =>
    if w.recursionDepth - 1 = 0 then
      let stop := w.executing.markStopped s.now
      some ({ w with
          recursionDepth := 0, executing := stop.1, executingCurRun := w.executingCurRun + stop.2 },
        .next { l with pc := .unmarkInUse exn }, .executingStop stop.2)
    else
      some ({ w with recursionDepth := w.recursionDepth - 1 }, .next { l with pc := .executed exn }, .silent)
  | .unmarkInUse exn => some (w, .next { l with pc := .executed exn }, .inUseDecrement)
  | .executed exn => some (w, .finish exn, .executedIncrement)

/-- The wrapper whose `schedule` dispatched a task that has now finished. If the
task returned, `schedule` goes on; if it threw, the exception leaves `schedule`
and the caller either catches it or unwinds. -/
def Level.resume (exn : Bool) (l : Level) : Level :=
  match l.pc with
  | .call c catches n =>
    if exn then { l with pc := (if catches then .body n else .leave true) }
    else { l with pc := .call { c with pc := .resetTimer } catches n }
  | _ => l

/-! ## The actions, one by one -/

/-- The events of `schedule`. They touch the task counters, `_totalQueued`, the
reactor's queue and the schedule timer, and nothing else. -/
def Event.ofSchedule : Event → Bool
  | .silent | .notifySchedule | .post _ | .dispatch _ | .resetScheduleTimer | .scheduleIncrement _
  | .totalQueuedIncrement => true
  | _ => false

/-- The events of a wrapped task: those of `schedule`, and those of the wrapper
around the task, which touch `_threadsInUse`, `_totalExecuted`,
`_totalSpentQueued` and the executing stopwatch. -/
def Event.ofTask (e : Event) : Bool :=
  e.ofSchedule ||
    match e with
    | .wrapperDecrement _ | .spentQueued _ | .executingStart | .executingStop _ | .inUseIncrement
    | .inUseDecrement | .executedIncrement => true
    | _ => false

/-- Each action of `schedule`, with what it leads to and its event. -/
inductive CallMove (cfg : Config) (s : Executor) (depth : Option Int) : Call → CallStep → Event → Prop
  | proceed {c : Call} {t : Nat} (hpc : c.pc = .checkRunning t) (hr : s.isRunning = true) :
      CallMove cfg s depth c (.next { c with pc := .submit t }) .silent
  | reject {c : Call} {t : Nat} (hpc : c.pc = .checkRunning t) (hr : s.isRunning = false) :
      CallMove cfg s depth c .done .silent
  | dispatch {c : Call} {t : Nat} {d : Int} (hpc : c.pc = .submit t) (hm : c.flags.mayRecurse = true)
      (hd : depth = some d) (hlt : d + 1 < cfg.options.recursionLimit) :
      CallMove cfg s depth c (.inline ⟨c.task, t, c.flags.deferredTask⟩ { c with pc := .dispatched })
        (.dispatch c.flags.deferredTask)
  | post {c : Call} {t : Nat} (hpc : c.pc = .submit t)
      (hn : c.flags.mayRecurse = true → ∃ d, depth = some d ∧ ¬ d + 1 < cfg.options.recursionLimit) :
      CallMove cfg s depth c (.next { c with pc := .resetTimer }) (.post ⟨c.task, t, c.flags.deferredTask⟩)
  | fault {c : Call} {t : Nat} (hpc : c.pc = .submit t) (hm : c.flags.mayRecurse = true)
      (hd : depth = none) : CallMove cfg s depth c .fault .silent
  | resetTimer {c : Call} (hpc : c.pc = .resetTimer) :
      CallMove cfg s depth c (.next { c with pc := .totalQueued }) .resetScheduleTimer
  | totalQueued {c : Call} (hpc : c.pc = .totalQueued) :
      CallMove cfg s depth c (.next { c with pc := .starved .loadPending }) .totalQueuedIncrement
  | starved {c : Call} {st st' : StarvedPc} (hpc : c.pc = .starved st) (h : st.step s = .inl st') :
      CallMove cfg s depth c (.next { c with pc := .starved st' }) .silent
  | starve {c : Call} {st : StarvedPc} (hpc : c.pc = .starved st) (h : st.step s = .inr true)
      (hd : c.flags.deferredTask = false) : CallMove cfg s depth c (.next { c with pc := .notify }) .silent
  | answered {c : Call} {st : StarvedPc} {b : Bool} (hpc : c.pc = .starved st) (h : st.step s = .inr b)
      (hb : (b && !c.flags.deferredTask) = false) : CallMove cfg s depth c .done .silent
  | notify {c : Call} (hpc : c.pc = .notify) : CallMove cfg s depth c .done .notifySchedule

theorem Call.step_move {cfg : Config} {s : Executor} {depth : Option Int} {c : Call}
    {r : CallStep} {e : Event} (h : c.step cfg s depth = some (r, e)) : CallMove cfg s depth c r e := by
  rcases c with ⟨f, t, pc⟩
  cases pc with
  | checkRunning t =>
    cases hr : s.isRunning <;> simp [Call.step, hr] at h <;> obtain ⟨rfl, rfl⟩ := h
    · exact .reject rfl hr
    · exact .proceed rfl hr
  | submit t =>
    simp only [Call.step] at h
    split_ifs at h with hm
    · cases depth with
      | none => simp at h; obtain ⟨rfl, rfl⟩ := h; exact .fault rfl hm rfl
      | some d =>
        simp only at h
        split_ifs at h with hlt <;> simp at h <;> obtain ⟨rfl, rfl⟩ := h
        · exact .dispatch rfl hm rfl hlt
        · exact .post rfl fun _ => ⟨d, rfl, hlt⟩
    · simp at h; obtain ⟨rfl, rfl⟩ := h; exact .post rfl fun h' => absurd h' hm
  | dispatched => simp [Call.step] at h
  | starved st =>
    simp only [Call.step, Option.some.injEq, Prod.mk.injEq] at h
    obtain ⟨rfl, rfl⟩ := h
    cases hst : st.step s with
    | inl st' => exact .starved rfl hst
    | inr b =>
      cases hb : b && !f.deferredTask
      · simpa [hb] using CallMove.answered (c := ⟨f, t, _⟩) rfl hst hb
      · obtain ⟨rfl, hd⟩ : b = true ∧ f.deferredTask = false := by simpa using hb
        simpa [hd] using CallMove.starve (c := ⟨f, t, _⟩) rfl hst hd
  | resetTimer | totalQueued | notify =>
    simp only [Call.step, Option.some.injEq, Prod.mk.injEq] at h
    obtain ⟨rfl, rfl⟩ := h
    first | exact .resetTimer rfl | exact .totalQueued rfl | exact .notify rfl

/-- `schedule` moves none of the counters of threads. -/
theorem Event.delta_of_ofSchedule {e : Event} (h : e.ofSchedule) {c : Counter}
    (hc : c = .threadsPending ∨ c = .threadsRunning ∨ c = .threadsInUse) : e.delta c = 0 := by
  rcases hc with rfl | rfl | rfl <;> cases e <;>
    first | rfl | (simp [Event.ofSchedule] at h; done) | (cases ‹Bool› <;> rfl)

/-- A wrapped task moves neither `_threadsPending` nor `_threadsRunning`. -/
theorem Event.delta_of_ofTask {e : Event} (h : e.ofTask) {c : Counter}
    (hc : c = .threadsPending ∨ c = .threadsRunning) : e.delta c = 0 := by
  rcases hc with rfl | rfl <;> cases e <;>
    first | rfl | (simp [Event.ofTask, Event.ofSchedule] at h; done) | (cases ‹Bool› <;> rfl)

theorem CallMove.ofSchedule {cfg : Config} {s : Executor} {depth : Option Int} {c : Call}
    {r : CallStep} {e : Event} (h : CallMove cfg s depth c r e) : e.ofSchedule := by
  cases h <;> rfl

/-- Each action of the innermost wrapped task on worker `w`, with the worker
after it, what it leads to and its event. -/
inductive LevelMove (cfg : Config) (s : Executor) : Worker → Level → Worker → LevelStep → Event → Prop
  | decrement {w : Worker} {x : Wrapped} :
      LevelMove cfg s w ⟨x, .decrement⟩ w (.next ⟨x, .spentQueued⟩) (.wrapperDecrement x.deferred)
  | spentQueued {w : Worker} {x : Wrapped} :
      LevelMove cfg s w ⟨x, .spentQueued⟩ w (.next ⟨x, .enter⟩)
        (.spentQueued ((s.now : Int) - x.scheduleTime))
  | enterOuter {w : Worker} {x : Wrapped} (h : w.recursionDepth = 0) :
      LevelMove cfg s w ⟨x, .enter⟩ { w with recursionDepth := 1, executing := w.executing.markRunning s.now }
        (.next ⟨x, .markInUse⟩) .executingStart
  | enterInner {w : Worker} {x : Wrapped} (h : w.recursionDepth ≠ 0) :
      LevelMove cfg s w ⟨x, .enter⟩ { w with recursionDepth := w.recursionDepth + 1 }
        (.next ⟨x, .body x.task⟩) .silent
  | markInUse {w : Worker} {x : Wrapped} :
      LevelMove cfg s w ⟨x, .markInUse⟩ w (.next ⟨x, .body x.task⟩) .inUseIncrement
  | done {w : Worker} {x : Wrapped} :
      LevelMove cfg s w ⟨x, .body .done⟩ w (.next ⟨x, .leave false⟩) .silent
  | raise {w : Worker} {x : Wrapped} :
      LevelMove cfg s w ⟨x, .body .raise⟩ w (.next ⟨x, .leave true⟩) .silent
  | schedule {w : Worker} {x : Wrapped} {f : ScheduleFlags} {t n : Task} {catches : Bool} :
      LevelMove cfg s w ⟨x, .body (.schedule f t catches n)⟩ w
        (.next ⟨x, .call ⟨f, t, .checkRunning s.now⟩ catches n⟩) (.scheduleIncrement f.deferredTask)
  | callNext {w : Worker} {x : Wrapped} {c c' : Call} {catches : Bool} {n : Task} {e : Event}
      (h : CallMove cfg s (some w.recursionDepth) c (.next c') e) :
      LevelMove cfg s w ⟨x, .call c catches n⟩ w (.next ⟨x, .call c' catches n⟩) e
  | callInline {w : Worker} {x y : Wrapped} {c c' : Call} {catches : Bool} {n : Task} {e : Event}
      (h : CallMove cfg s (some w.recursionDepth) c (.inline y c') e) :
      LevelMove cfg s w ⟨x, .call c catches n⟩ w (.push ⟨x, .call c' catches n⟩ ⟨y, .decrement⟩) e
  | callDone {w : Worker} {x : Wrapped} {c : Call} {catches : Bool} {n : Task} {e : Event}
      (h : CallMove cfg s (some w.recursionDepth) c .done e) :
      LevelMove cfg s w ⟨x, .call c catches n⟩ w (.next ⟨x, .body n⟩) e
  | leaveOuter {w : Worker} {x : Wrapped} {exn : Bool} (h : w.recursionDepth - 1 = 0) :
      LevelMove cfg s w ⟨x, .leave exn⟩
        { w with
          recursionDepth := 0
          executing := (w.executing.markStopped s.now).1
          executingCurRun := w.executingCurRun + (w.executing.markStopped s.now).2 }
        (.next ⟨x, .unmarkInUse exn⟩) (.executingStop (w.executing.markStopped s.now).2)
  | leaveInner {w : Worker} {x : Wrapped} {exn : Bool} (h : w.recursionDepth - 1 ≠ 0) :
      LevelMove cfg s w ⟨x, .leave exn⟩ { w with recursionDepth := w.recursionDepth - 1 }
        (.next ⟨x, .executed exn⟩) .silent
  | unmarkInUse {w : Worker} {x : Wrapped} {exn : Bool} :
      LevelMove cfg s w ⟨x, .unmarkInUse exn⟩ w (.next ⟨x, .executed exn⟩) .inUseDecrement
  | executed {w : Worker} {x : Wrapped} {exn : Bool} :
      LevelMove cfg s w ⟨x, .executed exn⟩ w (.finish exn) .executedIncrement

theorem Level.step_move {cfg : Config} {s : Executor} {w w' : Worker} {l : Level} {r : LevelStep}
    {e : Event} (h : l.step cfg s w = some (w', r, e)) : LevelMove cfg s w l w' r e := by
  rcases l with ⟨x, pc⟩
  cases pc with
  | enter =>
    simp only [Level.step] at h
    split_ifs at h with h0 <;> simp only [Option.some.injEq, Prod.mk.injEq] at h <;>
      obtain ⟨rfl, rfl, rfl⟩ := h
    · exact .enterOuter h0
    · exact .enterInner h0
  | leave exn =>
    simp only [Level.step] at h
    split_ifs at h with h0 <;> simp only [Option.some.injEq, Prod.mk.injEq] at h <;>
      obtain ⟨rfl, rfl, rfl⟩ := h
    · exact .leaveOuter h0
    · exact .leaveInner h0
  | call c catches n =>
    simp only [Level.step] at h
    obtain ⟨⟨r', e'⟩, hc, h⟩ := Option.bind_eq_some.mp h
    have hm := Call.step_move hc
    cases r' <;> simp only [Option.some.injEq, Prod.mk.injEq, reduceCtorEq] at h <;>
      obtain ⟨rfl, rfl, rfl⟩ := h
    · exact .callNext hm
    · exact .callInline hm
    · exact .callDone hm
  | body t =>
    cases t <;> simp only [Level.step, Option.some.injEq, Prod.mk.injEq] at h <;>
      obtain ⟨rfl, rfl, rfl⟩ := h
    · exact .done
    · exact .raise
    · exact .schedule
  | unmarkInUse exn =>
    simp only [Level.step, Option.some.injEq, Prod.mk.injEq] at h
    obtain ⟨rfl, rfl, rfl⟩ := h
    exact .unmarkInUse
  | executed exn =>
    simp only [Level.step, Option.some.injEq, Prod.mk.injEq] at h
    obtain ⟨rfl, rfl, rfl⟩ := h
    exact .executed
  | decrement | spentQueued | markInUse =>
    simp only [Level.step, Option.some.injEq, Prod.mk.injEq] at h
    obtain ⟨rfl, rfl, rfl⟩ := h
    first | exact .decrement | exact .spentQueued | exact .markInUse

/-- A wrapped task never touches its worker's `stillPending`. -/
theorem LevelMove.stillPending_eq {cfg : Config} {s : Executor} {w w' : Worker} {l : Level}
    {r : LevelStep} {e : Event} (h : LevelMove cfg s w l w' r e) : w'.stillPending = w.stillPending := by
  cases h <;> rfl

theorem LevelMove.ofTask {cfg : Config} {s : Executor} {w w' : Worker} {l : Level} {r : LevelStep}
    {e : Event} (h : LevelMove cfg s w l w' r e) : e.ofTask := by
  cases h with
  | callNext h | callInline h | callDone h => simp [Event.ofTask, h.ofSchedule]
  | _ => rfl

end AdaptiveExecutor
