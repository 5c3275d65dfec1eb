import AdaptiveExecutor.Tasks

/-!
# One Nest of Wrapped Tasks

A worker takes a wrapper from the reactor's queue, and everything that wrapper
dispatches runs inline on top of it, to any depth the recursion limit allows and
with any of the tasks throwing. While the stack is not empty, the worker's only
steps are its innermost wrapper's (`WorkerMove.nest`). `NestRun` is a run of
such steps, each taken in whatever state the other threads have left the
executor in, so a theorem about every `NestRun` covers every interleaving.
`Run.nestRun` reads the nest off any executor run that starts with the wrapper
on the worker's stack: the other threads' steps leave the worker's entry alone,
and the worker's own steps, up to the one that empties its stack, are the
nest's, with the worker's events.

Only the outermost wrapper finds `recursionDepth` at zero when it enters and
brings it back to zero when it leaves, so only it starts and stops the executing
stopwatch and marks and unmarks its thread in use. Each of these four actions
comes at a fixed point of the outermost wrapper's progress (`WrapperPc.phase`),
so the number of times each has happened is read off how far the outermost
wrapper has got (`NestOk`). Every wrapper of the nest, the outermost one and
each dispatched one, uncounts its task once and counts itself executed once.

## Main definitions

* `NestRun`: The steps of one worker's wrappers, in any states of the executor.
* `workerEvents`: The events of one worker's steps in an executor run.
* `WrapperPc.phase`, `outerPhase`: How far a wrapper, and the outermost
  wrapper of a stack, has got.
* `Event.phaseMark`: The phase the outermost wrapper reaches by a counted
  action.
* `stopTicks`: The ticks the executing stopwatch was stopped after.
* `NestOk`: What a nest has done, read off its stack.
* `caughtTask`, `caughtWrapper`: A task that dispatches a task that throws, and
  catches the exception.

## Theorems

* `WorkerMove.nest`: With wrappers on its stack, a worker only steps them.
* `Run.nestRun`: A worker's steps in an executor run, until its stack is empty,
  are a nest.
* `LevelMove.outerPhase_cross`: A counted action is exactly a crossing of its
  phase.
* `NestRun.nestOk`: Every nest satisfies `NestOk`.
* `nest_balanced`: When the outermost wrapper has returned or unwound, the depth
  is zero, each of the four actions has happened once, `executingCurRun` has
  grown by the one executing interval, and every wrapper has uncounted its task
  and been counted executed once.
-/

namespace AdaptiveExecutor

/-- The wrapper steps of one worker from the stack `levels₀`, with the events
they did. Each step is taken in some state of the executor; the steps of other
threads in between only change that state. -/
inductive NestRun (cfg : Config) (w₀ : Worker) (levels₀ : List Level) :
    List Event → Worker → List Level → Prop
  | refl : NestRun cfg w₀ levels₀ [] w₀ levels₀
  | step (s : Executor) {evs : List Event} {w w' : Worker} {l : Level} {rest : List Level}
      {r : LevelStep} {e : Event} :
      NestRun cfg w₀ levels₀ evs w (l :: rest) → LevelMove cfg s w l w' r e →
      NestRun cfg w₀ levels₀ (evs ++ [e]) w' (Level.stack rest r)

/-- With wrappers on its stack, a worker's only steps are its innermost
wrapper's: it cannot take another wrapper, end its slice or throw out of the
reactor. -/
theorem WorkerMove.nest {cfg : Config} {s : Executor} {w w' : Worker} {e : Event} {l : Level}
    {rest : List Level} {handled : Bool} (hm : WorkerMove cfg s w w' e) (hpc : w.pc = .run (l :: rest) handled) :
    ∃ w₁ r, LevelMove cfg s w l w₁ r e ∧ w' = { w₁ with pc := WorkerPc.afterLevel handled rest r } := by
  cases hm with
  | level h hl =>
    simp only [hpc, WorkerPc.run.injEq, List.cons.injEq] at h
    obtain ⟨⟨rfl, rfl⟩, rfl⟩ := h
    exact ⟨_, _, hl, rfl⟩
  | _ => simp_all

/-! ## From executor runs to nests -/

/-- The events of worker `i`'s steps in a run, in order. -/
def workerEvents (i : Nat) (es : List (Action × Event)) : List Event :=
  (es.filter fun p => p.1.tid = some (.worker i)).map Prod.snd

@[simp] theorem workerEvents_nil (i : Nat) : workerEvents i [] = [] := rfl

theorem workerEvents_snoc (i : Nat) (es : List (Action × Event)) (a : Action) (e : Event) :
    workerEvents i (es ++ [(a, e)]) = workerEvents i es ++ if a.tid = some (.worker i) then [e] else [] := by
  by_cases ha : a.tid = some (.worker i) <;> simp [workerEvents, ha]

section Bridge

variable {cfg : Config} {s s' : Executor} {a : Action} {e : Event} {i : Nat}

/-- A wrapper's step never reads its worker's program counter. -/
theorem LevelMove.setPc {w w' : Worker} {l : Level} {r : LevelStep} {p : WorkerPc}
    (hm : LevelMove cfg s { w with pc := p } l w' r e) : LevelMove cfg s w l { w' with pc := w.pc } r e := by
  cases hm <;> constructor <;> assumption

/-- While its stack is not empty, a worker runs it. -/
theorem WorkerPc.afterLevel_of_ne_nil {handled : Bool} {rest : List Level} {r : LevelStep}
    (h : Level.stack rest r ≠ []) : WorkerPc.afterLevel handled rest r = .run (Level.stack rest r) handled := by
  cases r with
  | next | push => rfl
  | finish exn =>
    cases rest with
    | nil => exact absurd rfl h
    | cons => rfl

/-- A worker with no wrapper gets one only by taking it from the queue. -/
theorem WorkerMove.levels_nil {w w' : Worker} (hm : WorkerMove cfg s w w' e) (h : w.pc.levels = [])
    (he : e ≠ .pop) : w'.pc.levels = [] := by
  cases hm with
  | level hpc => simp [hpc, WorkerPc.levels] at h
  | pop => exact absurd rfl he
  | launch | loop | stopped | markStopped | retireCheck => split <;> rfl
  | _ => rfl

/-- Applying an event keeps the entries that were there. -/
theorem workers_getElem?_apply (s : Executor) (t : Tid) (e : Event) (hi : i < s.workers.length) :
    (s.apply t e).workers[i]? = s.workers[i]? := by
  rw [apply_workers]
  split
  · exact List.getElem?_append_left hi
  · rfl

/-- Another thread's step leaves worker `i`'s entry alone. -/
theorem ExecMove.getElem?_other (hm : ExecMove cfg s a s' e) (ha : a.tid ≠ some (.worker i))
    (hi : i < s.workers.length) : s'.workers[i]? = s.workers[i]? := by
  cases hm with
  | tick => rfl
  | main | controller | client => exact workers_getElem?_apply _ _ _ hi
  | @worker _ j =>
    have hij : j ≠ i := fun h => ha (by simp [Action.tid, h])
    rw [workers_getElem?_apply _ _ _ (by simpa using hi), List.getElem?_set_ne hij]

/-- Worker `i`'s own step is one of its `WorkerMove`s. -/
theorem ExecMove.getElem?_self {v : Worker} (hm : ExecMove cfg s a s' e) (ha : a.tid = some (.worker i))
    (hv : s.workers[i]? = some v) : ∃ v', WorkerMove cfg s v v' e ∧ s'.workers[i]? = some v' := by
  cases hm with
  | @worker _ j w w' _ hw hs =>
    obtain rfl : j = i := by simpa [Action.tid] using ha
    obtain rfl : w = v := Option.some.inj (hw.symm.trans hv)
    have hi := (List.getElem?_eq_some_iff.mp hv).1
    exact ⟨w', hs, by rw [workers_getElem?_apply _ _ _ (by simpa using hi), List.getElem?_set_self hi]⟩
  | _ => simp [Action.tid] at ha

/-- The bridge from executor runs to nests. Worker `i`'s entry is `w₀` with the
stack `levels₀` when the run starts, and it takes no further wrapper from the
queue during the run. The worker's steps, up to the one that empties its stack,
are the steps of a nest, taken in the states the run passes through; its events
are the worker's. While the stack is not empty, the entry is the nest's worker
running the nest's stack; once it is empty, it stays so. -/
theorem Run.nestRun {es : List (Action × Event)} {w₀ : Worker} {levels₀ : List Level} {handled : Bool}
    (h : Run cfg s es s') (hw : s.workers[i]? = some { w₀ with pc := .run levels₀ handled })
    (hnp : .pop ∉ workerEvents i es) :
    ∃ evs w levels, NestRun cfg w₀ levels₀ evs w levels ∧ evs <+: workerEvents i es ∧
      ((levels = [] ∧ ∃ v, s'.workers[i]? = some v ∧ v.pc.levels = []) ∨
        (evs = workerEvents i es ∧ s'.workers[i]? = some { w with pc := .run levels handled })) := by
  induction h with
  | refl => exact ⟨[], w₀, levels₀, .refl, List.nil_prefix, .inr ⟨rfl, hw⟩⟩
  | @step s₁ s₂ es a e _ hst ih =>
    have hm := Executor.step_move hst
    rw [workerEvents_snoc] at hnp ⊢
    obtain ⟨evs, w, levels, hn, hpre, hcase⟩ := ih fun hp => hnp (List.mem_append_left _ hp)
    by_cases ha : a.tid = some (.worker i)
    · -- a step of worker `i`
      simp only [ha, if_true] at hnp ⊢
      have hne : e ≠ .pop := fun he => hnp (by simp [he])
      rcases hcase with ⟨rfl, v, hv, hlv⟩ | ⟨rfl, hw₁⟩
      · obtain ⟨v', hm', hv'⟩ := hm.getElem?_self ha hv
        exact ⟨_, _, _, hn, hpre.trans (List.prefix_append _ _), .inl ⟨rfl, v', hv', hm'.levels_nil hlv hne⟩⟩
      obtain ⟨v', hm', hv'⟩ := hm.getElem?_self ha hw₁
      cases levels with
      | nil => exact ⟨_, _, _, hn, List.prefix_append _ _, .inl ⟨rfl, v', hv', hm'.levels_nil rfl hne⟩⟩
      | cons l rest =>
        obtain ⟨w₁, r, hl, rfl⟩ := hm'.nest rfl
        have hn' := hn.step s₁ hl.setPc
        by_cases hs : Level.stack rest r = []
        · exact ⟨_, _, _, hn', List.prefix_refl _, .inl ⟨hs, _, hv', by simp [hs]⟩⟩
        · exact ⟨_, _, _, hn', List.prefix_refl _, .inr ⟨rfl, by rw [hv', WorkerPc.afterLevel_of_ne_nil hs]⟩⟩
    · -- another thread's step
      simp only [ha, if_false, List.append_nil]
      rcases hcase with ⟨rfl, v, hv, hlv⟩ | ⟨rfl, hw₁⟩
      · have hi := (List.getElem?_eq_some_iff.mp hv).1
        exact ⟨_, _, _, hn, hpre, .inl ⟨rfl, v, (hm.getElem?_other ha hi).trans hv, hlv⟩⟩
      · have hi := (List.getElem?_eq_some_iff.mp hw₁).1
        exact ⟨_, _, _, hn, hpre, .inr ⟨rfl, (hm.getElem?_other ha hi).trans hw₁⟩⟩

end Bridge

/-- How far a wrapper has got through its actions. -/
def WrapperPc.phase : WrapperPc → Nat
  | .decrement => 0
  | .spentQueued => 1
  | .enter => 2
  | .markInUse => 3
  | .body _ | .call _ _ _ => 4
  | .leave _ => 5
  | .unmarkInUse _ => 6
  | .executed _ => 7

/-- How far the outermost wrapper of a stack has got; once it has finished, it
is past everything. -/
def outerPhase (levels : List Level) : Nat :=
  (levels.getLast?.map fun l => l.pc.phase).getD 8

@[simp] theorem outerPhase_nil : outerPhase [] = 8 := rfl

@[simp] theorem outerPhase_singleton (l : Level) : outerPhase [l] = l.pc.phase := rfl

@[simp] theorem outerPhase_cons_cons (l y : Level) (rest : List Level) :
    outerPhase (l :: y :: rest) = outerPhase (y :: rest) := by
  simp [outerPhase, List.getLast?_cons_cons]

/-- The phase the outermost wrapper reaches by starting the executing stopwatch,
marking its thread in use, stopping the stopwatch and unmarking the thread. -/
def Event.phaseMark : Event → Option Nat
  | .executingStart => some 3
  | .inUseIncrement => some 4
  | .executingStop _ => some 6
  | .inUseDecrement => some 7
  | _ => none

/-- The ticks an `executingStop` stopped the stopwatch after. -/
def Event.stopTicks : Event → Nat
  | .executingStop d => d
  | _ => 0

/-- The ticks of every executing interval stopped in a run. -/
def stopTicks (evs : List Event) : Nat := (evs.map Event.stopTicks).sum

/-- `markStopped` was called on the executing stopwatch. -/
def Event.isExecutingStop (e : Event) : Bool := e.phaseMark = some 6

@[simp] theorem stopTicks_nil : stopTicks [] = 0 := rfl

@[simp] theorem stopTicks_snoc (evs : List Event) (e : Event) :
    stopTicks (evs ++ [e]) = stopTicks evs + e.stopTicks := by
  simp [stopTicks]

/-- A wrapper that picks up after its inline task is as far as it was, or
unwinding. -/
theorem Level.phase_resume {l : Level} (h : l.waiting) (exn : Bool) :
    l.pc.phase = 4 ∧ 4 ≤ (l.resume exn).pc.phase ∧ (l.resume exn).pc.phase ≤ 5 := by
  rcases l with ⟨_, _ | _ | _ | _ | _ | ⟨c, catches, n⟩ | _ | _ | _⟩ <;> simp [Level.waiting] at h
  cases exn <;> cases catches <;> simp [Level.resume, WrapperPc.phase]

/-- A wrapper waiting for its inline task, and the same wrapper picking up
again, are past their decrement. -/
theorem Level.ne_decrement_resume {l : Level} (h : l.waiting) (exn : Bool) :
    l.pc ≠ .decrement ∧ (l.resume exn).pc ≠ .decrement := by
  obtain ⟨h4, h4', -⟩ := Level.phase_resume h exn
  constructor <;> intro hd <;> simp [hd, WrapperPc.phase] at h4 h4'

/-- The events of `schedule` mark nothing. -/
theorem CallMove.phaseMark {cfg : Config} {s : Executor} {depth : Option Int} {c : Call} {r : CallStep}
    {e : Event} (hm : CallMove cfg s depth c r e) : e.phaseMark = none ∧ e.stopTicks = 0 := by
  cases hm <;> exact ⟨rfl, rfl⟩

section Steps

variable {cfg : Config} {s : Executor} {w w' : Worker} {l : Level} {rest : List Level} {r : LevelStep}
  {e : Event}

/-- Each of the four counted actions is the crossing of its phase by the
outermost wrapper. An inner wrapper never does one: it enters at a depth above
zero, leaves above one, and never marks its thread. -/
theorem LevelMove.outerPhase_cross (hm : LevelMove cfg s w l w' r e)
    (h : RunOk cfg.options.recursionLimit (l :: rest) w) (θ : Nat) (hθ : θ = 3 ∨ θ = 4 ∨ θ = 6 ∨ θ = 7) :
    (if θ ≤ outerPhase (Level.stack rest r) then 1 else 0) =
      (if θ ≤ outerPhase (l :: rest) then 1 else 0) + (if e.phaseMark = some θ then 1 else 0) := by
  obtain ⟨⟨hw, halone, -⟩, hd, -⟩ := RunOk.cons_iff.mp h
  cases hm with
  | enterOuter h0 | leaveOuter h0 =>
    -- the depth says this is the outermost wrapper
    obtain rfl : rest = [] := List.eq_nil_of_length_eq_zero (by simp [Level.entered] at hd; omega)
    rcases hθ with rfl | rfl | rfl | rfl <;> rfl
  | markInUse | unmarkInUse =>
    -- only the outermost wrapper marks or unmarks
    obtain rfl : rest = [] := by simpa using halone _ rfl (by simp)
    rcases hθ with rfl | rfl | rfl | rfl <;> rfl
  | enterInner h0 | leaveInner h0 =>
    -- an inner wrapper: the outermost one is below it and stays where it is
    cases rest with
    | nil => simp [Level.entered] at hd; simp_all
    | cons => simp [Level.stack, Event.phaseMark]
  | callNext hc | callDone hc =>
    rw [hc.phaseMark.1]
    cases rest <;> simp [Level.stack, WrapperPc.phase]
  | callInline hc =>
    rw [hc.phaseMark.1]
    cases rest <;> simp [Level.stack, WrapperPc.phase]
  | executed =>
    cases rest with
    | nil => rcases hθ with rfl | rfl | rfl | rfl <;> rfl
    | cons y rest =>
      obtain ⟨h4, h4', h5⟩ := Level.phase_resume (hw y (by simp)) ‹Bool›
      cases rest with
      | nil =>
        simp only [Level.stack, outerPhase_singleton, outerPhase_cons_cons, h4]
        rcases hθ with rfl | rfl | rfl | rfl <;> simp [Event.phaseMark] <;> omega
      | cons => simp [Level.stack, Event.phaseMark]
  | decrement | spentQueued | done | raise | schedule =>
    cases rest <;> simp [Level.stack, WrapperPc.phase, Event.phaseMark] <;>
      rcases hθ with rfl | rfl | rfl | rfl <;> simp

/-- Only the outermost wrapper's leaving stops the stopwatch, and the interval
goes into `executingCurRun` as well. -/
theorem LevelMove.executing_total (hm : LevelMove cfg s w l w' r e) :
    w'.executing.total = w.executing.total + e.stopTicks ∧
      w'.executingCurRun = w.executingCurRun + e.stopTicks := by
  cases hm with
  | callNext hc | callInline hc | callDone hc => simp [hc.phaseMark.2]
  | enterOuter => simp [CumulativeTickTimer.markRunning, Event.stopTicks]
  | leaveOuter => simp [CumulativeTickTimer.markStopped, Event.stopTicks]
  | _ => simp [Event.stopTicks]

/-- The step's share of `NestOk.decrements`: a decrement takes the innermost
wrapper past it, and a dispatch puts a new wrapper at its decrement. The
wrappers below wait in `schedule`, so the one resumed is not at its decrement. -/
theorem LevelMove.decrements_step (hm : LevelMove cfg s w l w' r e) (hw : ∀ y ∈ rest, y.waiting)
    (k : Bool) :
    [e].count (.wrapperDecrement k) +
        (Level.stack rest r).countP (fun l => l.pc = .decrement ∧ l.wrapped.deferred = k) =
      (l :: rest).countP (fun l => l.pc = .decrement ∧ l.wrapped.deferred = k) + [e].count (.dispatch k) := by
  cases hm with
  | executed =>
    cases rest with
    | nil => rfl
    | cons y rest =>
      have hy := Level.ne_decrement_resume (hw y (by simp)) ‹Bool›
      simp [Level.stack, List.countP_cons, hy.1, hy.2]
  | decrement =>
    by_cases hk : ‹Wrapped›.deferred = k <;> simp [Level.stack, List.countP_cons, List.count_singleton, hk]
    omega
  | callInline hc =>
    cases hc
    by_cases hk : ‹Call›.flags.deferredTask = k <;> simp [Level.stack, List.countP_cons, List.count_singleton, hk]
  | callNext hc | callDone hc => cases hc <;> simp [Level.stack, List.countP_cons, List.count_singleton]
  | _ => simp [Level.stack, List.countP_cons, List.count_singleton]

/-- The step's share of `NestOk.executed`: the last step of a wrapper counts it
executed and pops it, and a dispatch pushes a new one. -/
theorem LevelMove.executed_step (rest : List Level) (hm : LevelMove cfg s w l w' r e) :
    [e].count .executedIncrement + (Level.stack rest r).length =
      (l :: rest).length + [e].count (.dispatch false) + [e].count (.dispatch true) := by
  cases hm with
  | executed =>
    cases rest <;> simp [Level.stack, List.count_singleton]
    omega
  | callInline hc =>
    cases hc
    cases ‹Call›.flags.deferredTask <;> simp [Level.stack, List.count_singleton]
  | callNext hc | callDone hc => cases hc <;> simp [Level.stack, List.count_singleton]
  | _ => simp [Level.stack, List.count_singleton]

end Steps

/-- What a nest from the outermost wrapper `x` on worker `w₀` has done by the
time its stack is `levels` and its worker `w`: the stack agrees with the worker;
each counted action has happened once if the outermost wrapper is past its
phase; the executing stopwatch and `executingCurRun` have grown by the stopped
ticks; each wrapper started, `x` or dispatched, has uncounted its task unless it
is still at its decrement, and has been counted executed unless it is still on
the stack. -/
structure NestOk (cfg : Config) (w₀ : Worker) (x : Wrapped) (evs : List Event) (w : Worker)
    (levels : List Level) : Prop where
  run : RunOk cfg.options.recursionLimit levels w
  marks : ∀ θ, (θ = 3 ∨ θ = 4 ∨ θ = 6 ∨ θ = 7) →
    evs.countP (fun e => e.phaseMark = some θ) = if θ ≤ outerPhase levels then 1 else 0
  total : w.executing.total = w₀.executing.total + stopTicks evs
  curRun : w.executingCurRun = w₀.executingCurRun + stopTicks evs
  decrements : ∀ k, evs.count (.wrapperDecrement k) +
      levels.countP (fun l => l.pc = .decrement ∧ l.wrapped.deferred = k) =
    (if x.deferred = k then 1 else 0) + evs.count (.dispatch k)
  executed : evs.count .executedIncrement + levels.length =
    1 + evs.count (.dispatch false) + evs.count (.dispatch true)

section Nest

variable {cfg : Config} {w₀ : Worker} {x : Wrapped}

/-- A nest starts with the outermost wrapper at its decrement, on a worker with
no wrapper in progress. -/
theorem NestOk.start (h : RunOk cfg.options.recursionLimit [] w₀) :
    NestOk cfg w₀ x [] w₀ [⟨x, .decrement⟩] where
  run := RunOk.cons_iff.mpr ⟨⟨by simp, by simp, by simp⟩,
    by simpa [Level.entered] using h.depth, by simpa [Level.entered] using h.executing⟩
  marks θ hθ := by rcases hθ with rfl | rfl | rfl | rfl <;> rfl
  total := rfl
  curRun := rfl
  decrements k := by by_cases hk : x.deferred = k <;> simp [hk]
  executed := rfl

/-- One step of the innermost wrapper keeps `NestOk`. -/
theorem NestOk.step {s : Executor} {evs : List Event} {w w' : Worker} {l : Level} {rest : List Level}
    {r : LevelStep} {e : Event} (h : NestOk cfg w₀ x evs w (l :: rest)) (hm : LevelMove cfg s w l w' r e) :
    NestOk cfg w₀ x (evs ++ [e]) w' (Level.stack rest r) where
  run := hm.runOk h.run
  marks θ hθ := by
    rw [List.countP_append, h.marks θ hθ, hm.outerPhase_cross h.run θ hθ]
    simp [List.countP_singleton]
  total := by rw [(hm.executing_total).1, h.total, stopTicks_snoc, Nat.add_assoc]
  curRun := by rw [(hm.executing_total).2, h.curRun, stopTicks_snoc, Nat.add_assoc]
  decrements k := by
    have hw : ∀ y ∈ rest, y.waiting := h.run.stack.waiting
    have := hm.decrements_step hw k
    have := h.decrements k
    rw [List.count_append, List.count_append]
    omega
  executed := by
    have := hm.executed_step rest
    have := h.executed
    rw [List.count_append, List.count_append, List.count_append]
    omega

/-- Every nest from a worker with no wrapper in progress satisfies `NestOk`. -/
theorem NestRun.nestOk {evs : List Event} {w : Worker} {levels : List Level}
    (hn : NestRun cfg w₀ [⟨x, .decrement⟩] evs w levels) (h : RunOk cfg.options.recursionLimit [] w₀) :
    NestOk cfg w₀ x evs w levels := by
  induction hn with
  | refl => exact NestOk.start h
  | step _ _ hm ih => exact ih.step hm

end Nest

/-- An event that is the only one with its mark is counted by the mark. -/
theorem count_eq_countP_phaseMark (evs : List Event) {e : Event} (θ : Nat)
    (h : ∀ e', e'.phaseMark = some θ ↔ e' = e) : evs.count e = evs.countP fun e' => e'.phaseMark = some θ := by
  rw [List.count]
  exact List.countP_congr fun e' _ => by simp [h e']

theorem nest_balanced {cfg : Config} {s : Executor} (hs : Reachable cfg s) {i : Nat} {w : Worker}
    {handled : Bool} (hw : s.workers[i]? = some w) (hpc : w.pc = .run [] handled) {x : Wrapped}
    {evs : List Event} {w' : Worker} (hn : NestRun cfg w [⟨x, .decrement⟩] evs w' []) :
    w'.recursionDepth = 0 ∧
      evs.count .inUseIncrement = 1 ∧ evs.count .inUseDecrement = 1 ∧
      evs.count .executingStart = 1 ∧ evs.countP Event.isExecutingStop = 1 ∧
      w'.executing = ⟨w.executing.total + stopTicks evs, none⟩ ∧
      w'.executingCurRun = w.executingCurRun + stopTicks evs ∧
      (∀ k, evs.count (.wrapperDecrement k) = (if x.deferred = k then 1 else 0) + evs.count (.dispatch k)) ∧
      evs.count .executedIncrement = 1 + evs.count (.dispatch false) + evs.count (.dispatch true) := by
  have hrun : RunOk cfg.options.recursionLimit [] w := by
    simpa [hpc, WorkerPc.levels] using ((Inv.reachable hs).workers w (List.getElem?_mem hw)).run
  have h := hn.nestOk hrun
  obtain ⟨hd, he⟩ := RunOk.nil_iff.mp h.run
  refine ⟨hd, ?_, ?_, ?_, ?_, ?_, h.curRun, fun k => by simpa using h.decrements k, by simpa using h.executed⟩
  · rw [count_eq_countP_phaseMark evs 4 fun e => by cases e <;> simp [Event.phaseMark], h.marks 4 (by simp)]; rfl
  · rw [count_eq_countP_phaseMark evs 7 fun e => by cases e <;> simp [Event.phaseMark], h.marks 7 (by simp)]; rfl
  · rw [count_eq_countP_phaseMark evs 3 fun e => by cases e <;> simp [Event.phaseMark], h.marks 3 (by simp)]; rfl
  · simpa [Event.isExecutingStop] using h.marks 6 (by simp)
  · have ht := h.total
    cases hx : w'.executing
    simp_all


/-- The first twelve actions of `demoActions`: the worker has opened its first
slice and has no wrapper yet. -/
def sliceActions : List Action := demoActions.take 12

theorem sliceActions_exec :
    ((Executor.exec defaultConfig (Executor.init 1) sliceActions).bind fun r =>
      r.1.workers[0]?.map fun w => (w.pc, w.recursionDepth)) = some (.run [] false, 0) := by
  decide

/-- A task that schedules, with `kMayRecurse`, a task that throws, catches the
exception, and returns. -/
def caughtTask : Task := .schedule ⟨true, false⟩ .raise true .done

/-- The wrapper around `caughtTask` that an outside thread posts at tick zero. -/
def caughtWrapper : Wrapped := ⟨caughtTask, 0, false⟩

/-- `sliceActions`, then an outside thread posts `caughtWrapper`. -/
def caughtActions : List Action :=
  sliceActions ++ [.thread (.client 0) (.schedule ⟨false, false⟩ caughtTask), .thread (.client 0) .next,
    .thread (.client 0) .next]

/-- Worker 0 has an empty stack; it takes `caughtWrapper` from the queue, and
sixteen steps later the dispatched wrapper has thrown and finished, the outer
one has caught the exception, and only the outer one's last action is left. -/
theorem caughtActions_exec :
    ((Executor.exec defaultConfig (Executor.init 1) caughtActions).bind fun r₀ =>
      (Executor.exec defaultConfig r₀.1 [.thread (.worker 0) .next]).bind fun r₁ =>
        (Executor.exec defaultConfig r₁.1 (List.replicate 16 (.thread (.worker 0) .next))).map fun r₂ =>
          (r₀.1.workers[0]?.map Worker.pc,
            decide (r₁.1.workers[0]? =
              r₀.1.workers[0]?.map fun v => { v with pc := .run [⟨caughtWrapper, .decrement⟩] false }),
            r₂.1.workers[0]?.map Worker.pc, decide (Event.pop ∉ workerEvents 0 r₂.2),
            (workerEvents 0 r₂.2).count (.dispatch false))) =
      some (some (.run [] false), true, some (.run [⟨caughtWrapper, .executed false⟩] false), true, 1) := by
  decide

/-- A nest taken from an executor run, with a dispatched wrapper that throws and
a caller that catches. -/
theorem nest_balanced_caught :
    ∃ s, Reachable defaultConfig s ∧ ∃ (w : Worker) (evs : List Event) (w' : Worker),
      s.workers[0]? = some w ∧ w.pc = .run [] false ∧
      NestRun defaultConfig w [⟨caughtWrapper, .decrement⟩] evs w' [] ∧ evs.count (.dispatch false) = 1 ∧
      (w'.recursionDepth = 0 ∧
        evs.count .inUseIncrement = 1 ∧ evs.count .inUseDecrement = 1 ∧
        evs.count .executingStart = 1 ∧ evs.countP Event.isExecutingStop = 1 ∧
        w'.executing = ⟨w.executing.total + stopTicks evs, none⟩ ∧
        w'.executingCurRun = w.executingCurRun + stopTicks evs ∧
        (∀ k, evs.count (.wrapperDecrement k) =
          (if caughtWrapper.deferred = k then 1 else 0) + evs.count (.dispatch k)) ∧
        evs.count .executedIncrement = 1 + evs.count (.dispatch false) + evs.count (.dispatch true)) := by
  obtain ⟨⟨s₀, es₀⟩, hx₀, h⟩ := Option.bind_eq_some.mp caughtActions_exec
  obtain ⟨⟨s₁, es₁⟩, -, h⟩ := Option.bind_eq_some.mp h
  obtain ⟨⟨s₂, es₂⟩, hx₂, h⟩ := Option.map_eq_some'.mp h
  simp only [Prod.mk.injEq] at h
  obtain ⟨hpc₀, hpop, hpc₂, hnp, hdisp⟩ := h
  obtain ⟨w, hw, hpc⟩ := Option.map_eq_some'.mp hpc₀
  obtain ⟨v, hv, hvpc⟩ := Option.map_eq_some'.mp hpc₂
  have hs : Reachable defaultConfig s₀ := ⟨1, es₀, exec_run _ _ _ _ _ hx₀⟩
  have hw₁ : s₁.workers[0]? = some { w with pc := .run [⟨caughtWrapper, .decrement⟩] false } := by
    simpa [hw] using of_decide_eq_true hpop
  -- the sixteen steps are the nest's, and its stack is still the outer wrapper's
  obtain ⟨evs, w', levels, hn, -, hcase⟩ := Run.nestRun (exec_run _ _ _ _ _ hx₂) hw₁ (of_decide_eq_true hnp)
  rcases hcase with ⟨-, v', hv', hlv⟩ | ⟨rfl, hw₂⟩
  · obtain rfl : v' = v := Option.some.inj (hv'.symm.trans hv)
    simp [hvpc, WorkerPc.levels] at hlv
  obtain rfl : levels = [⟨caughtWrapper, .executed false⟩] := by
    simpa [hvpc] using (congrArg Worker.pc (Option.some.inj (hv.symm.trans hw₂))).symm
  -- the outer wrapper's last action
  have hn' := hn.step s₂ LevelMove.executed
  exact ⟨s₀, hs, w, _, w', hw, hpc, hn', by simpa using hdisp, nest_balanced hs hw hpc hn'⟩

end AdaptiveExecutor
