import AdaptiveExecutor.Stack

/-!
# What Stays True of One Worker

A worker's own state, whatever the other threads do: its stack of wrappers
agrees with its depth and its executing stopwatch (`RunOk`), it is still pending
until its loop starts, and its two stopwatches keep the order the source's
`dassert`s expect.

The stopwatch invariant is the one the retirement check leans on. A slice opens
the running stopwatch at `r` and clears `executingCurRun`; inside the slice each
outermost wrapper opens the executing stopwatch, and closing it adds the same
interval to the executing total and to `executingCurRun`. The intervals follow
one another inside the slice, so `r + executingCurRun` never passes the start of
the open executing interval, or the present if none is open. When the slice
ends, everything executed fits in the slice: `executingCurRun` is at most the
slice's length, and the executing total at most the running total.

An exception out of the reactor leaves the loop with the running stopwatch
still open, so the exit guard is constrained by neither `inSlice` nor
`betweenSlices`.

## Main definitions

* `WorkerPc.inSlice`: The running stopwatch is open.
* `WorkerPc.betweenSlices`: The running stopwatch is closed.
* `WorkerPc.surelyPending`: The thread is certainly still pending.
* `TimersOk`: The order of a worker's stopwatches.
* `Worker.Ok`: Everything that stays true of one worker.

## Theorems

* `TimersOk.executing_le_running`: The executing total is at most the running
  total.
* `WorkerMove.ok`: Every step of a worker keeps `Worker.Ok`.
* `Worker.Ok.tick`: Time passing keeps `Worker.Ok`.
-/

namespace AdaptiveExecutor

namespace WorkerPc

/-- Inside a slice: from `markRunning` to `markStopped`. -/
def inSlice : WorkerPc → Bool
  | .run _ _ | .stopped | .restart | .markStopped => true
  | _ => false

/-- Before the first slice or between two: the running stopwatch is closed. -/
def betweenSlices : WorkerPc → Bool
  | .spawning _ | .failed | .begin | .loop | .slice | .pendingDone | .retireCheck _ => true
  | _ => false

/-- Points where the thread is pending for sure: before its loop, while it is
spawned or draws its jitter, and after its first slice, before it says so. -/
def surelyPending : WorkerPc → Bool
  | .spawning _ | .begin | .pendingDone => true
  | _ => false

/-- A wrapper's step leaves the worker inside the reactor, or the exception
leaves the reactor: either way neither between slices nor surely pending. -/
@[simp] theorem betweenSlices_afterLevel (handled : Bool) (rest : List Level) (r : LevelStep) :
    (afterLevel handled rest r).betweenSlices = false := by
  cases r with
  | next | push => rfl
  | finish exn => cases rest <;> cases exn <;> rfl

@[simp] theorem surelyPending_afterLevel (handled : Bool) (rest : List Level) (r : LevelStep) :
    (afterLevel handled rest r).surelyPending = false := by
  cases r with
  | next | push => rfl
  | finish exn => cases rest <;> cases exn <;> rfl

@[simp] theorem afterLevel_ne_retireCheck (handled : Bool) (rest : List Level) (r : LevelStep)
    (spent : Nat) : afterLevel handled rest r ≠ .retireCheck spent := by
  cases r with
  | next | push => simp [afterLevel]
  | finish exn => cases rest <;> cases exn <;> simp [afterLevel]

end WorkerPc

/-- The order of a worker's stopwatches at `now`. While the running stopwatch is
closed the executing total is behind the running total. While it is open at
`r`, the executing total is behind the running total by at most
`executingCurRun`, and `executingCurRun` fits between `r` and the start of the
open executing interval, or `now` if none is open. -/
structure TimersOk (now : Nat) (w : Worker) : Prop where
  closed : w.running.start = none → w.executing.total ≤ w.running.total
  opened : ∀ r, w.running.start = some r →
    w.executing.total ≤ w.running.total + w.executingCurRun ∧
    r + w.executingCurRun ≤ w.executing.start.getD now ∧ w.executing.start.getD now ≤ now
  inSlice : w.pc.inSlice → w.running.start.isSome
  between : w.pc.betweenSlices → w.running.start = none
  retire : ∀ spent, w.pc = .retireCheck spent → w.executingCurRun ≤ spent

/-- Everything that stays true of one worker under `recursionLimit` `limit` at
tick `now`. -/
structure Worker.Ok (limit : Int) (now : Nat) (w : Worker) : Prop where
  run : RunOk limit w.pc.levels w
  pending : w.pc.surelyPending → w.stillPending
  timers : TimersOk now w

variable {cfg : Config} {s : Executor} {w w' : Worker} {e : Event} {now : Nat}

namespace TimersOk

/-- `executing.totalTime() ≤ running.totalTime()`, given that the executing
stopwatch is closed whenever the running one is. -/
theorem executing_le_running (h : TimersOk now w)
    (hE : w.running.start = none → w.executing.start = none) :
    w.executing.totalTime now ≤ w.running.totalTime now := by
  obtain ⟨h1, h2, -, -, -⟩ := h
  rcases w with ⟨_, _, _, ⟨rt, _ | r⟩, ⟨et, _ | a⟩, cur, _⟩ <;>
    simp_all [CumulativeTickTimer.totalTime] <;> omega

/-- A step that keeps the stopwatches and `executingCurRun` and moves between
points where the running stopwatch is in the same state. -/
theorem frame (h : TimersOk now w) (hr : w'.running = w.running) (he : w'.executing = w.executing)
    (hc : w'.executingCurRun = w.executingCurRun) (hi : w'.pc.inSlice → w.pc.inSlice)
    (hb : w'.pc.betweenSlices → w.pc.betweenSlices)
    (hs : ∀ spent, w'.pc = .retireCheck spent → w.pc = .retireCheck spent) : TimersOk now w' := by
  obtain ⟨h1, h2, h3, h4, h5⟩ := h
  refine ⟨?_, ?_, ?_, ?_, ?_⟩ <;> simp only [hr, he, hc]
  · exact h1
  · exact h2
  · exact fun h => h3 (hi h)
  · exact fun h => h4 (hb h)
  · exact fun sp h => h5 sp (hs sp h)

/-- Time passing: the open executing interval keeps its start, and a closed one
now ends later. -/
theorem tick (h : TimersOk now w) {now' : Nat} (hn : now ≤ now') : TimersOk now' w := by
  refine ⟨h.closed, fun r hr => ?_, h.inSlice, h.between, h.retire⟩
  obtain ⟨h1, h2, h3⟩ := h.opened r hr
  rcases he : w.executing.start with _ | a <;> simp only [he, Option.getD_none, Option.getD_some] at h2 h3 ⊢
  · exact ⟨h1, by omega, le_rfl⟩
  · exact ⟨h1, h2, by omega⟩

/-- The running stopwatch is open inside a slice. -/
theorem running_open (h : TimersOk now w) (hs : w.pc.inSlice) : ∃ r, w.running.start = some r :=
  Option.isSome_iff_exists.mp (h.inSlice hs)

end TimersOk

namespace WorkerMove

variable {L : Int}

/-- Every step of a worker keeps its stack in agreement with it. -/
theorem runOk (hm : WorkerMove cfg s w w' e) (h : RunOk cfg.options.recursionLimit w.pc.levels w) :
    RunOk cfg.options.recursionLimit w'.pc.levels w' := by
  cases hm with
  | level hpc hl =>
    rw [hpc] at h
    simp only [WorkerPc.levels_afterLevel]
    exact (hl.runOk h).congr rfl rfl
  | pop hpc =>
    rw [hpc] at h
    obtain ⟨hd, he⟩ := RunOk.nil_iff.mp h
    refine RunOk.cons_iff.mpr ⟨⟨by simp, fun _ _ _ => rfl, by simp [Int.le_max_left]⟩, ?_, ?_⟩ <;>
      simp [hd, he, Level.entered]
  | loop hpc | stopped hpc | retireCheck hpc =>
    rw [hpc] at h
    split <;> exact h.congr rfl rfl
  | launch ok hpc =>
    rw [hpc] at h
    cases ok <;> exact h.congr rfl rfl
  | markStopped hpc =>
    rw [hpc] at h
    split <;> exact h.congr rfl rfl
  | incPending hpc | incRunning hpc | unlock hpc | relock hpc | decPending hpc | decRunning hpc
    | erase hpc | jitter hpc | slice hpc | stop hpc | throw hpc | restart hpc | caught hpc
    | replacing hpc | pendingDone hpc | guardPending hpc | guardRunning hpc | guardPastRunning hpc
    | guardPastExecuting hpc | guardLock hpc | guardErase hpc | guardNotify hpc =>
    rw [hpc] at h
    exact h.congr rfl rfl

/-- `stillPending` is set when the entry is created and cleared only inside the
loop. -/
theorem pending (hm : WorkerMove cfg s w w' e) (h : w.pc.surelyPending → w.stillPending) :
    w'.pc.surelyPending → w'.stillPending := by
  cases hm with
  | launch ok hpc => cases ok <;> simpa [hpc, WorkerPc.surelyPending] using h
  | loop | stopped | retireCheck => split <;> simp [WorkerPc.surelyPending]
  | markStopped => split <;> simp_all [WorkerPc.surelyPending]
  | level => simp
  | _ => simp_all [WorkerPc.surelyPending]

/-- Every step of a worker keeps its stopwatches in order. Only four steps move
them: the slice's `markRunning` and `markStopped`, and the outermost wrapper's
entry and exit. -/
theorem timersOk (hm : WorkerMove cfg s w w' e) (hr : RunOk cfg.options.recursionLimit w.pc.levels w)
    (h : TimersOk s.now w) : TimersOk s.now w' := by
  cases hm with
  | slice hpc =>
    rw [hpc] at hr
    have hR := h.between (by simp [hpc, WorkerPc.betweenSlices])
    have hE := (RunOk.nil_iff.mp hr).2
    refine ⟨by simp [CumulativeTickTimer.markRunning], fun r hr' => ?_, fun _ => rfl,
      by simp [WorkerPc.betweenSlices], by simp⟩
    obtain rfl : s.now = r := by simpa [CumulativeTickTimer.markRunning] using hr'
    simpa [hE, CumulativeTickTimer.markRunning] using h.closed hR
  | markStopped hpc =>
    rw [hpc] at hr
    obtain ⟨r, hR⟩ := h.running_open (by simp [hpc, WorkerPc.inSlice])
    have hE := (RunOk.nil_iff.mp hr).2
    obtain ⟨h1, h2, -⟩ := h.opened r hR
    simp only [hE, Option.getD_none] at h2
    have hspent : (w.running.markStopped s.now).2 = s.now - r := by
      simp [CumulativeTickTimer.markStopped, CumulativeTickTimer.openTime, hR]
    refine ⟨fun _ => ?_, fun _ h' => ?_, ?_, fun _ => ?_, fun sp h' => ?_⟩
    · simp only [CumulativeTickTimer.markStopped, CumulativeTickTimer.openTime, hR]; omega
    · simp [CumulativeTickTimer.markStopped] at h'
    · split <;> simp [WorkerPc.inSlice]
    · simp [CumulativeTickTimer.markStopped]
    · split at h' <;> cases h'
      show w.executingCurRun ≤ _
      omega
  | @level w₁ handled l rest r' _ hpc hl =>
    rw [hpc] at hr
    obtain ⟨r, hR⟩ := h.running_open (by simp [hpc, WorkerPc.inSlice])
    obtain ⟨-, hd, hx⟩ := RunOk.cons_iff.mp hr
    have hi : w.pc.inSlice := by simp [hpc, WorkerPc.inSlice]
    cases hl with
    | enterOuter h0 =>
      -- the outermost wrapper opens the executing stopwatch: none was open
      obtain ⟨h1, h2, -⟩ := h.opened r hR
      have hE : w.executing.start = none := by
        obtain rfl : rest = [] := List.eq_nil_of_length_eq_zero (by simp [Level.entered] at hd; omega)
        simpa [Level.entered] using hx
      refine ⟨fun h' => absurd (h'.symm.trans hR) (by simp), fun r' hr' => ?_, fun _ => by simp [hR],
        by simp, by simp⟩
      obtain rfl : r = r' := by simpa [hR] using hr'
      simp only [hE, Option.getD_none] at h2
      simpa [CumulativeTickTimer.markRunning] using ⟨h1, h2⟩
    | leaveOuter h0 =>
      -- the outermost wrapper closes it, adding the interval to both
      obtain ⟨h1, h2, h3⟩ := h.opened r hR
      obtain ⟨a, hE⟩ : ∃ a, w.executing.start = some a :=
        Option.isSome_iff_exists.mp (by simpa [Level.entered] using hx)
      simp only [hE, Option.getD_some] at h2 h3
      refine ⟨fun h' => absurd (h'.symm.trans hR) (by simp), fun r' hr' => ?_, fun _ => by simp [hR],
        by simp, by simp⟩
      obtain rfl : r = r' := by simpa [hR] using hr'
      simp only [CumulativeTickTimer.markStopped, CumulativeTickTimer.openTime, hE, Option.getD_none]
      omega
    | decrement | spentQueued | enterInner | markInUse | done | raise | schedule | callNext
      | callInline | callDone | leaveInner | unmarkInUse | executed =>
      exact h.frame rfl rfl rfl (fun _ => hi) (by simp) (by simp)
  | launch _ hpc | loop hpc | stopped hpc | retireCheck hpc =>
    split <;> exact h.frame rfl rfl rfl (by simp [hpc, WorkerPc.inSlice])
      (by simp [hpc, WorkerPc.betweenSlices]) (by simp)
  | incPending hpc | incRunning hpc | unlock hpc | relock hpc | decPending hpc | decRunning hpc
    | erase hpc | jitter hpc | pop hpc | stop hpc | throw hpc | restart hpc | caught hpc
    | replacing hpc | pendingDone hpc | guardPending hpc | guardRunning hpc | guardPastRunning hpc
    | guardPastExecuting hpc | guardLock hpc | guardErase hpc | guardNotify hpc =>
    exact h.frame rfl rfl rfl (by simp [hpc, WorkerPc.inSlice])
      (by simp [hpc, WorkerPc.betweenSlices]) (by simp)

/-- Every step of a worker keeps `Worker.Ok`. -/
theorem ok (hm : WorkerMove cfg s w w' e) (h : w.Ok cfg.options.recursionLimit s.now) :
    w'.Ok cfg.options.recursionLimit s.now :=
  ⟨hm.runOk h.run, hm.pending h.pending, hm.timersOk h.run h.timers⟩

end WorkerMove

/-- Only a slice has wrappers on the stack. -/
theorem WorkerPc.inSlice_of_levels {p : WorkerPc} (h : p.levels ≠ []) : p.inSlice := by
  cases p <;> simp_all [levels, inSlice]

/-- The percentage of a slice spent executing is at most a hundred when the time
spent executing fits in the slice. -/
theorem pctExecuting_le_hundred {cur spent : Nat} (h : cur ≤ spent) : pctExecuting cur spent ≤ 100 := by
  have : cur * 100 / spent ≤ 100 := Nat.div_le_of_le_mul (Nat.mul_le_mul_right 100 h)
  simp only [pctExecuting]
  omega

namespace Worker.Ok

variable {limit : Int}

/-- A new entry: nothing has run. -/
theorem fresh (limit : Int) (now : Nat) : Worker.fresh.Ok limit now where
  run := RunOk.nil_iff.mpr ⟨rfl, rfl⟩
  pending _ := rfl
  timers := ⟨fun _ => le_refl _, fun _ h => by simp [Worker.fresh, CumulativeTickTimer.zero] at h,
    fun h => by simp [Worker.fresh, WorkerPc.inSlice] at h, fun _ => rfl,
    fun _ h => by simp [Worker.fresh] at h⟩

/-- Time passing keeps `Worker.Ok`. -/
theorem tick (h : w.Ok limit now) {now' : Nat} (hn : now ≤ now') : w.Ok limit now' :=
  ⟨h.run, h.pending, h.timers.tick hn⟩

/-- The executing stopwatch is open only inside a slice, where the running one
is open too. -/
theorem executing_closed (h : w.Ok limit now) (hR : w.running.start = none) :
    w.executing.start = none := by
  by_cases hl : w.pc.levels = []
  · exact (RunOk.nil_iff.mp (hl ▸ h.run)).2
  · have := h.timers.inSlice (WorkerPc.inSlice_of_levels hl)
    simp [hR] at this

/-- `executing.totalTime() ≤ running.totalTime()`, at every tick. -/
theorem executing_le_running (h : w.Ok limit now) :
    w.executing.totalTime now ≤ w.running.totalTime now :=
  h.timers.executing_le_running h.executing_closed

/-- At the retirement check the time spent executing in the slice fits in the
slice, so the percentage the check compares is at most a hundred. -/
theorem retire (h : w.Ok limit now) {spent : Nat} (hpc : w.pc = .retireCheck spent) :
    w.executingCurRun ≤ spent ∧ pctExecuting w.executingCurRun spent ≤ 100 :=
  ⟨h.timers.retire spent hpc, pctExecuting_le_hundred (h.timers.retire spent hpc)⟩

end Worker.Ok

end AdaptiveExecutor
