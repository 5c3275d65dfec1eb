import AdaptiveExecutor.Tasks

/-!
# Time Spent Queued

`schedule` reads the tick source once, before it counts the task, and the
wrapper it builds carries that reading:

    auto scheduleTime = _tickSource->getTicks();
    ...
    _totalSpentQueued.addAndFetch(start - scheduleTime);

The wrapper reads the tick source again when it starts, on whichever worker
takes it, and adds the difference to `_totalSpentQueued`, which `appendStats`
reports as `totalTimeQueuedMicros`. The difference is never negative: every
schedule time anywhere in the executor, in a call, in the reactor's queue or on
a worker's stack, was read at or before the present tick
(`Executor.ScheduledBy`), and the tick source never goes back. So
`_totalSpentQueued` never decreases over any run (`totalSpentQueued_mono`).

## Main definitions

* `Call.ScheduledBy`, `Level.ScheduledBy`, `ClientPc.ScheduledBy`: The schedule
  times a call or a wrapper holds are at most a tick.
* `Executor.ScheduledBy`: Every schedule time in the executor is at most `now`.

## Theorems

* `ExecMove.scheduledBy`: Every step keeps `Executor.ScheduledBy`.
* `ExecMove.delta_totalSpentQueued_nonneg`: From such a state no step takes from
  `_totalSpentQueued`.
* `totalSpentQueued_mono`: Over every run from a reachable state,
  `_totalSpentQueued` never decreases.
-/

namespace AdaptiveExecutor

section Defs

variable (now : Nat)

/-- A call that holds its schedule time read it at or before `now`. -/
def Call.ScheduledBy (c : Call) : Prop :=
  match c.pc with
  | .checkRunning t | .submit t => t ≤ now
  | _ => True

/-- A wrapper's schedule time, and that of the call its task is making, are at
most `now`. -/
def Level.ScheduledBy (l : Level) : Prop :=
  l.wrapped.scheduleTime ≤ now ∧
    match l.pc with
    | .call c _ _ => c.ScheduledBy now
    | _ => True

/-- The call an outside thread is making read its schedule time at or before `now`. -/
def ClientPc.ScheduledBy : ClientPc → Prop
  | .scheduling c => c.ScheduledBy now
  | _ => True

/-- What a step of `schedule` leads to holds no schedule time after `now`. -/
def CallStep.ScheduledBy : CallStep → Prop
  | .next c => c.ScheduledBy now
  | .inline w c => w.scheduleTime ≤ now ∧ c.ScheduledBy now
  | .done | .fault => True

end Defs

/-- Every schedule time in the executor, in the reactor's queue, on a worker's
stack or in a call, is at most the present tick. -/
structure Executor.ScheduledBy (s : Executor) : Prop where
  queue : ∀ x ∈ s.queue, x.scheduleTime ≤ s.now
  workers : ∀ w ∈ s.workers, ∀ l ∈ w.pc.levels, l.ScheduledBy s.now
  clients : ∀ p ∈ s.clients, p.ScheduledBy s.now

section Mono

variable {now now' : Nat}

theorem Call.ScheduledBy.mono (h : now ≤ now') {c : Call} (hc : c.ScheduledBy now) : c.ScheduledBy now' := by
  cases hpc : c.pc <;> simp only [Call.ScheduledBy, hpc] at hc ⊢ <;> omega

theorem Level.ScheduledBy.mono (h : now ≤ now') {l : Level} (hl : l.ScheduledBy now) : l.ScheduledBy now' := by
  rcases l with ⟨x, pc⟩
  refine ⟨Nat.le_trans hl.1 h, ?_⟩
  cases pc <;> first | trivial | exact Call.ScheduledBy.mono h hl.2

theorem ClientPc.ScheduledBy.mono (h : now ≤ now') {p : ClientPc} (hp : p.ScheduledBy now) :
    p.ScheduledBy now' := by
  cases p <;> simp only [ClientPc.ScheduledBy] at hp ⊢
  exact hp.mono h

/-- A wrapper below a finished inline task holds the same schedule time, and its
call is past holding its own. -/
theorem Level.ScheduledBy.resume (exn : Bool) {l : Level} (hl : l.ScheduledBy now) :
    (l.resume exn).ScheduledBy now := by
  rcases l with ⟨x, _ | _ | _ | _ | _ | ⟨c, catches, n⟩ | _ | _ | _⟩ <;> simp only [Level.resume] <;>
    try exact hl
  cases exn <;> cases catches <;> simp_all [Level.ScheduledBy, Call.ScheduledBy]

end Mono

section Steps

variable {cfg : Config} {s : Executor} {e : Event}

/-- A step of `schedule` passes its schedule time on, to the wrapper it posts or
dispatches. -/
theorem CallMove.scheduledBy {depth : Option Int} {c : Call} {r : CallStep} (hm : CallMove cfg s depth c r e)
    (h : c.ScheduledBy s.now) : r.ScheduledBy s.now ∧ ∀ x, e = .post x → x.scheduleTime ≤ s.now := by
  cases hm <;> simp_all [CallStep.ScheduledBy, Call.ScheduledBy]

/-- A step of the innermost wrapper: a new call reads the present tick, and
everything else keeps the times it had. -/
theorem LevelMove.scheduledBy {w w' : Worker} {l : Level} {r : LevelStep} {rest : List Level}
    (hm : LevelMove cfg s w l w' r e) (h : ∀ l' ∈ l :: rest, l'.ScheduledBy s.now) :
    (∀ l' ∈ Level.stack rest r, l'.ScheduledBy s.now) ∧ ∀ x, e = .post x → x.scheduleTime ≤ s.now := by
  obtain ⟨hl, hrest⟩ := List.forall_mem_cons.mp h
  cases hm with
  | callNext hc =>
    obtain ⟨hr, hpost⟩ := hc.scheduledBy hl.2
    exact ⟨List.forall_mem_cons.mpr ⟨⟨hl.1, hr⟩, hrest⟩, hpost⟩
  | callInline hc =>
    obtain ⟨hr, hpost⟩ := hc.scheduledBy hl.2
    exact ⟨List.forall_mem_cons.mpr ⟨⟨hr.1, trivial⟩, List.forall_mem_cons.mpr ⟨⟨hl.1, hr.2⟩, hrest⟩⟩, hpost⟩
  | callDone hc => exact ⟨List.forall_mem_cons.mpr ⟨⟨hl.1, trivial⟩, hrest⟩, (hc.scheduledBy hl.2).2⟩
  | schedule => exact ⟨List.forall_mem_cons.mpr ⟨⟨hl.1, Nat.le_refl _⟩, hrest⟩, fun _ h => (nomatch h)⟩
  | executed =>
    refine ⟨?_, fun _ h => (nomatch h)⟩
    cases rest with
    | nil => exact fun _ h => (nomatch h)
    | cons y rest =>
      obtain ⟨hy, hrest⟩ := List.forall_mem_cons.mp hrest
      exact List.forall_mem_cons.mpr ⟨hy.resume _, hrest⟩
  | _ => exact ⟨List.forall_mem_cons.mpr ⟨⟨hl.1, trivial⟩, hrest⟩, fun _ h => (nomatch h)⟩

/-- A worker's step: taking a wrapper moves it from the queue to the stack, and a
wrapper's step keeps or reads the present tick. -/
theorem WorkerMove.scheduledBy {w w' : Worker} (hm : WorkerMove cfg s w w' e)
    (hq : ∀ x ∈ s.queue, x.scheduleTime ≤ s.now) (h : ∀ l ∈ w.pc.levels, l.ScheduledBy s.now) :
    (∀ l ∈ w'.pc.levels, l.ScheduledBy s.now) ∧ ∀ x, e = .post x → x.scheduleTime ≤ s.now := by
  cases hm with
  | level hpc hl =>
    rw [hpc] at h
    simpa only [WorkerPc.levels_afterLevel] using hl.scheduledBy h
  | pop _ _ hq' =>
    simp [WorkerPc.levels, Level.ScheduledBy, hq _ (hq' ▸ List.mem_cons_self _ _)]
  | launch | loop | stopped | markStopped | retireCheck | guardPending =>
    split <;> exact ⟨fun _ h => (nomatch h), fun _ h => (nomatch h)⟩
  | _ => exact ⟨fun _ h => (nomatch h), fun _ h => (nomatch h)⟩

/-- An outside thread's step: a new call reads the present tick. -/
theorem ClientPc.step_scheduledBy {p p' : ClientPc} {ch : Choice} (h : p.step cfg s ch = some (p', e))
    (hp : p.ScheduledBy s.now) : p'.ScheduledBy s.now ∧ ∀ x, e = .post x → x.scheduleTime ≤ s.now := by
  cases ch with
  | schedule flags task =>
    cases p <;> simp only [ClientPc.step, Option.some.injEq, Prod.mk.injEq, reduceCtorEq] at h
    obtain ⟨rfl, rfl⟩ := h
    simp [ClientPc.ScheduledBy, Call.ScheduledBy]
  | next =>
    cases p with
    | scheduling c =>
      obtain ⟨⟨r, e'⟩, hc, h⟩ := Option.bind_eq_some.mp h
      obtain ⟨hr, hpost⟩ := (Call.step_move hc).scheduledBy hp
      cases r <;> simp only [Option.some.injEq, Prod.mk.injEq, reduceCtorEq] at h <;>
        obtain ⟨rfl, rfl⟩ := h <;> exact ⟨hr, hpost⟩
    | _ => simp [ClientPc.step] at h
  | _ => simp [ClientPc.step] at h

end Steps

section Exec

variable {cfg : Config} {s s' : Executor} {e : Event}

/-- The queue after an event holds what it held, and what the event posted. -/
theorem Event.mem_queueAfter {q : List Wrapped} {x : Wrapped} (h : x ∈ e.queueAfter q) :
    x ∈ q ∨ e = .post x := by
  cases e with
  | post y => simpa [Event.queueAfter, eq_comm] using h
  | pop => exact .inl (List.mem_of_mem_tail h)
  | _ => exact .inl h

theorem Executor.ScheduledBy.init (n : Nat) : (Executor.init n).ScheduledBy :=
  ⟨by simp [Executor.init], by simp [Executor.init],
    by simp [Executor.init, List.mem_replicate, ClientPc.ScheduledBy]⟩

/-- Every step keeps every schedule time at most the present tick. -/
theorem ExecMove.scheduledBy {a : Action} (hm : ExecMove cfg s a s' e) (h : s.ScheduledBy) :
    s'.ScheduledBy := by
  have hqueue (hp : ∀ x, e = .post x → x.scheduleTime ≤ s.now) :
      ∀ x ∈ e.queueAfter s.queue, x.scheduleTime ≤ s.now :=
    fun x hx => (Event.mem_queueAfter hx).elim (h.queue x) (hp x)
  have hfresh (l : List Worker) (hl : ∀ w ∈ l, ∀ l' ∈ w.pc.levels, l'.ScheduledBy s.now) :
      ∀ w ∈ (if e = .emplace then l ++ [Worker.fresh] else l), ∀ l' ∈ w.pc.levels, l'.ScheduledBy s.now := by
    split
    · intro w hw
      rcases List.mem_append.mp hw with hw | hw
      · exact hl w hw
      · simp [List.mem_singleton.mp hw, Worker.fresh, WorkerPc.levels]
    · exact hl
  cases hm with
  | tick d =>
    have hle : s.now ≤ s.now + d := Nat.le_add_right _ _
    exact ⟨fun x hx => Nat.le_trans (h.queue x hx) hle,
      fun w hw l hl => (h.workers w hw l hl).mono hle, fun p hp => (h.clients p hp).mono hle⟩
  | main hs | controller hs =>
    first
    | have hc := (MainPc.step_event hs).1
    | have hc := (Controller.step_event hs).1
    exact ⟨by simpa [Event.queueAfter_of_ofControl hc] using h.queue,
      by simpa only [apply_now, apply_workers] using hfresh _ h.workers, by simpa using h.clients⟩
  | @worker _ i w w' _ hi hs =>
    obtain ⟨hw', hpost⟩ := hs.scheduledBy h.queue (h.workers w (List.getElem?_mem hi))
    refine ⟨by simpa using hqueue hpost, ?_, by simpa using h.clients⟩
    simp only [apply_now, apply_workers]
    refine hfresh _ fun x hx => ?_
    rcases List.mem_or_eq_of_mem_set hx with hx | rfl
    · exact h.workers x hx
    · exact hw'
  | @client _ i p p' _ hp hs =>
    obtain ⟨hp', hpost⟩ := ClientPc.step_scheduledBy hs (h.clients p (List.getElem?_mem hp))
    refine ⟨by simpa using hqueue hpost, by simpa only [apply_now, apply_workers] using hfresh _ h.workers, ?_⟩
    simp only [apply_now, apply_clients]
    intro x hx
    rcases List.mem_or_eq_of_mem_set hx with hx | rfl
    · exact h.clients x hx
    · exact hp'

theorem Reachable.scheduledBy (hs : Reachable cfg s) : s.ScheduledBy :=
  Reachable.invariant _ Executor.ScheduledBy.init (fun _ _ _ _ _ h hm => hm.scheduledBy h) hs

/-- Only a wrapper's charge moves `_totalSpentQueued`. -/
theorem Event.delta_totalSpentQueued (e : Event) :
    e.delta .totalSpentQueued = match e with
      | .spentQueued d => d
      | _ => 0 := by
  cases e <;> first | rfl | (cases ‹Bool› <;> rfl)

/-- A worker's step charges a wrapper the ticks since its schedule time, which
are never fewer than none. -/
theorem WorkerMove.delta_totalSpentQueued_nonneg {w w' : Worker} (hm : WorkerMove cfg s w w' e)
    (h : ∀ l ∈ w.pc.levels, l.ScheduledBy s.now) : 0 ≤ e.delta .totalSpentQueued := by
  rw [Event.delta_totalSpentQueued]
  cases hm with
  | level hpc hl =>
    cases hl with
    | spentQueued =>
      have := (h _ (by rw [hpc]; exact List.mem_cons_self _ _)).1
      exact Int.sub_nonneg.mpr (Int.ofNat_le.mpr this)
    | callNext hc | callInline hc | callDone hc => cases hc <;> exact Int.le_refl 0
    | _ => exact Int.le_refl 0
  | guardPending => split_ifs <;> exact Int.le_refl 0
  | _ => exact Int.le_refl 0

/-- From a state where every schedule time is in the past, no step takes from
`_totalSpentQueued`. -/
theorem ExecMove.delta_totalSpentQueued_nonneg {a : Action} (hm : ExecMove cfg s a s' e) (h : s.ScheduledBy) :
    0 ≤ e.delta .totalSpentQueued := by
  cases hm with
  | tick => simp [Event.delta]
  | main hs => simp [Event.delta_of_ofControl (MainPc.step_event hs).1]
  | controller hs => simp [Event.delta_of_ofControl (Controller.step_event hs).1]
  | worker hi hs => exact hs.delta_totalSpentQueued_nonneg (h.workers _ (List.getElem?_mem hi))
  | client _ hs =>
    have := ClientPc.step_ofSchedule hs
    rw [Event.delta_totalSpentQueued]
    split <;> simp_all [Event.ofSchedule]

end Exec

/-- `_totalSpentQueued` never decreases: over every run from a reachable state,
each wrapper's charge `start - scheduleTime` is the ticks it waited. -/
theorem totalSpentQueued_mono {cfg : Config} {s s' : Executor} {es : List (Action × Event)}
    (hs : Reachable cfg s) (h : Run cfg s es s') :
    s.counters .totalSpentQueued ≤ s'.counters .totalSpentQueued := by
  suffices s'.ScheduledBy ∧ s.counters .totalSpentQueued ≤ s'.counters .totalSpentQueued from this.2
  induction h with
  | refl => exact ⟨hs.scheduledBy, Int.le_refl _⟩
  | step _ hst ih =>
    obtain ⟨h₁, hle⟩ := ih
    have hm := Executor.step_move hst
    have := hm.delta_totalSpentQueued_nonneg h₁
    rw [hm.counters]
    exact ⟨hm.scheduledBy h₁, by omega⟩

theorem totalSpentQueued_mono_demo :
    Reachable defaultConfig (Executor.init 1) ∧
      (Executor.init 1).counters .totalSpentQueued ≤ demoState.counters .totalSpentQueued :=
  ⟨⟨1, [], .refl _⟩, totalSpentQueued_mono ⟨1, [], .refl _⟩ demoRun⟩

end AdaptiveExecutor
