import AdaptiveExecutor.Ledger

/-!
# What `shutdown` Returning `OK` Guarantees

`shutdown` returns `Status::OK` from its wait once `_threads` is empty. By then
the controller has been joined, every entry has been erased, and nothing can add
one: `start` cannot run again, the controller is done, and a worker only starts
a thread while it is on the list. So each worker has at most one step left, the
last of its exit guard, `_deathCondition.notify_one()`.

`shutdown_ok_only_notify_left` says this of every run from the return: every
step a worker takes is its notify, each worker takes at most one, and no worker
touches a counter, `_threads` or the mutex again. That the notify can indeed
come after the return is `shutdown_ok_before_notify`.

## Main definitions

* `MainPc.starting`: `start` has not finished.
* `MainPc.joined`: `shutdown` has joined the controller and not returned.
* `Quiet`: The controller is done, `start` is over and `_threads` is empty.
* `notifyLeft`: Whether a worker still has its notify to do.
* `shutdownRaceActions`: `shutdown(0)` finds `_threads` empty between a worker's
  erase and its notify.

## Theorems

* `controller_done_of_joined`: Once `shutdown` has joined the controller, the
  controller is done.
* `Quiet.step`, `Quiet.run`: Every step from a quiet state keeps it, and a
  worker's step is its notify.
* `shutdown_ok_only_notify_left`: After `shutdown`'s wait returns `OK`, workers
  only notify, each at most once.
* `shutdown_ok_before_notify`: `shutdown` returns `OK` and a worker then signals
  `_deathCondition`.
-/

namespace AdaptiveExecutor

/-- `start` has not finished: the owning thread has not called it yet, or is
inside it. -/
def MainPc.starting : MainPc → Bool
  | .idle | .startController | .startSpawn _ | .startSpawning _ _ => true
  | _ => false

/-- `shutdown` is past `_controllerThread.join()` and has not returned. -/
def MainPc.joined : MainPc → Bool
  | .shutdownLock _ | .shutdownStop _ | .shutdownCheck _ | .shutdownWait _ | .shutdownRelock _ => true
  | _ => false

variable {cfg : Config} {s s' : Executor} {e : Event}

/-- Outside `start`, the owning thread emplaces no entry, starts no controller,
and never comes back into `start`. -/
theorem MainPc.step_of_not_starting {m m' : MainPc} {c : Choice} (h : m.step cfg s c = some (m', e))
    (hm : m.starting = false) : m'.starting = false ∧ e ≠ .emplace ∧ e ≠ .startController := by
  cases c <;> cases m <;> simp [MainPc.step, MainPc.starting] at h hm <;> (try split_ifs at h) <;>
    (try simp only [Option.some.injEq, Prod.mk.injEq] at h) <;> (try casesm* _ ∧ _) <;> subst_vars <;>
    simp [MainPc.starting]

/-- `shutdown` gets past the join only once the controller is done, and the
owning thread starts no controller there. -/
theorem MainPc.step_joined {m m' : MainPc} {c : Choice} (h : m.step cfg s c = some (m', e))
    (hj : m'.joined) : (m.joined ∨ s.controller.pc = .done) ∧ e ≠ .startController := by
  cases c <;> cases m <;> simp [MainPc.step] at h <;> (try split_ifs at h) <;>
    (try simp only [Option.some.injEq, Prod.mk.injEq] at h) <;> (try casesm* _ ∧ _) <;> subst_vars <;>
    simp_all [MainPc.joined]

/-- Past the join, `start` is long over. -/
theorem MainPc.not_starting_of_joined {m : MainPc} (h : m.joined) : m.starting = false := by
  cases m <;> simp_all [MainPc.joined, MainPc.starting]

/-- The wait of `shutdown` returns `OK` only from a check of `_threads.empty()`
that succeeded. -/
theorem MainPc.step_returned_ok {m : MainPc} (h : m.step cfg s .next = some (.returned true, e)) :
    m.joined ∧ s.threadsEmpty = true := by
  cases m <;> simp [MainPc.step] at h <;> (try split_ifs at h) <;>
    simp_all [MainPc.joined]

/-- A finished controller takes no step. -/
theorem Controller.step_done {x : Controller} (hx : x.pc = .done) (c : Choice) : x.step cfg s c = none := by
  cases c <;> simp [Controller.step, hx]

/-- The events of `schedule` start no controller and emplace no entry. -/
theorem Event.ne_of_ofSchedule (h : e.ofSchedule) : e ≠ .startController ∧ e ≠ .emplace := by
  cases e <;> simp_all [Event.ofSchedule]

/-- An erased worker can only signal `_deathCondition`, and is then done. -/
theorem WorkerMove.of_not_listed {w w' : Worker} (hm : WorkerMove cfg s w w' e) (h : w.pc.listed = false) :
    w.pc = .guardNotify ∧ w'.pc = .exited ∧ e = .notifyDeath := by
  cases hm <;> simp_all [WorkerPc.listed]

/-- Once `shutdown` has joined the controller, the controller is done: it only
starts again through `start`, which cannot run while `shutdown` does. -/
theorem controller_done_of_joined (hs : Reachable cfg s) (hj : s.main.joined) : s.controller.pc = .done := by
  refine Reachable.invariant (fun s => s.main.joined → s.controller.pc = .done)
    (fun n h => by simp [Executor.init, MainPc.joined] at h) ?_ hs hj
  intro s s' a e _ ih hm
  cases hm with
  | tick => exact ih
  | main hm =>
    intro hj'
    obtain ⟨hd, hne⟩ := MainPc.step_joined hm (by simpa using hj')
    simpa [hne] using hd.elim ih id
  | controller hx =>
    intro hj'
    rw [Controller.step_done (ih (by simpa using hj'))] at hx
    cases hx
  | worker _ hm =>
    intro hj'
    simpa [hm.ne_startController] using ih (by simpa using hj')
  | client _ hp =>
    intro hj'
    simpa [(Event.ne_of_ofSchedule (ClientPc.step_ofSchedule hp)).1] using ih (by simpa using hj')

/-- The state after `shutdown`'s wait returned `OK`: the controller is done,
`start` is over, and every entry is off `_threads`. -/
structure Quiet (s : Executor) : Prop where
  done : s.controller.pc = .done
  notStarting : s.main.starting = false
  erased : ∀ w ∈ s.workers, w.pc.listed = false

/-- Worker `i` has yet to signal `_deathCondition`. -/
def notifyLeft (s : Executor) (i : Nat) : Nat :=
  if s.workers[i]?.map Worker.pc = some .guardNotify then 1 else 0

/-- A step from a quiet state keeps it; a worker's step is its notify, and it
uses up the one that worker had left. -/
theorem Quiet.step {a : Action} (hq : Quiet s) (hm : ExecMove cfg s a s' e) :
    Quiet s' ∧ (∀ i c, a = .thread (.worker i) c → e = .notifyDeath) ∧
      ∀ i, notifyLeft s' i + (if a.tid = some (.worker i) ∧ e = .notifyDeath then 1 else 0) = notifyLeft s i := by
  cases hm with
  | tick => exact ⟨⟨hq.done, hq.notStarting, hq.erased⟩, by simp, fun i => by simp [notifyLeft, Action.tid]⟩
  | main hm =>
    obtain ⟨hst, hemp, hsc⟩ := MainPc.step_of_not_starting hm hq.notStarting
    exact ⟨⟨by simp [hsc, hq.done], by simpa using hst, by simpa [hemp] using hq.erased⟩, by simp,
      fun i => by simp [notifyLeft, Action.tid, hemp]⟩
  | controller hx =>
    rw [Controller.step_done hq.done] at hx
    cases hx
  | @worker c i w w' _ hw hm =>
    obtain ⟨hpc, hpc', rfl⟩ := hm.of_not_listed (hq.erased w (List.getElem?_mem hw))
    refine ⟨⟨by simp [hq.done], by simpa using hq.notStarting, ?_⟩, by simp, fun j => ?_⟩
    · intro x hx
      simp only [apply_workers, reduceCtorEq, if_false] at hx
      rcases List.mem_or_eq_of_mem_set hx with hx | rfl
      · exact hq.erased x hx
      · simp [hpc', WorkerPc.listed]
    · by_cases hij : i = j
      · subst hij
        simp [notifyLeft, Action.tid, hw, hpc, hpc', List.getElem?_set]
      · simp [notifyLeft, Action.tid, List.getElem?_set_ne hij, hij]
  | client _ hp =>
    obtain ⟨hsc, hemp⟩ := Event.ne_of_ofSchedule (ClientPc.step_ofSchedule hp)
    exact ⟨⟨by simp [hsc, hq.done], by simpa using hq.notStarting, by simpa [hemp] using hq.erased⟩, by simp,
      fun i => by simp [notifyLeft, Action.tid, hemp]⟩

/-- Every run from a quiet state stays quiet: its workers' steps are notifies,
each using up the one its worker had left. -/
theorem Quiet.run {s₀ : Executor} {es : List (Action × Event)} (hq : Quiet s₀) (hr : Run cfg s₀ es s) :
    Quiet s ∧ (∀ p ∈ es, ∀ i c, p.1 = .thread (.worker i) c → p.2 = .notifyDeath) ∧
      ∀ i, eventCount es (.worker i) .notifyDeath + notifyLeft s i = notifyLeft s₀ i := by
  induction hr with
  | refl => exact ⟨hq, by simp, by simp⟩
  | step _ hst ih =>
    obtain ⟨hq', hw, hc⟩ := ih
    obtain ⟨hq'', hw', hc'⟩ := hq'.step (Executor.step_move hst)
    refine ⟨hq'', ?_, fun i => ?_⟩
    · simp only [List.mem_append, List.mem_singleton]
      rintro p (hp | rfl)
      · exact hw p hp
      · exact hw'
    · rw [eventCount_snoc, ← hc i, ← hc' i]
      omega

/-- Once `shutdown`'s wait has returned `Status::OK`, the only step any worker
takes on the executor is `_deathCondition.notify_one()`, at most once each: no
worker changes a counter, `_threads` or the mutex again. -/
theorem shutdown_ok_only_notify_left {s'' : Executor} {es : List (Action × Event)} (hs : Reachable cfg s)
    (hm : s.step cfg (.thread .main .next) = some (s', e)) (hok : s'.main = .returned true)
    (hr : Run cfg s' es s'') :
    (∀ p ∈ es, ∀ i c, p.1 = .thread (.worker i) c → p.2 = .notifyDeath) ∧
      ∀ i, eventCount es (.worker i) .notifyDeath ≤ 1 := by
  cases Executor.step_move hm with
  | main hmain =>
    simp only [apply_main] at hok
    subst hok
    obtain ⟨hj, hempty⟩ := MainPc.step_returned_ok hmain
    obtain ⟨-, hemp, hsc⟩ := MainPc.step_of_not_starting hmain (MainPc.not_starting_of_joined hj)
    have hq : Quiet ({ s with main := .returned true }.apply .main e) :=
      ⟨by simp [hsc, controller_done_of_joined hs hj], by simp [MainPc.starting],
        by simpa [hemp] using List.all_eq_true.mp hempty⟩
    obtain ⟨-, hw, hc⟩ := hq.run hr
    refine ⟨hw, fun i => ?_⟩
    have := hc i
    have : notifyLeft ({ s with main := .returned true }.apply .main e) i ≤ 1 := by
      unfold notifyLeft; split <;> omega
    omega

/-- `start` launches worker 0; `shutdown(0)` joins the controller and waits on
`_deathCondition`; worker 0 sees `_isRunning` false and runs its exit guard up
to the erase; `shutdown` retakes the mutex at its deadline and finds `_threads`
empty. -/
def shutdownRaceActions : List Action :=
  let m := Action.thread .main .next
  let w := Action.thread (.worker 0) .next
  let c := Action.thread .controller .next
  [.thread .main .start, m, m, w, w, w, .thread (.worker 0) (.launch true), m, m,
   .thread .main (.shutdown 0), m, m] ++ List.replicate 8 c ++
  [m, m, m, m, .thread (.worker 0) (.jitter 0)] ++ List.replicate 7 w ++ [m, m]

theorem shutdownRaceActions_exec :
    ((Executor.exec defaultConfig (Executor.init 0) shutdownRaceActions).map fun r =>
      (r.1.main, (r.1.step defaultConfig (.thread (.worker 0) .next)).map Prod.snd)) =
      some (.returned true, some .notifyDeath) := by
  decide

/-- `shutdown` returns `Status::OK` while a worker has not finished its exit
guard: its `_deathCondition.notify_one()` comes after. -/
theorem shutdown_ok_before_notify :
    ∃ s s', Reachable defaultConfig s ∧ s.main = .returned true ∧
      s.step defaultConfig (.thread (.worker 0) .next) = some (s', .notifyDeath) := by
  obtain ⟨⟨s, es⟩, hx, h⟩ := Option.map_eq_some'.mp shutdownRaceActions_exec
  simp only [Prod.mk.injEq] at h
  obtain ⟨⟨s', e⟩, hs', he⟩ := Option.map_eq_some'.mp h.2
  exact ⟨s, s', ⟨0, es, exec_run _ _ _ _ _ hx⟩, h.1, he ▸ hs'⟩

/-- `shutdownRaceActions` one step before `shutdown` returns: the wait then
returns `OK`, and worker 0's notify is the step after. -/
theorem shutdownWait_exec :
    ((Executor.exec defaultConfig (Executor.init 0) shutdownRaceActions.dropLast).bind fun r =>
      (r.1.step defaultConfig (.thread .main .next)).bind fun p =>
        (p.1.step defaultConfig (.thread (.worker 0) .next)).map fun q => (p.1.main, q.2)) =
      some (.returned true, .notifyDeath) := by
  decide

theorem shutdown_ok_only_notify_left_race :
    ∃ s s' e s'' es, Reachable defaultConfig s ∧ s.step defaultConfig (.thread .main .next) = some (s', e) ∧
      s'.main = .returned true ∧ Run defaultConfig s' es s'' ∧ es ≠ [] ∧
      (∀ p ∈ es, ∀ i c, p.1 = .thread (.worker i) c → p.2 = .notifyDeath) ∧
      ∀ i, eventCount es (.worker i) .notifyDeath ≤ 1 := by
  obtain ⟨⟨s, es₀⟩, hx, h⟩ := Option.bind_eq_some.mp shutdownWait_exec
  obtain ⟨⟨s', e⟩, hm, h⟩ := Option.bind_eq_some.mp h
  obtain ⟨⟨s'', e'⟩, hw, h⟩ := Option.map_eq_some'.mp h
  simp only [Prod.mk.injEq] at h
  have hr := (Run.refl s').step hw
  have hs : Reachable defaultConfig s := ⟨0, es₀, exec_run _ _ _ _ _ hx⟩
  exact ⟨s, s', e, s'', _, hs, hm, h.1, hr, by simp, shutdown_ok_only_notify_left hs hm h.1 hr⟩

end AdaptiveExecutor
