import AdaptiveExecutor.System

/-!
# A Worker's Stack of Wrapped Tasks

What stays true of the wrappers on one worker's stack, whatever they do: the
stack is a chain of wrappers each waiting in `schedule` for the one above it,
`recursionDepth` counts the wrappers that have entered and not yet left, the
executing stopwatch is open exactly while the outermost one is inside, and only
the outermost one ever marks or unmarks its thread in use.

The depth bound is where the recursion limit enters. A wrapper is pushed only
by a dispatch, and `schedule` dispatches only when `recursionDepth + 1` is below
the limit; since every wrapper below the one calling `schedule` has entered,
the depth is the height of the stack, so a push never takes the stack past
`limit - 1` (or past one, which a posted wrapper reaches alone).

## Main definitions

* `Level.entered`: The wrapper has raised `recursionDepth` and not lowered it.
* `Level.waiting`: The wrapper waits for the task it dispatched.
* `Level.marked`: The wrapper holds its thread's in-use mark.
* `StackOk`: The shape of a stack.
* `RunOk`: A stack, and the worker's depth and executing stopwatch, agree.
* `Level.stack`: The stack after one step of its innermost wrapper.

## Theorems

* `RunOk.push`: A dispatch keeps the stack within the recursion limit.
* `LevelMove.runOk`: One step of the innermost wrapper keeps `RunOk`.
-/

namespace AdaptiveExecutor

namespace Level

/-- The wrapper has raised `recursionDepth` and not yet lowered it again. -/
def entered (l : Level) : Bool :=
  match l.pc with
  | .markInUse | .body _ | .call _ _ _ | .leave _ => true
  | _ => false

/-- The wrapper waits inside `schedule` for the task it dispatched. -/
def waiting (l : Level) : Bool :=
  match l.pc with
  | .call c _ _ => decide (c.pc = .dispatched)
  | _ => false

/-- The wrapper holds its thread's in-use mark: it is past the increment of
`_threadsInUse` and not yet past the decrement. -/
def marked (l : Level) : Bool :=
  match l.pc with
  | .body _ | .call _ _ _ | .leave _ | .unmarkInUse _ => true
  | _ => false

/-- The stack after one step of its innermost wrapper, the rest being `rest`. -/
def stack (rest : List Level) : LevelStep → List Level
  | .next l' => l' :: rest
  | .push l' x => x :: l' :: rest
  | .finish exn =>
    match rest with
    | [] => []
    | l' :: rest' => l'.resume exn :: rest'

theorem entered_of_waiting {l : Level} (h : l.waiting) : l.entered := by
  rcases l with ⟨_, _ | _ | _ | _ | _ | ⟨c, _, _⟩ | _ | _ | _⟩ <;> simp_all [waiting, entered]

end Level

/-- The shape of a worker's stack, innermost wrapper first: every wrapper but the
innermost waits for the one above it, a wrapper that marks or unmarks the thread
in use is alone, and the stack is no higher than the recursion limit allows. -/
structure StackOk (limit : Int) (levels : List Level) : Prop where
  waiting : ∀ l ∈ levels.tail, l.waiting
  alone : ∀ l ∈ levels.head?, (l.pc = .markInUse ∨ ∃ exn, l.pc = .unmarkInUse exn) →
    levels.length = 1
  bound : (levels.length : Int) ≤ max 1 (limit - 1)

/-- A stack agrees with its worker: `recursionDepth` counts the wrappers that
have entered, and the executing stopwatch is open exactly while the outermost
one has. -/
structure RunOk (limit : Int) (levels : List Level) (w : Worker) : Prop where
  stack : StackOk limit levels
  depth : w.recursionDepth = levels.countP Level.entered
  executing : w.executing.start.isSome = levels.getLast?.any Level.entered

/-- The empty stack has the shape every stack must have. -/
theorem StackOk.nil (limit : Int) : StackOk limit [] :=
  ⟨by simp, by simp, by simp only [List.length_nil]; omega⟩

namespace Level

variable {l l' : Level} {rest : List Level}

theorem countP_entered_of_waiting (h : ∀ l ∈ rest, l.waiting) :
    rest.countP entered = rest.length :=
  List.countP_eq_length.mpr fun l hl => entered_of_waiting (h l hl)

/-- Below the innermost wrapper everything has entered, so the outermost one
has entered as soon as there is more than one. -/
theorem lastEntered_of_waiting (h : ∀ l ∈ rest, l.waiting) :
    (l :: rest).getLast?.any entered = (!rest.isEmpty || l.entered) := by
  cases rest with
  | nil => simp
  | cons a rest =>
    obtain ⟨x, hx⟩ : ∃ x, (a :: rest).getLast? = some x := ⟨_, List.getLast?_eq_getLast _ (by simp)⟩
    rw [List.getLast?_cons_cons, hx]
    simp [entered_of_waiting (h x (List.mem_of_getLast?_eq_some hx))]

end Level

namespace RunOk

variable {limit : Int} {l l' : Level} {rest : List Level} {w w' : Worker}

/-- `RunOk` on a non-empty stack, with the depth and the stopwatch read off the
innermost wrapper and the height of the rest. -/
theorem cons_iff : RunOk limit (l :: rest) w ↔ StackOk limit (l :: rest) ∧
    w.recursionDepth = ((rest.length + if l.entered then 1 else 0 : Nat) : Int) ∧
    w.executing.start.isSome = (!rest.isEmpty || l.entered) := by
  constructor
  · rintro ⟨hs, hd, he⟩
    have hw : ∀ x ∈ rest, x.waiting := hs.waiting
    refine ⟨hs, ?_, ?_⟩
    · rw [hd, List.countP_cons, Level.countP_entered_of_waiting hw]
    · rw [he, Level.lastEntered_of_waiting hw]
  · rintro ⟨hs, hd, he⟩
    have hw : ∀ x ∈ rest, x.waiting := hs.waiting
    refine ⟨hs, ?_, ?_⟩
    · rw [hd, List.countP_cons, Level.countP_entered_of_waiting hw]
    · rw [he, Level.lastEntered_of_waiting hw]

/-- A step that replaces the innermost wrapper by one that has entered exactly
when it had, and leaves the depth and the stopwatch alone. -/
theorem next (h : RunOk limit (l :: rest) w) (he : l'.entered = l.entered)
    (hm : l'.pc = .markInUse ∨ (∃ exn, l'.pc = .unmarkInUse exn) → rest = [])
    (hd : w'.recursionDepth = w.recursionDepth)
    (hx : w'.executing.start.isSome = w.executing.start.isSome) : RunOk limit (l' :: rest) w' := by
  obtain ⟨⟨hw, -, hb⟩, hd0, hx0⟩ := cons_iff.mp h
  refine cons_iff.mpr ⟨⟨hw, ?_, hb⟩, by rw [hd, hd0, he], by rw [hx, hx0, he]⟩
  intro x hx hmx
  simp only [List.head?_cons, Option.mem_def, Option.some.injEq] at hx
  subst hx
  simp [hm hmx]

/-- A dispatch below the limit: the caller waits, and the dispatched wrapper,
not yet entered, goes on top. Everything below has entered, so the depth is the
height of the stack and the limit bounds the new height. -/
theorem push (h : RunOk limit (l :: rest) w) (hl : l.entered) (hw' : l'.waiting)
    (hx : x.pc = .decrement) (hlt : w.recursionDepth + 1 < limit) :
    RunOk limit (x :: l' :: rest) w := by
  obtain ⟨⟨hw, -, -⟩, hd, he⟩ := cons_iff.mp h
  have hall : ∀ y ∈ l' :: rest, y.waiting := by
    intro y hy
    rcases List.mem_cons.mp hy with rfl | hy
    · exact hw'
    · exact hw y hy
  refine cons_iff.mpr ⟨⟨hall, ?_, ?_⟩, ?_, ?_⟩
  · intro y hy hm
    simp only [List.head?_cons, Option.mem_def, Option.some.injEq] at hy
    subst hy
    simp [hx] at hm
  · simp only [hl, ite_true] at hd
    simp only [List.length_cons]
    omega
  · have hxe : x.entered = false := by simp [Level.entered, hx]
    rw [hd]; simp [hl, hxe]
  · have hxe : x.entered = false := by simp [Level.entered, hx]
    rw [he]; simp [hl, hxe]

/-- The innermost wrapper finished, having left: the caller below picks up
again, inside `schedule` or unwinding, and is still entered. -/
theorem pop (h : RunOk limit (l :: l' :: rest) w) (hl : l.entered = false) (exn : Bool) :
    RunOk limit (l'.resume exn :: rest) w := by
  obtain ⟨⟨hw, -, hb⟩, hd, he⟩ := cons_iff.mp h
  have hy : l'.waiting := hw l' (by simp)
  have hr : (l'.resume exn).entered ∧ ¬ ((l'.resume exn).pc = .markInUse ∨
      ∃ e, (l'.resume exn).pc = .unmarkInUse e) := by
    rcases l' with ⟨_, _ | _ | _ | _ | _ | ⟨c, catches, n⟩ | _ | _ | _⟩ <;>
      simp [Level.waiting] at hy
    cases exn <;> cases catches <;> simp [Level.resume, Level.entered]
  refine cons_iff.mpr ⟨⟨fun y hy => hw y (List.mem_cons_of_mem _ hy), ?_, ?_⟩, ?_, ?_⟩
  · intro y hy hm
    simp only [List.head?_cons, Option.mem_def, Option.some.injEq] at hy
    subst hy
    exact absurd hm hr.2
  · simp only [List.length_cons] at hb ⊢; omega
  · simp only [hl] at hd; simpa [hr.1] using hd
  · simpa [hl, hr.1] using he

/-- The outermost wrapper finished, having left: the stack is empty, the depth
zero and the stopwatch closed. -/
theorem pop_last (h : RunOk limit [l] w) (hl : l.entered = false) : RunOk limit [] w := by
  obtain ⟨-, hd, he⟩ := h
  exact ⟨StackOk.nil limit, by simpa [hl] using hd, by simpa [hl] using he⟩

end RunOk

/-- `RunOk` reads only the worker's depth and executing stopwatch. -/
theorem RunOk.congr {limit : Int} {levels : List Level} {w w' : Worker} (h : RunOk limit levels w)
    (hd : w'.recursionDepth = w.recursionDepth) (he : w'.executing = w.executing) :
    RunOk limit levels w' :=
  ⟨h.stack, hd ▸ h.depth, he ▸ h.executing⟩

/-- The empty stack: no wrapper has entered, and the executing stopwatch is
closed. -/
theorem RunOk.nil_iff {limit : Int} {w : Worker} :
    RunOk limit [] w ↔ w.recursionDepth = 0 ∧ w.executing.start = none := by
  constructor
  · rintro ⟨-, hd, he⟩
    exact ⟨by simpa using hd, by simpa using he⟩
  · rintro ⟨hd, he⟩
    exact ⟨StackOk.nil limit, by simpa using hd, by simp [he]⟩

/-- The stack after one step of its innermost wrapper is the stack of the worker
after that step. -/
@[simp] theorem WorkerPc.levels_afterLevel (handled : Bool) (rest : List Level) (r : LevelStep) :
    (WorkerPc.afterLevel handled rest r).levels = Level.stack rest r := by
  cases r with
  | next => rfl
  | push => rfl
  | finish exn => cases rest <;> cases exn <;> rfl

/-- One step of the innermost wrapper keeps its stack in agreement with the
worker. Only a dispatch below the limit pushes, and only the outermost wrapper
touches the stopwatch. -/
theorem LevelMove.runOk {cfg : Config} {s : Executor} {l : Level} {rest : List Level}
    {w w' : Worker} {r : LevelStep} {e : Event} (hm : LevelMove cfg s w l w' r e)
    (h : RunOk cfg.options.recursionLimit (l :: rest) w) :
    RunOk cfg.options.recursionLimit (Level.stack rest r) w' := by
  obtain ⟨⟨hw, -, hb⟩, hd, hx⟩ := RunOk.cons_iff.mp h
  cases hm with
  | enterOuter h0 =>
    -- the depth was zero, so this is the outermost wrapper
    obtain rfl : rest = [] := List.eq_nil_of_length_eq_zero (by simp [Level.entered] at hd; omega)
    exact RunOk.cons_iff.mpr ⟨⟨by simp, fun _ _ _ => rfl, hb⟩, by simp [Level.entered],
      by simp [CumulativeTickTimer.markRunning, Level.entered]⟩
  | enterInner h0 =>
    -- an inner wrapper: the ones below have entered, so the stopwatch is open
    cases rest with
    | nil => simp [Level.entered] at hd; exact absurd hd h0
    | cons y rest =>
      refine RunOk.cons_iff.mpr ⟨⟨hw, by simp, hb⟩, ?_, by simpa using hx⟩
      simp [Level.entered] at hd ⊢; omega
  | leaveOuter h0 =>
    -- the depth drops to zero, so this is the outermost wrapper
    obtain rfl : rest = [] := List.eq_nil_of_length_eq_zero (by simp [Level.entered] at hd; omega)
    exact RunOk.cons_iff.mpr ⟨⟨by simp, fun _ _ _ => rfl, hb⟩, by simp [Level.entered],
      by simp [CumulativeTickTimer.markStopped, Level.entered]⟩
  | leaveInner h0 =>
    cases rest with
    | nil => simp [Level.entered] at hd; simp [hd] at h0
    | cons y rest =>
      refine RunOk.cons_iff.mpr ⟨⟨hw, by simp, hb⟩, ?_, by simpa using hx⟩
      simp [Level.entered] at hd ⊢; omega
  | callInline hc =>
    cases hc with
    | dispatch _ _ hdep hlt =>
      cases hdep
      exact h.push rfl (by simp [Level.waiting]) rfl hlt
  | executed =>
    cases rest with
    | nil => exact h.pop_last rfl
    | cons y rest => exact h.pop rfl _
  | decrement | spentQueued | markInUse | done | raise | schedule | callNext | callDone | unmarkInUse =>
    exact h.next rfl (by simp) rfl rfl

/-- A wrapper that picks up after its inline task holds the in-use mark exactly
when it did while waiting: both are between the outermost wrapper's mark and
unmark. -/
theorem Level.marked_resume {l : Level} (h : l.waiting) (exn : Bool) : (l.resume exn).marked = l.marked := by
  rcases l with ⟨_, _ | _ | _ | _ | _ | ⟨c, catches, n⟩ | _ | _ | _⟩ <;> simp [Level.waiting] at h
  cases exn <;> cases catches <;> rfl

/-- The outermost wrapper holds the in-use mark exactly from the increment of
`_threadsInUse` to its decrement: one step of the innermost wrapper moves the
mark by what it adds to the counter. -/
theorem LevelMove.inUse {cfg : Config} {s : Executor} {l : Level} {rest : List Level}
    {w w' : Worker} {r : LevelStep} {e : Event} (hm : LevelMove cfg s w l w' r e)
    (h : RunOk cfg.options.recursionLimit (l :: rest) w) :
    (((Level.stack rest r).getLast?.any Level.marked).toNat : Int) =
      ((l :: rest).getLast?.any Level.marked).toNat + e.delta .threadsInUse := by
  obtain ⟨⟨hw, halone, -⟩, hd, -⟩ := RunOk.cons_iff.mp h
  cases hm with
  | markInUse | unmarkInUse =>
    -- only the outermost wrapper marks or unmarks, and it is alone
    obtain rfl : rest = [] := by simpa using halone _ rfl (by simp)
    rfl
  | enterInner h0 | leaveInner h0 =>
    -- an inner wrapper enters or leaves: the outermost one below keeps the mark
    cases rest with
    | nil => simp [Level.entered] at hd; simp_all
    | cons y rest => simp [Level.stack, Event.delta, List.getLast?_cons]
  | callNext hc | callDone hc =>
    rw [Event.delta_of_ofSchedule hc.ofSchedule (by simp)]
    cases rest <;> simp [Level.stack, Level.marked, List.getLast?_cons]
  | callInline hc =>
    rw [Event.delta_of_ofSchedule hc.ofSchedule (by simp)]
    cases rest <;> simp [Level.stack, Level.marked, List.getLast?_cons]
  | executed =>
    -- the finished wrapper has unmarked already; the one below picks up with the same mark
    cases rest with
    | nil => simp [Level.stack, Level.marked, Event.delta]
    | cons y rest =>
      have hy := Level.marked_resume (hw y (by simp)) ‹Bool›
      cases rest <;> simp [Level.stack, Event.delta, List.getLast?_cons, hy]
  | decrement | spentQueued | enterOuter | done | raise | schedule | leaveOuter =>
    cases rest <;> simp [Level.stack, Level.marked, Event.delta, List.getLast?_cons]

end AdaptiveExecutor
