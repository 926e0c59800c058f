import Mathlib.Logic.Function.Basic
import RustyHermit.Lib.Machine
import RustyHermit.Executor.Drivers

/-!
# Parking against waking: `block_on` and `ThreadNotify`

One thread runs `block_on` on its thread-local `ThreadNotify`; any number of
other threads call `wake_by_ref` on it. The machine interleaves the points of
the loop (`BlockOn.Call.next`) with the two halves of every wake call, the
`unparked.swap(true)` and the `sys_wakeup_task` that follows if the flag was
clear, and with the kernel's timer. The notifier outlives the call: the flag
and the wake calls in progress are arbitrary when `block_on` is entered, and
it can be entered again after it returned.

The window between `unparked.swap(false)` and `sys_block_current_task` is the
weak point. A wake that fits into it sets the flag, finds the task not blocked
and is gone when the task blocks (`blockOn_loses_wakeup`). That is the only
way to lose one: in the runs in which no `sys_wakeup_task` is the last of its
kind to fall into the window, a blocked thread that was woken since its latest
poll always has a waker on its way (`noLostWakeup_of_not_missed`), and a step
outside this condition does block the thread for good (`stuck_of_missed`).
-/

namespace RustyHermit.Executor

open RustyHermit.Smoltcp BlockOn

/-- The kernel's view of the thread that runs `block_on`. -/
inductive KernelTask where
  | runnable
  /-- `sys_block_current_task` -/
  | blocked
  /-- `sys_block_current_task_with_timeout` -/
  | blockedWithTimeout
deriving DecidableEq, Repr

/-- `sys_wakeup_task`: a blocked task becomes runnable, any other is left
alone. -/
def KernelTask.wakeup : KernelTask → KernelTask
  | .runnable | .blocked | .blockedWithTimeout => .runnable

/-- The thread in `block_on`, its notifier, and the threads that wake it. -/
structure Park (ι T : Type) where
  call : Call T
  /-- `ThreadNotify::unparked` -/
  unparked : Bool
  task : KernelTask
  /-- the threads between their `swap(true)` and their `sys_wakeup_task` -/
  waking : ι → Bool
  /-- ghost: a wake was performed since the latest poll returned `Pending`; a
  wake counts from its `swap(true)`, where it takes effect -/
  woken : Bool

namespace Park

variable {ι T : Type}

/-- What can happen next. -/
inductive Label (ι T : Type) where
  /-- a step of the loop -/
  | thread (a : Act T)
  /-- the thread, out of `block_on`, enters it again -/
  | enter (start : Instant) (timeout : Option Duration)
  /-- `i` enters `wake_by_ref`: `unparked.swap(true)` -/
  | wake (i : ι)
  /-- `i` goes on to `sys_wakeup_task` -/
  | wakeupTask (i : ι)
  /-- the time limit of `sys_block_current_task_with_timeout` is over -/
  | timer

/-- A wake call is in progress. -/
def Waking (s : Park ι T) : Prop :=
  ∃ i, s.waking i = true

/-- What the thread's step `a` does to the flag and the kernel; `none` if they
do not allow it. -/
def effect (s : Park ι T) : Act T → Option (Park ι T)
  | .poll .pending => some { s with woken := false }
  | .swap unparked =>
    if unparked = s.unparked then some { s with unparked := false } else none
  | .block => some { s with task := .blocked }
  | .blockWithTimeout _ => some { s with task := .blockedWithTimeout }
  -- a blocked task is switched away from, and goes on when it is runnable again
  | .yield => if s.task = .runnable then some s else none
  | .store => some { s with unparked := false }
  | _ => some s

/-- One step of the thread, a waker or the kernel. -/
def next [DecidableEq ι] (s : Park ι T) : Label ι T → Option (Park ι T)
  | .thread a =>
    (s.call.next a).bind fun call => (s.effect a).map fun s' => { s' with call }
  | .enter start timeout =>
    match s.call.loc with
    | .ret _ => some { s with call := .enter start timeout }
    | _ => none
  | .wake i =>
    if s.waking i then none
    else some { s with
      unparked := true
      woken := true
      -- only a clear flag is followed by `sys_wakeup_task`
      waking := if s.unparked then s.waking else Function.update s.waking i true }
  | .wakeupTask i =>
    if s.waking i then some { s with
      task := s.task.wakeup
      waking := Function.update s.waking i false }
    else none
  | .timer =>
    if s.task = .blockedWithTimeout then some { s with task := .runnable } else none

/-- `block_on` has just been entered; flag and wakers are as they were left. -/
def Init (s : Park ι T) : Prop :=
  s.call.loc = .poll ∧ s.task = .runnable ∧ s.woken = false

/-- The thread, the wakers and the timer in any order. -/
def machine (ι T : Type) [DecidableEq ι] : Machine (Park ι T) (Label ι T) where
  init := Init
  next := next

/-! ## What should hold, and how it fails -/

/-- Blocked without a time limit, the flag set and nobody about to wake the
thread: every later wake sees the flag and stops. -/
def Stuck (s : Park ι T) : Prop :=
  s.task = .blocked ∧ s.unparked = true ∧ ¬ s.Waking

/-- A thread woken since its latest poll is not blocked, unless its release is
on the way; and it is never stuck. -/
def NoLostWakeup (s : Park ι T) : Prop :=
  (s.woken = true → s.task = .blocked → s.Waking) ∧ ¬ s.Stuck

/-- `block_on` entered without a timeout by a thread nobody has woken yet; one
other thread can wake it. -/
def entered : Park Unit Unit where
  call := .enter ⟨0⟩ none
  unparked := false
  task := .runnable
  waking := fun _ => false
  woken := false

/-- No network event is due, so the thread goes to park: the first poll is
`Pending`, the flag is clear, and a whole wake call fits between the swap and
the block. -/
def lostSchedule : List (Label Unit Unit) :=
  [.thread (.poll .pending), .thread (.timeout ⟨0⟩), .thread (.delay none),
    .thread (.swap false), .wake (), .wakeupTask (), .thread .block]

/-- The wakeup of `lostSchedule` is lost. -/
theorem blockOn_loses_wakeup :
    ¬ ∀ s : Park Unit Unit, (machine Unit Unit).Reachable s → s.NoLostWakeup := by
  intro h
  have hinit : (machine Unit Unit).Reachable entered := .init ⟨rfl, rfl, rfl⟩
  obtain ⟨s, hrun, hblocked, hunparked, hwaking⟩ : ∃ s,
      (machine Unit Unit).run entered lostSchedule = some s ∧
        s.task = .blocked ∧ s.unparked = true ∧ s.waking () = false :=
    ⟨_, rfl, rfl, rfl, rfl⟩
  refine (h s (hinit.run hrun)).2 ⟨hblocked, hunparked, ?_⟩
  rintro ⟨⟨⟩, hi⟩
  rw [hwaking] at hi
  cases hi

/-! ## The invariant -/

/-- The points between a `Pending` poll and the `store` that follows a park:
the flag is not cleared here without being looked at. -/
def keepsFlag : Loc T → Bool
  | .timeout | .delay | .swap _ | .block _ | .yield | .store => true
  | _ => false

/-- The step is a `sys_wakeup_task` that falls between the thread's
`swap(false)` and its `sys_block_current_task`, with the flag already set
again and no other wake call in progress. -/
def Missed (s : Park ι T) : Label ι T → Prop
  | .wakeupTask i => s.call.loc = .block none ∧ s.unparked = true ∧
      ∀ j, j ≠ i → s.waking j = false
  | _ => False

/-- The invariant of the runs without a missed wake. -/
structure Inv (s : Park ι T) : Prop where
  /-- only a thread inside `sys_yield` is blocked -/
  inYield : s.task ≠ .runnable → s.call.loc = .yield
  /-- a wake since the latest poll is remembered by the flag -/
  remembered : keepsFlag s.call.loc = true → s.woken = true → s.unparked = true
  /-- in the window, a set flag is followed by a `sys_wakeup_task` -/
  window : s.call.loc = .block none → s.unparked = true → s.Waking
  /-- and so it is once the thread is blocked -/
  blocked : s.task = .blocked → s.unparked = true → s.Waking

theorem Inv.noLostWakeup {s : Park ι T} (h : s.Inv) : s.NoLostWakeup := by
  constructor
  · intro hwoken hblocked
    have hloc : s.call.loc = .yield := h.inYield (by rw [hblocked]; decide)
    exact h.blocked hblocked (h.remembered (by rw [hloc]; rfl) hwoken)
  · rintro ⟨hblocked, hunparked, hnone⟩
    exact hnone (h.blocked hblocked hunparked)

theorem inv_init {s : Park ι T} (h : s.Init) : s.Inv := by
  obtain ⟨hloc, htask, hwoken⟩ := h
  constructor
  · exact fun hne => absurd htask hne
  · intro _ hw
    rw [hwoken] at hw
    cases hw
  · intro hl
    rw [hloc] at hl
    cases hl
  · intro hb
    rw [htask] at hb
    cases hb

/-- While the thread is runnable, only the flag's memory and the window
matter. -/
theorem Inv.of_runnable {s : Park ι T} (htask : s.task = .runnable)
    (hrem : keepsFlag s.call.loc = true → s.woken = true → s.unparked = true)
    (hwin : s.call.loc = .block none → s.unparked = true → s.Waking) : s.Inv where
  inYield hne := absurd htask hne
  remembered := hrem
  window := hwin
  blocked hb := by
    rw [htask] at hb
    cases hb

/-- A thread outside `sys_yield` is runnable. -/
theorem Inv.runnable {s : Park ι T} (h : s.Inv) (hloc : s.call.loc ≠ .yield) :
    s.task = .runnable :=
  Decidable.byContradiction fun hr => hloc (h.inYield hr)

/-- The thread's own steps keep the invariant. -/
theorem inv_thread {s s' : Park ι T} {a : Act T} {loc : Loc T} (h : s.Inv)
    (hstep : s.call.Step a loc) (heff : s.effect a = some s') :
    Inv { s' with call := { s.call with loc } } := by
  cases hstep with
  | ready hl | expired hl _ | short hl _ | runExecutor hl =>
    cases heff
    exact .of_runnable (h.runnable (by rw [hl]; nofun)) nofun nofun
  | pending hl =>
    -- a new poll: no wake has come since
    cases heff
    exact .of_runnable (h.runnable (by rw [hl]; nofun)) nofun nofun
  | notExpired hl _ | long hl _ =>
    cases heff
    refine .of_runnable (h.runnable (by rw [hl]; nofun)) (fun _ => ?_) nofun
    exact h.remembered (by rw [hl]; rfl)
  | unparked hl =>
    -- the flag is cleared, but the loop polls again before it parks
    obtain ⟨-, hs'⟩ := Option.ite_none_right_eq_some.mp heff
    cases hs'
    exact .of_runnable (h.runnable (by rw [hl]; nofun)) nofun nofun
  | parking hl =>
    -- the swap read a clear flag: no wake came since the poll
    obtain ⟨hflag, hs'⟩ := Option.ite_none_right_eq_some.mp heff
    cases hs'
    refine .of_runnable (h.runnable (by rw [hl]; nofun)) (fun _ hwoken => ?_) nofun
    have := h.remembered (by rw [hl]; rfl) hwoken
    rw [← hflag] at this
    cases this
  | block hl =>
    -- what was true in the window is true of the blocked thread
    cases heff
    exact ⟨fun _ => rfl, fun _ => h.remembered (by rw [hl]; rfl), nofun,
      fun _ => h.window hl⟩
  | blockWithTimeout hl =>
    cases heff
    exact ⟨fun _ => rfl, fun _ => h.remembered (by rw [hl]; rfl), nofun, nofun⟩
  | yield hl =>
    obtain ⟨htask, hs'⟩ := Option.ite_none_right_eq_some.mp heff
    cases hs'
    exact .of_runnable htask (fun _ => h.remembered (by rw [hl]; rfl)) nofun
  | store hl =>
    cases heff
    exact .of_runnable (h.runnable (by rw [hl]; nofun)) nofun nofun

variable [DecidableEq ι]

/-- A `swap(true)` keeps the invariant: it sets the flag, and if the flag was
clear it leaves its caller on the way to `sys_wakeup_task`. -/
theorem inv_wake {s : Park ι T} (h : s.Inv) (i : ι) :
    Inv { s with
      unparked := true
      woken := true
      waking := if s.unparked then s.waking
        else Function.update s.waking i true } := by
  have hwaking : (s.unparked = true → s.Waking) →
      ∃ j, (if s.unparked then s.waking
        else Function.update s.waking i true) j = true := by
    intro hold
    by_cases hu : s.unparked = true
    · obtain ⟨j, hj⟩ := hold hu
      exact ⟨j, by rw [if_pos hu]; exact hj⟩
    · exact ⟨i, by rw [if_neg hu]; exact Function.update_self i true s.waking⟩
  exact ⟨h.inYield, fun _ _ => rfl, fun hl _ => hwaking (h.window hl),
    fun hb _ => hwaking (h.blocked hb)⟩

/-- A `sys_wakeup_task` that is not missed keeps the invariant. -/
theorem inv_wakeupTask {s : Park ι T} (h : s.Inv) {i : ι}
    (hok : ¬ s.Missed (.wakeupTask i)) :
    Inv { s with
      task := s.task.wakeup
      waking := Function.update s.waking i false } := by
  refine .of_runnable (by cases s.task <;> rfl) h.remembered fun hl hu => ?_
  -- in the window, someone else is still on the way
  have hother : ∃ j, j ≠ i ∧ s.waking j = true := by
    by_contra hnone
    refine hok ⟨hl, hu, fun j hj => ?_⟩
    exact Bool.eq_false_iff.mpr fun hw => hnone ⟨j, hj, hw⟩
  obtain ⟨j, hj, hw⟩ := hother
  refine ⟨j, ?_⟩
  show Function.update s.waking i false j = true
  rw [Function.update_of_ne hj]
  exact hw

/-- Every step that is not missed keeps the invariant. -/
theorem inv_next {s s' : Park ι T} {l : Label ι T} (h : s.Inv)
    (hok : ¬ s.Missed l) (hnext : s.next l = some s') : s'.Inv := by
  cases l with
  | thread a =>
    obtain ⟨call, hcall, hrest⟩ := Option.bind_eq_some_iff.mp hnext
    obtain ⟨s₁, heff, rfl⟩ := Option.map_eq_some_iff.mp hrest
    obtain ⟨loc, hstep, rfl⟩ := Call.next_cases hcall
    exact inv_thread h hstep heff
  | enter start timeout =>
    simp only [next] at hnext
    split at hnext <;> cases hnext
    rename_i res hl
    exact .of_runnable (h.runnable (by rw [hl]; nofun)) nofun nofun
  | wake i =>
    obtain ⟨-, hs'⟩ := Option.ite_none_left_eq_some.mp hnext
    cases hs'
    exact inv_wake h i
  | wakeupTask i =>
    obtain ⟨-, hs'⟩ := Option.ite_none_right_eq_some.mp hnext
    cases hs'
    exact inv_wakeupTask h hok
  | timer =>
    obtain ⟨hb, hs'⟩ := Option.ite_none_right_eq_some.mp hnext
    cases hs'
    exact .of_runnable rfl h.remembered h.window

/-! ## Exactly when no wake is lost -/

/-- **No lost wakeup without a missed `sys_wakeup_task`**: in every run in
which no `sys_wakeup_task` is missed, no state has lost a wake. -/
theorem noLostWakeup_of_not_missed {s : Park ι T}
    (h : (machine ι T).ReachableBy (fun s l => ¬ s.Missed l) s) : s.NoLostWakeup :=
  (Machine.ReachableBy.invariant (I := Inv) (fun _ => inv_init)
    (fun _ _ _ hinv hok => inv_next hinv hok) h).noLostWakeup

/-- The other placement of the same wake: the thread has blocked when it comes. -/
def blockedSchedule : List (Label Unit Unit) :=
  [.thread (.poll .pending), .thread (.timeout ⟨0⟩), .thread (.delay none),
    .thread (.swap false), .thread .block, .wake ()]

/-- No `sys_wakeup_task` comes. -/
def noWakeupTask (_ : Park Unit Unit) : Label Unit Unit → Bool
  | .wakeupTask _ => false
  | _ => true

theorem not_missed {s : Park Unit Unit} {l : Label Unit Unit}
    (h : noWakeupTask s l = true) : ¬ s.Missed l := by
  intro hmissed
  cases l with
  | wakeupTask i => cases h
  | _ => exact hmissed

/-- A thread that was woken after it blocked, its waker still before the
`sys_wakeup_task`. -/
theorem noLostWakeup_after_block : ∃ s : Park Unit Unit,
    (machine Unit Unit).run entered blockedSchedule = some s ∧
      s.woken = true ∧ s.task = .blocked ∧ s.NoLostWakeup := by
  have hinit : (machine Unit Unit).ReachableBy (fun s l => ¬ s.Missed l) entered :=
    .init ⟨rfl, rfl, rfl⟩
  have hrun : (machine Unit Unit).runBy noWakeupTask entered blockedSchedule =
      (machine Unit Unit).run entered blockedSchedule := rfl
  have hs := hinit.runBy (fun _ _ => not_missed) hrun
  exact ⟨_, rfl, rfl, rfl, noLostWakeup_of_not_missed hs⟩

/-- The condition leaves out nothing else: after a missed `sys_wakeup_task`
the thread's next step leaves it stuck. -/
theorem stuck_of_missed {s s₁ s₂ : Park ι T} {i : ι}
    (hmissed : s.Missed (.wakeupTask i))
    (h₁ : s.next (.wakeupTask i) = some s₁)
    (h₂ : s₁.next (.thread .block) = some s₂) : s₂.Stuck := by
  obtain ⟨hl, hu, hothers⟩ := hmissed
  obtain ⟨-, hs₁⟩ := Option.ite_none_right_eq_some.mp h₁
  cases hs₁
  obtain ⟨call, -, hrest⟩ := Option.bind_eq_some_iff.mp h₂
  obtain ⟨s₃, heff, rfl⟩ := Option.map_eq_some_iff.mp hrest
  cases heff
  refine ⟨rfl, hu, ?_⟩
  rintro ⟨j, hj⟩
  replace hj : Function.update s.waking i false j = true := hj
  by_cases hji : j = i
  · rw [hji, Function.update_self] at hj
    cases hj
  · rw [Function.update_of_ne hji, hothers j hji] at hj
    cases hj

end Park

end RustyHermit.Executor
