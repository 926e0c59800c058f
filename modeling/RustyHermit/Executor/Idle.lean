import RustyHermit.Lib.Machine
import RustyHermit.Lib.Executor
import RustyHermit.Executor.Drivers

/-!
# Parking with work left: `block_on` and `QUEUE`

`block_on` is documented to run the executor when idling. Here its loop meets
the executor: the thread drains `QUEUE` at the point `runExecutor` of the loop,
other threads may drain it at any time, and tasks are woken at any time. The
flag and the network delay are arbitrary at each iteration.

The loop drains `QUEUE` after it has parked, not before. So what a `Pending`
poll left in `QUEUE` has been run when the thread parks only if other threads
have run it (`parking_drained_iff`); a thread that is alone on the executor
parks with the very task it waits for in `QUEUE` (`blockOn_parks_on_work`).
-/

namespace RustyHermit.Executor

open RustyHermit.Smoltcp BlockOn

/-- A step of a thread inside `run_executor`. -/
inductive ExecOp where
  | pop
  | start
  /-- the future of the started task was pending -/
  | polled
  | finish
  /-- the future of the started task was ready -/
  | complete
deriving DecidableEq

/-- A thread in `block_on`, and the executor; `none` is that thread, `some i`
another one. -/
structure Idle (τ ι T : Type) where
  call : Call T
  executor : Executor τ (Option ι)
  /-- ghost: what `QUEUE` held when the latest poll returned `Pending` -/
  atPoll : List τ
  /-- ghost: the tasks whose runnable was run to its end since -/
  ran : List τ
  /-- ghost: those among them that another thread ran -/
  helped : List τ

namespace Idle

variable {τ ι T : Type}

/-- What can happen next. -/
inductive Label (τ ι T : Type) where
  /-- a step of the loop of `block_on` -/
  | thread (a : Act T)
  /-- the thread, out of `block_on`, enters it again -/
  | enter (start : Instant) (timeout : Option Duration)
  /-- a thread inside `run_executor` -/
  | exec (i : Option ι) (op : ExecOp)
  /-- a task is woken, or spawned -/
  | wake (r : τ)

/-- The thread is about to call `sys_block_current_task` or
`sys_block_current_task_with_timeout`. -/
def Parking (s : Idle τ ι T) : Prop :=
  ∃ d, s.call.loc = .block d

/-- What `QUEUE` held at the latest `Pending` poll has been popped and run. -/
def Drained (s : Idle τ ι T) : Prop :=
  ∀ r ∈ s.atPoll, r ∈ s.ran

/-- The effect of the loop's step `a`: a `Pending` poll takes the snapshot, and
`run_executor` returns only when it finds `QUEUE` empty. -/
def effect (s : Idle τ ι T) : Act T → Option (Idle τ ι T)
  | .poll .pending =>
    some { s with atPoll := s.executor.queue, ran := [], helped := [] }
  | .runExecutor =>
    -- `while let Ok(runnable) = QUEUE.pop()`, after the last `runnable.run()`
    match s.executor.queue, s.executor.hold none with
    | [], .nothing => some s
    | _, _ => none
  | _ => some s

variable [DecidableEq τ] [DecidableEq ι]

/-- One step of a thread in `run_executor`. -/
def execOp (e : Executor τ (Option ι)) (i : Option ι) :
    ExecOp → Option (Executor τ (Option ι))
  | .pop => e.pop i
  | .start => e.start i
  | .polled => e.polled i
  | .finish => e.finish i
  | .complete => e.complete i

/-- The task whose run ends with this operation. -/
def ends (e : Executor τ (Option ι)) (i : Option ι) : ExecOp → List τ
  | .finish | .complete => (e.hold i).task.toList
  | _ => []

/-- One step. -/
def next (s : Idle τ ι T) : Label τ ι T → Option (Idle τ ι T)
  | .thread a =>
    (s.call.next a).bind fun call => (s.effect a).map fun s' => { s' with call }
  | .enter start timeout =>
    match s.call.loc with
    | .ret _ => some { s with call := .enter start timeout }
    | _ => none
  | .exec i op =>
    match i, s.call.loc with
    -- the thread itself runs tasks at one point of its loop only
    | none, .runExecutor =>
      (execOp s.executor none op).map fun executor =>
        { s with executor, ran := ends s.executor none op ++ s.ran }
    | none, _ => none
    | some j, _ =>
      (execOp s.executor (some j) op).map fun executor =>
        { s with
          executor
          ran := ends s.executor (some j) op ++ s.ran
          helped := ends s.executor (some j) op ++ s.helped }
  | .wake r => some { s with executor := s.executor.wake r }

/-- `block_on` has been entered, with any runnables in `QUEUE`. -/
def machine (τ ι T : Type) [DecidableEq τ] [DecidableEq ι] :
    Machine (Idle τ ι T) (Label τ ι T) where
  init s := s.call.loc = .poll ∧ s.executor.WF ∧
    s.atPoll = [] ∧ s.ran = [] ∧ s.helped = []
  next := next

/-! ## Parking on the awaited task -/

/-- A thread about to `block_on` the task it has just spawned, with the threads
`ι` beside it. -/
def spawned (ι : Type) : Idle Unit ι Unit where
  call := .enter ⟨0⟩ none
  executor := Executor.wake ⟨[], fun _ => .idle, fun _ => .nothing⟩ ()
  atPoll := []
  ran := []
  helped := []

theorem reachable_spawned :
    (machine Unit ι Unit).Reachable (spawned ι) :=
  .init ⟨rfl, Executor.WF.idle.wake (), rfl, rfl, rfl⟩

/-- The thread goes straight on to park: no event is due and the flag is clear. -/
def straightToPark (ι : Type) : List (Label Unit ι Unit) :=
  [.thread (.poll .pending), .thread (.timeout ⟨0⟩), .thread (.delay none),
    .thread (.swap false)]

/-- `block_on` parks with work left: nobody but this thread runs the executor,
and the awaited task is still in `QUEUE` when the thread is about to block. -/
theorem blockOn_parks_on_work :
    ¬ ∀ s : Idle Unit Empty Unit,
      (machine Unit Empty Unit).Reachable s → s.Parking → s.Drained := by
  intro h
  obtain ⟨s, hrun, hpark, hpoll, hran⟩ : ∃ s : Idle Unit Empty Unit,
      (machine Unit Empty Unit).run (spawned Empty) (straightToPark Empty) = some s ∧
        s.Parking ∧ s.atPoll = [()] ∧ s.ran = [] :=
    ⟨_, rfl, ⟨none, rfl⟩, rfl, rfl⟩
  have hqueued : () ∈ s.atPoll := by
    rw [hpoll]
    exact List.mem_cons_self
  have hmem := h s (reachable_spawned.run hrun) hpark () hqueued
  rw [hran] at hmem
  cases hmem

/-! ## Exactly when nothing is left behind -/

/-- The points between a `Pending` poll and the call that parks. -/
def beforePark : Loc T → Bool
  | .timeout | .delay | .swap _ | .block _ => true
  | _ => false

/-- Between a `Pending` poll and a park, whatever was run was run by others. -/
structure Inv (s : Idle τ ι T) : Prop where
  helped_ran : ∀ r ∈ s.helped, r ∈ s.ran
  ran_helped : beforePark s.call.loc = true → ∀ r ∈ s.ran, r ∈ s.helped

omit [DecidableEq τ] [DecidableEq ι] in
/-- A step of the loop records no run; the `Pending` poll clears the record. -/
theorem effect_cases {s s' : Idle τ ι T} {a : Act T} (h : s.effect a = some s') :
    (a = .poll .pending ∧ s'.ran = [] ∧ s'.helped = []) ∨
      (a ≠ .poll .pending ∧ s' = s) := by
  unfold effect at h
  split at h
  case h_1 =>
    cases h
    exact .inl ⟨rfl, rfl, rfl⟩
  case h_2 =>
    split at h <;> cases h
    exact .inr ⟨nofun, rfl⟩
  case h_3 hne _ =>
    cases h
    exact .inr ⟨hne, rfl⟩

omit [DecidableEq τ] [DecidableEq ι] in
theorem inv_thread {s s' : Idle τ ι T} {a : Act T} {loc : Loc T} (h : s.Inv)
    (hstep : s.call.Step a loc) (heff : s.effect a = some s') :
    Inv { s' with call := { s.call with loc } } := by
  rcases effect_cases heff with ⟨-, hran, hhelped⟩ | ⟨hne, rfl⟩
  · constructor
    · intro r hr
      rw [hhelped] at hr
      cases hr
    · intro _ r hr
      rw [hran] at hr
      cases hr
  · refine ⟨h.helped_ran, fun hloc => h.ran_helped ?_⟩
    -- from the poll to the park the loop passes no `run_executor`
    cases hstep with
    | notExpired hl _ | long hl _ | parking hl =>
      rw [hl]
      rfl
    | pending => exact absurd rfl hne
    | _ => cases hloc

/-- Every step keeps the invariant. -/
theorem inv_next {s s' : Idle τ ι T} {l : Label τ ι T} (h : s.Inv)
    (hnext : s.next l = some s') : s'.Inv := by
  cases l with
  | thread a =>
    obtain ⟨call, hcall, hrest⟩ := Option.bind_eq_some_iff.mp hnext
    obtain ⟨s₁, heff, rfl⟩ := Option.map_eq_some_iff.mp hrest
    obtain ⟨loc, hstep, rfl⟩ := Call.next_cases hcall
    exact inv_thread h hstep heff
  | enter start timeout =>
    simp only [next] at hnext
    split at hnext <;> cases hnext
    exact ⟨h.helped_ran, nofun⟩
  | wake r =>
    cases hnext
    exact ⟨h.helped_ran, h.ran_helped⟩
  | exec i op =>
    simp only [next] at hnext
    split at hnext
    case h_1 hloc =>
      -- the thread itself: it is in `run_executor`, so not on its way to park
      obtain ⟨e, -, rfl⟩ := Option.map_eq_some_iff.mp hnext
      refine ⟨fun r hr => List.mem_append_right _ (h.helped_ran r hr), fun hb => ?_⟩
      simp only [hloc, beforePark] at hb
      cases hb
    case h_2 => cases hnext
    case h_3 j _ =>
      obtain ⟨e, -, rfl⟩ := Option.map_eq_some_iff.mp hnext
      constructor
      · intro r hr
        exact (List.mem_append.mp hr).elim (List.mem_append_left _)
          fun hr => List.mem_append_right _ (h.helped_ran r hr)
      · intro hb r hr
        exact (List.mem_append.mp hr).elim (List.mem_append_left _)
          fun hr => List.mem_append_right _ (h.ran_helped hb r hr)

/-- **Exactly when `block_on` parks with nothing left behind**: when it is about
to block the task, what `QUEUE` held at its latest `Pending` poll has been
popped and run if and only if other threads have popped and run it. -/
theorem parking_drained_iff {s : Idle τ ι T} (h : (machine τ ι T).Reachable s)
    (hpark : s.Parking) : s.Drained ↔ ∀ r ∈ s.atPoll, r ∈ s.helped := by
  have hinv : s.Inv := h.invariant (I := Inv)
    (by
      rintro s ⟨-, -, -, hran, hhelped⟩
      exact ⟨by rw [hhelped]; nofun, fun _ => by rw [hran]; nofun⟩)
    (fun _ _ _ hinv hnext => inv_next hinv hnext)
  obtain ⟨d, hd⟩ := hpark
  constructor
  · intro hdrained r hr
    exact hinv.ran_helped (by rw [hd]; rfl) r (hdrained r hr)
  · intro hhelped r hr
    exact hinv.helped_ran r (hhelped r hr)

/-- A park with a second thread on the executor, which runs the awaited task right after
the poll. -/
theorem parking_drained_by_helper : ∃ s : Idle Unit Unit Unit,
    (machine Unit Unit Unit).run (spawned Unit)
      (.thread (.poll .pending) :: .exec (some ()) .pop :: .exec (some ()) .start ::
        .exec (some ()) .complete :: (straightToPark Unit).tail) = some s ∧
      s.atPoll = [()] ∧ s.Parking ∧ s.Drained := by
  obtain ⟨s, hrun, hpoll, hpark, hhelped⟩ : ∃ s : Idle Unit Unit Unit,
      (machine Unit Unit Unit).run (spawned Unit)
        (.thread (.poll .pending) :: .exec (some ()) .pop :: .exec (some ()) .start ::
          .exec (some ()) .complete :: (straightToPark Unit).tail) = some s ∧
        s.atPoll = [()] ∧ s.Parking ∧ s.helped = [()] :=
    ⟨_, rfl, rfl, ⟨none, rfl⟩, rfl⟩
  have hs := reachable_spawned.run hrun
  refine ⟨s, hrun, hpoll, hpark, (parking_drained_iff hs hpark).mpr ?_⟩
  rw [hpoll, hhelped]
  exact fun _ hr => hr

end Idle

end RustyHermit.Executor
