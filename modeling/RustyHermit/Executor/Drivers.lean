import RustyHermit.Smoltcp.Time

/-!
# The two drivers of a future: `block_on` and `poll_on` (`executor.rs`)

Both functions are one loop around `future.as_mut().poll(&mut cx)`. They are
translated as control automata: a `Loc` is a point of the loop body, an `Act`
is what happens there — a value the loop reads from its surroundings (the
result of a poll, the clock, the network delay, the old value of the
`unparked` flag) or an effect it has on them (parking the thread, storing the
flag, leaving `run_executor`). The automata fix the control flow only; the
machines built on them say where the values come from and what the effects do.

- `BlockOn.Call.next`: the loop of `block_on`.
- `PollOn.Call.next`: the loop of `poll_on`.
- `BlockOn.Call.next_cases`: everything a step of `block_on` can be. Proofs
  about `block_on` case on this, never on the definition.
-/

namespace RustyHermit.Executor

open RustyHermit.Smoltcp

/-- `core::task::Poll`. -/
inductive Poll (T : Type) where
  | ready (t : T)
  | pending
deriving DecidableEq, Repr

/-- The deadline check of both loops: `Instant::now() >= start + duration`,
made only `if let Some(duration) = timeout`. -/
def deadlineReached (start : Instant) (timeout : Option Duration)
    (now : Instant) : Bool :=
  match timeout with
  | some duration => decide (start + duration ≤ now)
  | none => false

/-- `delay.is_none() || delay.unwrap() > 100`, in milliseconds. -/
def longDelay : Option UInt64 → Bool
  | none => true
  | some d => decide (100 < d)

namespace BlockOn

/-- The points of the loop of `block_on`. -/
inductive Loc (T : Type) where
  /-- about to poll the future -/
  | poll
  /-- the poll was `Pending`; about to check the deadline -/
  | timeout
  /-- about to ask `network_delay` -/
  | delay
  /-- long delay: about to `unparked.swap(false)` -/
  | swap (delay : Option UInt64)
  /-- the flag was clear: about to block the current task -/
  | block (delay : Option UInt64)
  /-- the task is blocked: inside `sys_yield` -/
  | yield
  /-- about to `unparked.store(false)` -/
  | store
  /-- inside `run_executor` -/
  | runExecutor
  /-- returned -/
  | ret (res : Except Unit T)

/-- What the loop of `block_on` reads or does in one step. -/
inductive Act (T : Type) where
  | poll (p : Poll T)
  | timeout (now : Instant)
  | delay (d : Option UInt64)
  | swap (unparked : Bool)
  /-- `sys_block_current_task()` -/
  | block
  /-- `sys_block_current_task_with_timeout(d)` -/
  | blockWithTimeout (d : UInt64)
  /-- `sys_yield()` returns -/
  | yield
  | store
  /-- `run_executor()` returns: `QUEUE.pop()` was an error -/
  | runExecutor
deriving DecidableEq

/-- One activation of `block_on`: the two values fixed at its start, and the
point its loop has reached. -/
structure Call (T : Type) where
  start : Instant
  timeout : Option Duration
  loc : Loc T

namespace Call

variable {T : Type}

/-- The point a step leads to; `none` if the loop does not do `a` here. -/
def nextLoc (c : Call T) (a : Act T) : Option (Loc T) :=
  match c.loc, a with
  | .poll, .poll (.ready t) => some (.ret (.ok t))
  | .poll, .poll .pending => some .timeout
  | .timeout, .timeout now =>
    if deadlineReached c.start c.timeout now then some (.ret (.error ()))
    else some .delay
  | .delay, .delay d => if longDelay d then some (.swap d) else some .runExecutor
  | .swap d, .swap unparked => if !unparked then some (.block d) else some .poll
  | .block none, .block => some .yield
  | .block (some d), .blockWithTimeout d' => if d = d' then some .yield else none
  | .yield, .yield => some .store
  | .store, .store => some .runExecutor
  | .runExecutor, .runExecutor => some .poll
  | _, _ => none

/-- One step of the loop of `block_on`. -/
def next (c : Call T) (a : Act T) : Option (Call T) :=
  (c.nextLoc a).map fun loc => { c with loc }

/-- Entering `block_on`. -/
def enter (start : Instant) (timeout : Option Duration) : Call T :=
  { start, timeout, loc := .poll }

/-- What one step of the loop of `block_on` can be, with its guard. -/
inductive Step (c : Call T) : Act T → Loc T → Prop where
  | ready {t : T} : c.loc = .poll → Step c (.poll (.ready t)) (.ret (.ok t))
  | pending : c.loc = .poll → Step c (.poll .pending) .timeout
  | expired {now : Instant} : c.loc = .timeout →
      deadlineReached c.start c.timeout now = true →
      Step c (.timeout now) (.ret (.error ()))
  | notExpired {now : Instant} : c.loc = .timeout →
      deadlineReached c.start c.timeout now = false →
      Step c (.timeout now) .delay
  | long {d : Option UInt64} : c.loc = .delay → longDelay d = true →
      Step c (.delay d) (.swap d)
  | short {d : Option UInt64} : c.loc = .delay → longDelay d = false →
      Step c (.delay d) .runExecutor
  | parking {d : Option UInt64} : c.loc = .swap d →
      Step c (.swap false) (.block d)
  | unparked {d : Option UInt64} : c.loc = .swap d → Step c (.swap true) .poll
  | block : c.loc = .block none → Step c .block .yield
  | blockWithTimeout {d : UInt64} : c.loc = .block (some d) →
      Step c (.blockWithTimeout d) .yield
  | yield : c.loc = .yield → Step c .yield .store
  | store : c.loc = .store → Step c .store .runExecutor
  | runExecutor : c.loc = .runExecutor → Step c .runExecutor .poll

/-- `nextLoc` takes only the steps of the relation. -/
theorem step_of_nextLoc {c : Call T} {a : Act T} {loc : Loc T}
    (h : c.nextLoc a = some loc) : Step c a loc := by
  unfold nextLoc at h
  split at h <;> (try split at h) <;> cases h
  case h_1 hl => exact .ready hl
  case h_2 hl => exact .pending hl
  case h_3.isTrue hl hd => exact .expired hl hd
  case h_3.isFalse hl hd => exact .notExpired hl (by simpa using hd)
  case h_4.isTrue hl hd => exact .long hl hd
  case h_4.isFalse hl hd => exact .short hl (by simpa using hd)
  case h_5.isTrue hl hf =>
    rw [Bool.not_eq_true'] at hf
    exact hf ▸ .parking hl
  case h_5.isFalse hl hf =>
    rw [Bool.not_eq_true', Bool.not_eq_false] at hf
    exact hf ▸ .unparked hl
  case h_6 hl => exact .block hl
  case h_7.isTrue hl hd => exact .blockWithTimeout (hd ▸ hl)
  case h_8 hl => exact .yield hl
  case h_9 hl => exact .store hl
  case h_10 hl => exact .runExecutor hl

/-- **Inversion**: a step of `block_on` moves its point along `Step` and
changes nothing else of the activation. -/
theorem next_cases {c c' : Call T} {a : Act T} (h : c.next a = some c') :
    ∃ loc, Step c a loc ∧ c' = { c with loc } := by
  obtain ⟨loc, hloc, rfl⟩ := Option.map_eq_some_iff.mp h
  exact ⟨loc, step_of_nextLoc hloc, rfl⟩

end Call

end BlockOn

namespace PollOn

/-- The points of `poll_on`. -/
inductive Loc (T : Type) where
  /-- about to `sys_set_network_polling_mode(true)` -/
  | enter
  | poll
  | timeout
  | runExecutor
  /-- about to `sys_set_network_polling_mode(false)` and return -/
  | leave (res : Except Unit T)
  | ret (res : Except Unit T)

/-- What `poll_on` reads or does in one step. -/
inductive Act (T : Type) where
  | setPollingMode (value : Bool)
  | poll (p : Poll T)
  | timeout (now : Instant)
  | runExecutor

/-- One activation of `poll_on`. -/
structure Call (T : Type) where
  start : Instant
  timeout : Option Duration
  loc : Loc T

namespace Call

variable {T : Type}

/-- The point a step leads to; `none` if `poll_on` does not do `a` here. -/
def nextLoc (c : Call T) (a : Act T) : Option (Loc T) :=
  match c.loc, a with
  | .enter, .setPollingMode true => some .poll
  | .poll, .poll (.ready t) => some (.leave (.ok t))
  | .poll, .poll .pending => some .timeout
  | .timeout, .timeout now =>
    if deadlineReached c.start c.timeout now then some (.leave (.error ()))
    else some .runExecutor
  | .runExecutor, .runExecutor => some .poll
  | .leave res, .setPollingMode false => some (.ret res)
  | _, _ => none

/-- One step of `poll_on`. -/
def next (c : Call T) (a : Act T) : Option (Call T) :=
  (c.nextLoc a).map fun loc => { c with loc }

/-- Entering `poll_on`. -/
def enter (start : Instant) (timeout : Option Duration) : Call T :=
  { start, timeout, loc := .enter }

/-- What one step of `poll_on` can be, with its guard. -/
inductive Step (c : Call T) : Act T → Loc T → Prop where
  | enter : c.loc = .enter → Step c (.setPollingMode true) .poll
  | ready {t : T} : c.loc = .poll → Step c (.poll (.ready t)) (.leave (.ok t))
  | pending : c.loc = .poll → Step c (.poll .pending) .timeout
  | expired {now : Instant} : c.loc = .timeout →
      deadlineReached c.start c.timeout now = true →
      Step c (.timeout now) (.leave (.error ()))
  | notExpired {now : Instant} : c.loc = .timeout →
      deadlineReached c.start c.timeout now = false →
      Step c (.timeout now) .runExecutor
  | runExecutor : c.loc = .runExecutor → Step c .runExecutor .poll
  | leave {res : Except Unit T} : c.loc = .leave res →
      Step c (.setPollingMode false) (.ret res)

theorem step_of_nextLoc {c : Call T} {a : Act T} {loc : Loc T}
    (h : c.nextLoc a = some loc) : Step c a loc := by
  unfold nextLoc at h
  split at h <;> (try split at h) <;> cases h
  case h_1 hl => exact .enter hl
  case h_2 hl => exact .ready hl
  case h_3 hl => exact .pending hl
  case h_4.isTrue hl hd => exact .expired hl hd
  case h_4.isFalse hl hd => exact .notExpired hl (by simpa using hd)
  case h_5 hl => exact .runExecutor hl
  case h_6 hl => exact .leave hl

/-- **Inversion** for `poll_on`. -/
theorem next_cases {c c' : Call T} {a : Act T} (h : c.next a = some c') :
    ∃ loc, Step c a loc ∧ c' = { c with loc } := by
  obtain ⟨loc, hloc, rfl⟩ := Option.map_eq_some_iff.mp h
  exact ⟨loc, step_of_nextLoc hloc, rfl⟩

end Call

end PollOn

end RustyHermit.Executor
