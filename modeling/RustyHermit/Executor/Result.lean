import RustyHermit.Lib.PollLoop
import RustyHermit.Executor.Drivers

/-!
# What `poll_on` and `block_on` return

Both drivers are poll loops: they poll the future, check the deadline after
every `Pending` poll, and go on. `block_on` does much more in between: it asks
for the network delay, looks at the `unparked` flag, parks, yields and runs the
executor, and takes four ways through an iteration. None of that shows in the
result (`same_result`): it is the value of the first poll that is `Ready`, or
`Err(())` if a deadline check has reached the deadline before, and both drivers
return it.
-/

namespace RustyHermit.Executor

open RustyHermit.Smoltcp

variable {T : Type}

/-- The outcome of a poll, `none` for `Pending`. -/
def Poll.ofOption : Option T → Poll T
  | some t => .ready t
  | none => .pending

/-- Without a timeout no deadline is ever reached. -/
theorem deadlineReached_none (start now : Instant) :
    deadlineReached start none now = false := rfl

/-! ## `block_on` -/

namespace BlockOn

/-- The steps of `block_on` besides polls and deadline checks. -/
def Act.isOther : Act T → Bool
  | .poll _ | .timeout _ => false
  | _ => true

/-- The phase of `block_on` at a point of its loop. -/
def Loc.phase : Loc T → Phase T
  | .timeout => .checking
  | .ret res => .done res
  | _ => .polling

/-- How many steps are left at most before the next poll. -/
def Loc.rank : Loc T → Nat
  | .delay => 6
  | .swap _ => 5
  | .block _ => 4
  | .yield => 3
  | .store => 2
  | .runExecutor => 1
  | .poll | .timeout | .ret _ => 0

/-- `block_on` as a poll loop. -/
def loop (start : Instant) (timeout : Option Duration) :
    PollLoop (Loc T) (Act T) T Instant where
  poll loc o := Call.nextLoc ⟨start, timeout, loc⟩ (.poll (.ofOption o))
  check loc now := Call.nextLoc ⟨start, timeout, loc⟩ (.timeout now)
  other loc a := if a.isOther then Call.nextLoc ⟨start, timeout, loc⟩ a else none
  phase := Loc.phase
  rank := Loc.rank

/-- Whatever the delay and the flag, the loop comes back to its poll. -/
theorem lawful (start : Instant) (timeout : Option Duration) :
    (loop (T := T) start timeout).Lawful (deadlineReached start timeout) 6 where
  poll_phase loc o loc' h := by
    cases o with
    | some t =>
      cases Call.step_of_nextLoc h with
      | ready hl =>
        cases hl
        exact ⟨rfl, rfl, Nat.zero_le _⟩
    | none =>
      cases Call.step_of_nextLoc h with
      | pending hl =>
        cases hl
        exact ⟨rfl, rfl, Nat.zero_le _⟩
  check_phase loc now loc' h := by
    cases Call.step_of_nextLoc h with
    | expired hl hd =>
      cases hl
      exact ⟨rfl, (if_pos hd).symm, Nat.zero_le _⟩
    | notExpired hl hd =>
      cases hl
      refine ⟨rfl, ?_, Nat.le_refl _⟩
      rw [if_neg (by rw [hd]; nofun)]
      rfl
  other_phase loc a loc' h := by
    obtain ⟨ha, h⟩ := Option.ite_none_right_eq_some.mp h
    cases Call.step_of_nextLoc h with
    | ready | pending | expired | notExpired => cases ha
    | long hl _ | short hl _ | parking hl | unparked hl | block hl | blockWithTimeout hl
    | yield hl | store hl | runExecutor hl =>
      cases hl
      exact ⟨rfl, by simp [loop, Loc.rank]⟩
  polls loc o hphase hrank := by
    cases loc with
    | poll => cases o <;> rfl
    | timeout | ret => cases hphase
    | delay | swap | block | yield | store | runExecutor => cases hrank
  checks loc now hphase := by
    cases loc with
    | timeout =>
      show (if deadlineReached start timeout now then _ else _ : Option (Loc T)).isSome = true
      split <;> rfl
    | _ => cases hphase
  others loc hphase hrank := by
    -- the steps of the longest way through an iteration
    cases loc with
    | delay => exact ⟨.delay none, rfl⟩
    | swap d => exact ⟨.swap true, rfl⟩
    | block d =>
      cases d with
      | none => exact ⟨.block, rfl⟩
      | some d =>
        refine ⟨.blockWithTimeout d, ?_⟩
        show (if d = d then _ else _ : Option (Loc T)).isSome = true
        rw [if_pos rfl]
        rfl
    | yield => exact ⟨.yield, rfl⟩
    | store => exact ⟨.store, rfl⟩
    | runExecutor => exact ⟨.runExecutor, rfl⟩
    | poll | timeout | ret => cases hrank

end BlockOn

/-! ## `poll_on` -/

namespace PollOn

/-- The steps of `poll_on` besides polls and deadline checks. -/
def Act.isOther : Act T → Bool
  | .poll _ | .timeout _ => false
  | _ => true

/-- The phase of `poll_on` at a point of its body. -/
def Loc.phase : Loc T → Phase T
  | .timeout => .checking
  | .leave res | .ret res => .done res
  | _ => .polling

/-- How many steps are left at most before the next poll, or the return. -/
def Loc.rank : Loc T → Nat
  | .enter | .runExecutor | .leave _ => 1
  | .poll | .timeout | .ret _ => 0

/-- `poll_on` as a poll loop. -/
def loop (start : Instant) (timeout : Option Duration) :
    PollLoop (Loc T) (Act T) T Instant where
  poll loc o := Call.nextLoc ⟨start, timeout, loc⟩ (.poll (.ofOption o))
  check loc now := Call.nextLoc ⟨start, timeout, loc⟩ (.timeout now)
  other loc a := if a.isOther then Call.nextLoc ⟨start, timeout, loc⟩ a else none
  phase := Loc.phase
  rank := Loc.rank

theorem lawful (start : Instant) (timeout : Option Duration) :
    (loop (T := T) start timeout).Lawful (deadlineReached start timeout) 1 where
  poll_phase loc o loc' h := by
    cases o with
    | some t =>
      cases Call.step_of_nextLoc h with
      | ready hl =>
        cases hl
        exact ⟨rfl, rfl, Nat.le_refl _⟩
    | none =>
      cases Call.step_of_nextLoc h with
      | pending hl =>
        cases hl
        exact ⟨rfl, rfl, Nat.zero_le _⟩
  check_phase loc now loc' h := by
    cases Call.step_of_nextLoc h with
    | expired hl hd =>
      cases hl
      exact ⟨rfl, (if_pos hd).symm, Nat.le_refl _⟩
    | notExpired hl hd =>
      cases hl
      refine ⟨rfl, ?_, Nat.le_refl _⟩
      rw [if_neg (by rw [hd]; nofun)]
      rfl
  other_phase loc a loc' h := by
    obtain ⟨ha, h⟩ := Option.ite_none_right_eq_some.mp h
    cases Call.step_of_nextLoc h with
    | ready | pending | expired | notExpired => cases ha
    | enter hl | runExecutor hl | leave hl =>
      cases hl
      exact ⟨rfl, by simp [loop, Loc.rank]⟩
  polls loc o hphase hrank := by
    cases loc with
    | poll => cases o <;> rfl
    | timeout | leave | ret => cases hphase
    | enter | runExecutor => cases hrank
  checks loc now hphase := by
    cases loc with
    | timeout =>
      show (if deadlineReached start timeout now then _ else _ : Option (Loc T)).isSome = true
      split <;> rfl
    | _ => cases hphase
  others loc hphase hrank := by
    cases loc with
    | enter => exact ⟨.setPollingMode true, rfl⟩
    | runExecutor => exact ⟨.runExecutor, rfl⟩
    | leave res => exact ⟨.setPollingMode false, rfl⟩
    | poll | timeout | ret => cases hrank

end PollOn

/-! ## The same result -/

/-- No deadline, no `Err(())`. -/
theorem not_decides_error {e : Trial T Instant} {start : Instant} {k : Nat}
    (h : e.Decides (deadlineReached start none) k (.error ())) : False := by
  have hk := h.2
  unfold Trial.decision at hk
  split at hk
  · cases hk
  · rw [deadlineReached_none, if_neg Bool.false_ne_true] at hk
    cases hk

/-- **`poll_on` and `block_on` compute the same result.** For all outcomes of the
polls and all clock readings `e`, each of them polls at least once and never
again after a `Ready`, returns nothing but the result `e` decides, and returns
it within a bounded number of steps; without a timeout that is no error; and
what the two return, after how many polls, is the same. -/
theorem same_result (start : Instant) (timeout : Option Duration) (e : Trial T Instant) :
    (BlockOn.loop start timeout).Computes (deadlineReached start timeout)
      (fun k => 6 + 7 * (2 * (k + 1))) e .poll ∧
    (PollOn.loop start timeout).Computes (deadlineReached start timeout)
      (fun k => 1 + 2 * (2 * (k + 1))) e .enter ∧
    (timeout = none → ∀ k, ¬e.Decides (deadlineReached start timeout) k (.error ())) ∧
    ∀ s s' res res',
      ((BlockOn.loop start timeout).machine e .poll).Reachable s →
      ((PollOn.loop start timeout).machine e .enter).Reachable s' →
      (BlockOn.loop start timeout).Returned s.loc res →
      (PollOn.loop start timeout).Returned s'.loc res' →
      res = res' ∧ s.polled = s'.polled := by
  have hblock := (BlockOn.lawful start timeout).computes (c := .poll) rfl (Nat.zero_le _) e
  have hpoll := (PollOn.lawful start timeout).computes (c := .enter) rfl (Nat.le_refl _) e
  refine ⟨hblock, hpoll, ?_, ?_⟩
  · rintro rfl k h
    exact not_decides_error h
  · intro s s' res res' hs hs' hres hres'
    obtain ⟨k, hk, hdecides⟩ := hblock.sound s res hs hres
    obtain ⟨k', hk', hdecides'⟩ := hpoll.sound s' res' hs' hres'
    obtain ⟨rfl, rfl⟩ := hdecides.unique hdecides'
    exact ⟨rfl, hk.trans hk'.symm⟩

end RustyHermit.Executor
