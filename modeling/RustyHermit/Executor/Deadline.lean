import Mathlib.Algebra.Order.Ring.Int
import RustyHermit.Lib.Machine
import RustyHermit.Executor.Drivers

/-!
# `block_on` against the clock

`block_on` computes its deadline once, as `start + duration` in smoltcp's
`Instant`s, and compares the clock with it after every `Pending` poll. Here its
loop runs beside a clock that never goes back; the results of `network_delay`
and the flag are arbitrary.

- `never_early_iff`: the duration is unsigned and the sum is signed and wraps.
  A timeout never fires early if the sum fits, and always does if it does not
  (`huge_timeout_fires_at_once`).
- `park_in_time_iff`: the thread parks for as long as the network stack has no
  event due, whatever the deadline. So it parks no longer than the time that is
  left exactly if an event is due by then (`park_ignores_timeout`).
-/

namespace RustyHermit.Smoltcp

/-- The milliseconds of an instant and of a duration fit an `Instant` together. -/
def Instant.Fits (start : Instant) (d : Duration) : Prop :=
  start.millis.toInt + d.millis.toNat < 2 ^ 63

/-- What the addition of a duration computes. -/
theorem Instant.toInt_add (start : Instant) (d : Duration) :
    (start + d).millis.toInt =
      (start.millis.toInt + d.millis.toNat).bmod (2 ^ 64) := by
  have hd : d.millis.toInt64.toInt = (d.millis.toNat : Int).bmod (2 ^ 64) :=
    BitVec.toInt_eq_toNat_bmod d.millis.toBitVec
  show (start.millis + d.millis.toInt64).toInt = _
  rw [Int64.toInt_add, hd, Int.add_bmod_bmod]

/-- The sum is exact if it fits. -/
theorem Instant.add_of_fits {start : Instant} {d : Duration} (h : start.Fits d) :
    (start + d).millis.toInt = start.millis.toInt + d.millis.toNat := by
  have hstart := start.millis.le_toInt
  unfold Fits at h
  rw [Instant.toInt_add, Int.bmod_eq_of_le] <;> omega

/-- A sum that does not fit wraps, and lies before the instant it started from. -/
theorem Instant.add_of_not_fits {start : Instant} {d : Duration} (h : ¬start.Fits d) :
    (start + d).millis.toInt = start.millis.toInt + d.millis.toNat - 2 ^ 64 ∧
      (start + d).millis.toInt < start.millis.toInt := by
  have hstart := start.millis.toInt_lt
  have hd : d.millis.toNat < 2 ^ 64 := d.millis.toNat_lt
  unfold Fits at h
  have heq : (start + d).millis.toInt = start.millis.toInt + d.millis.toNat - 2 ^ 64 := by
    rw [Instant.toInt_add, Int.bmod_def]
    omega
  exact ⟨heq, by omega⟩

end RustyHermit.Smoltcp

namespace RustyHermit.Executor

open RustyHermit.Smoltcp BlockOn

/-- A thread in `block_on`, and the clock. -/
structure Timed (T : Type) where
  call : Call T
  now : Instant
  /-- ghost: what `network_delay` has returned last -/
  asked : Option (Option UInt64)

namespace Timed

variable {T : Type}

/-- What can happen next. -/
inductive Label (T : Type) where
  /-- a step of the loop -/
  | act (a : Act T)
  /-- the clock goes on to `t` -/
  | tick (t : Instant)

/-- A deadline check reads the clock. -/
def agrees (now : Instant) : Act T → Bool
  | .timeout t => decide (t = now)
  | _ => true

/-- One step. -/
def next (s : Timed T) : Label T → Option (Timed T)
  | .act a =>
    if agrees s.now a then (s.call.next a).map fun call =>
      { s with
        call
        asked := match a with
          | .delay d => some d
          | _ => s.asked }
    else none
  | .tick t => if s.now ≤ t then some { s with now := t } else none

/-- `block_on` entered at the instant `start`. -/
def entered (T : Type) (start : Instant) (timeout : Option Duration) : Timed T :=
  { call := .enter start timeout, now := start, asked := none }

/-- All runs of `block_on` from there. -/
def machine (T : Type) (start : Instant) (timeout : Option Duration) :
    Machine (Timed T) (Label T) where
  init s := s = entered T start timeout
  next := next

theorem reachable_entered (start : Instant) (timeout : Option Duration) :
    (machine T start timeout).Reachable (entered T start timeout) :=
  .init rfl

/-! ## The invariant -/

/-- What holds of `block_on` and the clock in every reachable state. -/
structure Inv (start : Instant) (timeout : Option Duration) (s : Timed T) : Prop where
  start_eq : s.call.start = start
  timeout_eq : s.call.timeout = timeout
  later : start ≤ s.now
  /-- the loop goes to park with what `network_delay` has returned -/
  asked : ∀ d, s.call.loc = .swap d ∨ s.call.loc = .block d → s.asked = some d
  /-- `Err(())` is returned only once the clock has reached the deadline -/
  expired : s.call.loc = .ret (.error ()) → deadlineReached start timeout s.now = true

theorem Instant_le_trans {t u v : Instant} (h : t ≤ u) (h' : u ≤ v) : t ≤ v :=
  Int64.le_trans h h'

/-- A deadline that has been reached stays reached. -/
theorem deadlineReached_mono {start now now' : Instant} {timeout : Option Duration}
    (h : deadlineReached start timeout now = true) (hle : now ≤ now') :
    deadlineReached start timeout now' = true := by
  cases timeout with
  | none => cases h
  | some d => exact decide_eq_true (Instant_le_trans (of_decide_eq_true h) hle)

theorem inv_next {start : Instant} {timeout : Option Duration} {s s' : Timed T}
    {l : Label T} (h : Inv start timeout s) (hnext : s.next l = some s') :
    Inv start timeout s' := by
  cases l with
  | tick t =>
    obtain ⟨hle, hs'⟩ := Option.ite_none_right_eq_some.mp hnext
    cases hs'
    exact { h with
      later := Instant_le_trans h.later hle
      expired := fun hl => deadlineReached_mono (h.expired hl) hle }
  | act a =>
    obtain ⟨hagrees, hrest⟩ := Option.ite_none_right_eq_some.mp hnext
    obtain ⟨call, hcall, rfl⟩ := Option.map_eq_some_iff.mp hrest
    obtain ⟨loc, hstep, rfl⟩ := Call.next_cases hcall
    refine ⟨h.start_eq, h.timeout_eq, h.later, fun d hd => ?_, fun hl => ?_⟩
    · cases hstep with
      | long =>
        rcases hd with hd | hd <;> cases hd
        rfl
      | parking hl =>
        rcases hd with hd | hd <;> cases hd
        exact h.asked _ (.inl hl)
      | _ => rcases hd with hd | hd <;> cases hd
    · cases hstep with
      | @expired now _ hreached =>
        have hnow : now = s.now := of_decide_eq_true hagrees
        rw [hnow, h.start_eq, h.timeout_eq] at hreached
        exact hreached
      | _ => cases hl

theorem Reachable.inv {start : Instant} {timeout : Option Duration} {s : Timed T}
    (h : (machine T start timeout).Reachable s) : Inv start timeout s := by
  refine h.invariant (I := Inv start timeout) ?_ fun _ _ _ => inv_next
  rintro _ rfl
  refine ⟨rfl, rfl, Int64.le_refl _, fun d hd => ?_, nofun⟩
  rcases hd with hd | hd <;> cases hd

/-! ## When a timeout fires -/

/-- `Err(())` is returned only after `timeout` milliseconds. -/
def NeverEarly (T : Type) (start : Instant) (timeout : UInt64) : Prop :=
  ∀ s : Timed T, (machine T start (some ⟨timeout⟩)).Reachable s →
    s.call.loc = .ret (.error ()) →
      start.millis.toInt + timeout.toNat ≤ s.now.millis.toInt

/-- The future is `Pending` and the deadline is checked at once. -/
def checkAtOnce (start : Instant) : List (Label T) :=
  [.act (.poll .pending), .act (.timeout start)]

/-- A deadline that lies before the start has been reached at the first check. -/
theorem expired_at_once (T : Type) {start : Instant} {d : Duration} (h : start + d ≤ start) :
    ∃ s, (machine T start (some d)).Reachable s ∧ s.call.loc = .ret (.error ()) ∧
      s.now = start := by
  have hrun : (machine T start (some d)).run (entered T start (some d)) (checkAtOnce start) =
      some { entered T start (some d) with
        call := ⟨start, some d, .ret (.error ())⟩ } := by
    simp [Machine.run, checkAtOnce, machine, next, agrees, entered, Call.next, Call.nextLoc,
      Call.enter, deadlineReached, h]
  exact ⟨_, (reachable_entered start (some d)).run hrun, rfl, rfl⟩

/-- The longest timeout there is expires at once. -/
theorem huge_timeout_fires_at_once :
    ¬ ∀ (start : Instant) (timeout : UInt64), NeverEarly Unit start timeout := by
  intro h
  have hle : (⟨0⟩ : Instant) + (⟨0xffffffffffffffff⟩ : Duration) ≤ ⟨0⟩ := by decide
  obtain ⟨s, hs, hret, hnow⟩ := expired_at_once Unit hle
  have hlate := h ⟨0⟩ 0xffffffffffffffff s hs hret
  rw [hnow] at hlate
  exact absurd hlate (by decide)

/-- **Exactly when a timeout never fires early**: when the deadline fits an
`Instant`, which is also when its arithmetic does not wrap. -/
theorem never_early_iff (start : Instant) (timeout : UInt64) :
    (NeverEarly T start timeout ↔ start.Fits ⟨timeout⟩) ∧
    ((start + (⟨timeout⟩ : Duration)).millis.toInt =
      start.millis.toInt + timeout.toNat ↔ start.Fits ⟨timeout⟩) := by
  constructor
  · constructor
    · intro hnever
      by_contra hfits
      obtain ⟨-, hlt⟩ := Instant.add_of_not_fits hfits
      have hle : start + (⟨timeout⟩ : Duration) ≤ start :=
        Int64.le_iff_toInt_le.mpr (Int.le_of_lt hlt)
      obtain ⟨s, hs, hret, hnow⟩ := expired_at_once T hle
      have hlate := hnever s hs hret
      rw [hnow] at hlate
      -- so the timeout is zero, and its sum fits
      have := start.millis.toInt_lt
      exact hfits (show start.millis.toInt + timeout.toNat < 2 ^ 63 by omega)
    · intro hfits s hs hret
      have hreached := (Reachable.inv hs).expired hret
      have hle : start + (⟨timeout⟩ : Duration) ≤ s.now := of_decide_eq_true hreached
      rw [← Instant.add_of_fits hfits]
      exact Int64.le_iff_toInt_le.mp hle
  · constructor
    · intro hexact
      by_contra hfits
      have := (Instant.add_of_not_fits hfits).1
      simp only at this hexact
      omega
    · exact Instant.add_of_fits

/-! ## How long the thread parks -/

/-- The time until `start + d`, in milliseconds. -/
def timeLeft (s : Timed T) (d : Duration) : Int :=
  s.call.start.millis.toInt + d.millis.toNat - s.now.millis.toInt

/-- If the thread is about to park, it is with a time limit, and that is not
longer than the time left. -/
def ParksInTime (s : Timed T) (d : Duration) : Prop :=
  ∀ delay, s.call.loc = .block delay →
    ∃ t : UInt64, delay = some t ∧ (t.toNat : Int) ≤ s.timeLeft d

/-- The network stack has an event due within the time left. -/
def DueInTime (s : Timed T) (d : Duration) : Prop :=
  ∃ t : UInt64, s.asked = some (some t) ∧ (t.toNat : Int) ≤ s.timeLeft d

/-- With no event due, the thread parks without a time limit, timeout or not. -/
theorem park_ignores_timeout :
    ¬ ∀ (start : Instant) (d : Duration) (s : Timed Unit),
      (machine Unit start (some d)).Reachable s → s.ParksInTime d := by
  intro h
  obtain ⟨s, hrun, hloc⟩ : ∃ s : Timed Unit,
      (machine Unit ⟨0⟩ (some ⟨1000⟩)).run (entered Unit ⟨0⟩ (some ⟨1000⟩))
        [.act (.poll .pending), .act (.timeout ⟨0⟩), .act (.delay none),
          .act (.swap false)] = some s ∧ s.call.loc = .block none :=
    ⟨_, rfl, rfl⟩
  obtain ⟨t, ht, -⟩ := h _ _ s ((reachable_entered _ _).run hrun) none hloc
  cases ht

/-- **Exactly when `block_on` parks within its timeout**: when the network stack
has reported an event that is due before the deadline. -/
theorem park_in_time_iff {start : Instant} {d : Duration} {s : Timed T}
    (h : (machine T start (some d)).Reachable s) {delay : Option UInt64}
    (hloc : s.call.loc = .block delay) : s.ParksInTime d ↔ s.DueInTime d := by
  have hasked := (Reachable.inv h).asked delay (.inr hloc)
  constructor
  · intro hparks
    obtain ⟨t, rfl, hle⟩ := hparks delay hloc
    exact ⟨t, hasked, hle⟩
  · rintro ⟨t, ht, hle⟩ delay' hloc'
    rw [hloc] at hloc'
    cases hloc'
    exact ⟨t, Option.some.inj (hasked.symm.trans ht), hle⟩

/-- An event is due in 200 of the 1000 milliseconds. -/
theorem park_in_time_for_event : ∃ s : Timed Unit,
    (machine Unit ⟨0⟩ (some ⟨1000⟩)).run (entered Unit ⟨0⟩ (some ⟨1000⟩))
      [.act (.poll .pending), .act (.timeout ⟨0⟩), .act (.delay (some 200)),
        .act (.swap false)] = some s ∧
      s.call.loc = .block (some 200) ∧ s.ParksInTime ⟨1000⟩ := by
  obtain ⟨s, hrun, hloc, hasked, hleft⟩ : ∃ s : Timed Unit,
      (machine Unit ⟨0⟩ (some ⟨1000⟩)).run (entered Unit ⟨0⟩ (some ⟨1000⟩))
        [.act (.poll .pending), .act (.timeout ⟨0⟩), .act (.delay (some 200)),
          .act (.swap false)] = some s ∧
        s.call.loc = .block (some 200) ∧ s.asked = some (some 200) ∧
        s.timeLeft ⟨1000⟩ = 1000 :=
    ⟨_, rfl, rfl, rfl, rfl⟩
  have hs := (reachable_entered (T := Unit) ⟨0⟩ (some ⟨1000⟩)).run hrun
  have hle : ((200 : UInt64).toNat : Int) ≤ s.timeLeft ⟨1000⟩ := by
    rw [hleft]
    decide
  exact ⟨s, hrun, hloc, (park_in_time_iff hs hloc).mpr ⟨200, hasked, hle⟩⟩

end Timed

end RustyHermit.Executor
