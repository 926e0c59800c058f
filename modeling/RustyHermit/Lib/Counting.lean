import Mathlib.Data.Nat.Find
import Mathlib.Order.Basic

/-!
# Loops that count up to a goal

A loop makes one attempt after the other to move something, until it has moved as
much as its goal. An attempt moves any amount up to the room that is left, or
nothing, or it fails and ends the loop. Whoever makes the attempts chooses: the
loop gets a sequence of them.

- `Counting.loop`: the loop, with fuel; `loop_done`, `loop_failed` and `loop_undone` say
  what it comes to, in terms of what the attempts offer (`offered`).
- `Exact`: a loop returns one result and nothing else, and it ends if nothing is moved
  any more.
- `exact_iff`: so it is if and only if the attempts are `Proper`: none of them carries the
  count past the goal, and they do not cease before it.
-/

namespace RustyHermit

namespace Counting

universe u v

/-- What an attempt comes to. -/
inductive Attempt where
  /-- it moves as much as that, if there is room for it -/
  | moved (amount : Nat)
  /-- it could not move anything now -/
  | again
  | failed
deriving DecidableEq, Repr

def Attempt.amount : Attempt → Nat
  | .moved n => n
  | .again => 0
  | .failed => 0

/-- How a loop stands after some fuel. -/
inductive Outcome (α : Type u) where
  | returned (a : α)
  | failed (a : α)
  | running (a : α)
deriving DecidableEq, Repr

namespace Outcome

variable {α : Type u} {β : Type v}

def map (f : α → β) : Outcome α → Outcome β
  | .returned a => .returned (f a)
  | .failed a => .failed (f a)
  | .running a => .running (f a)

/-- The loop has ended. -/
def Ended : Outcome α → Prop
  | .running _ => False
  | _ => True

theorem map_returned {f : α → β} {o : Outcome α} {b : β} (h : o.map f = .returned b) :
    ∃ a, o = .returned a ∧ f a = b := by
  cases o with
  | returned a => exact ⟨a, rfl, Outcome.returned.inj h⟩
  | failed a => cases h
  | running a => cases h

theorem ended_map {f : α → β} {o : Outcome α} : (o.map f).Ended ↔ o.Ended := by
  cases o <;> rfl

end Outcome

/-- The loop: it makes the attempts from number `call` on and has moved `count`. -/
def loop (goal room : Nat) (attempts : Nat → Attempt) : Nat → Nat → Nat → Outcome Nat
  | 0, _, count => .running count
  | fuel + 1, call, count =>
    if count < goal then
      match attempts call with
      | .moved n => loop goal room attempts fuel (call + 1) (count + min n (room - count))
      | .again => loop goal room attempts fuel (call + 1) count
      | .failed => .failed count
    else .returned count

/-- What the first attempts offer to move together. -/
def offered (attempts : Nat → Attempt) : Nat → Nat
  | 0 => 0
  | i + 1 => offered attempts i + (attempts i).amount

/-- None of the first `i` attempts fails. -/
def Unfailed (attempts : Nat → Attempt) (i : Nat) : Prop :=
  ∀ j, j < i → attempts j ≠ .failed

/-- From attempt `i` on, every one moves something, and it is nothing. -/
def CeasesAt (attempts : Nat → Attempt) (i : Nat) : Prop :=
  ∀ j, i ≤ j → attempts j = .moved 0

section

variable {goal room : Nat} {attempts : Nat → Attempt}

theorem Unfailed.mono {i j : Nat} (h : Unfailed attempts j) (hij : i ≤ j) :
    Unfailed attempts i :=
  fun k hk => h k (Nat.lt_of_lt_of_le hk hij)

theorem offered_mono {i j : Nat} (h : i ≤ j) : offered attempts i ≤ offered attempts j := by
  induction h with
  | refl => exact Nat.le_refl _
  | step _ ih => exact Nat.le_trans ih (Nat.le_add_right _ _)

theorem offered_of_ceasesAt {i j : Nat} (h : CeasesAt attempts i) (hij : i ≤ j) :
    offered attempts j = offered attempts i := by
  induction hij with
  | refl => rfl
  | step hj ih => rw [offered, h _ hj, ih]; rfl

/-- One iteration that does not end the loop. -/
theorem loop_step {fuel call count : Nat} (hcount : count < goal)
    (hcall : attempts call ≠ .failed) :
    loop goal room attempts (fuel + 1) call count
      = loop goal room attempts fuel (call + 1)
          (count + min (attempts call).amount (room - count)) := by
  rw [loop, if_pos hcount]
  cases h : attempts call with
  | moved n => rfl
  | again =>
    have hzero : count + min Attempt.again.amount (room - count) = count := by
      rw [Attempt.amount, Nat.zero_min, Nat.add_zero]
    rw [hzero]
  | failed => exact absurd h hcall

/-- **The first iterations**: as long as the attempts do not fail and have not offered
the goal, the loop has moved what they offered. -/
theorem loop_unroll {i : Nat} (hfail : Unfailed attempts i) (hgoal : goal ≤ room)
    (hoffer : ∀ j, j < i → offered attempts j < goal) (fuel : Nat) :
    loop goal room attempts (i + fuel) 0 0
      = loop goal room attempts fuel i (min room (offered attempts i)) := by
  induction i generalizing fuel with
  | zero =>
    rw [offered, Nat.min_zero, Nat.zero_add]
  | succ i ih =>
    have hbelow := hoffer i (Nat.lt_succ_self i)
    have hcount : min room (offered attempts i) < goal := by omega
    have hnext : min room (offered attempts i)
        + min (attempts i).amount (room - min room (offered attempts i))
        = min room (offered attempts (i + 1)) := by
      rw [offered]
      omega
    have hswap : i + 1 + fuel = i + (fuel + 1) := by omega
    rw [hswap, ih (hfail.mono (Nat.le_succ i)) (fun j hj => hoffer j (Nat.lt_succ_of_lt hj)),
      loop_step hcount (hfail i (Nat.lt_succ_self i)), hnext]

/-- If the goal is offered, there is a first attempt after which it is. -/
theorem exists_first_offer {i : Nat} (h : goal ≤ offered attempts i) :
    ∃ k, k ≤ i ∧ goal ≤ offered attempts k ∧ ∀ j, j < k → offered attempts j < goal := by
  have hex : ∃ k, goal ≤ offered attempts k := ⟨i, h⟩
  refine ⟨Nat.find hex, Nat.find_le h, Nat.find_spec hex, fun j hj => ?_⟩
  exact Nat.lt_of_not_le (Nat.find_min hex hj)

/-- The goal is offered: the loop returns. -/
theorem loop_done {k : Nat} (hgoal : goal ≤ room) (hfail : Unfailed attempts k)
    (hdone : goal ≤ offered attempts k) (hoffer : ∀ j, j < k → offered attempts j < goal)
    {fuel : Nat} (hfuel : k < fuel) :
    loop goal room attempts fuel 0 0 = .returned (min room (offered attempts k)) := by
  obtain ⟨rest, rfl⟩ := Nat.exists_eq_add_of_le hfuel
  have hswap : k + 1 + rest = k + (rest + 1) := by omega
  have hcount : ¬ min room (offered attempts k) < goal := by omega
  rw [hswap, loop_unroll hfail hgoal hoffer, loop, if_neg hcount]

/-- An attempt fails before the goal is offered: the loop fails. -/
theorem loop_failed {i : Nat} (hgoal : goal ≤ room) (hfail : Unfailed attempts i)
    (hlast : attempts i = .failed) (hoffer : ∀ j, j ≤ i → offered attempts j < goal)
    {fuel : Nat} (hfuel : i < fuel) :
    loop goal room attempts fuel 0 0 = .failed (min room (offered attempts i)) := by
  obtain ⟨rest, rfl⟩ := Nat.exists_eq_add_of_le hfuel
  have hswap : i + 1 + rest = i + (rest + 1) := by omega
  have hcount : min room (offered attempts i) < goal := by
    have hi := hoffer i (Nat.le_refl i)
    omega
  rw [hswap, loop_unroll hfail hgoal fun j hj => hoffer j (Nat.le_of_lt hj), loop, if_pos hcount,
    hlast]

/-- The goal is not offered and nothing fails: the loop goes on. -/
theorem loop_undone (hgoal : goal ≤ room) {fuel : Nat} (hfail : Unfailed attempts fuel)
    (hoffer : ∀ j, j < fuel → offered attempts j < goal) :
    loop goal room attempts fuel 0 0 = .running (min room (offered attempts fuel)) := by
  have h := loop_unroll hfail hgoal hoffer 0
  rwa [Nat.add_zero, loop] at h

theorem returned_loop_from (hgoal : goal ≤ room) {fuel call count : Nat}
    (hfail : Unfailed attempts call) (hoffer : ∀ j, j < call → offered attempts j < goal)
    (h : loop goal room attempts fuel call (min room (offered attempts call)) = .returned count) :
    ∃ k, Unfailed attempts k ∧ goal ≤ offered attempts k ∧
      (∀ j, j < k → offered attempts j < goal) ∧ count = min room (offered attempts k) := by
  induction fuel generalizing call with
  | zero => cases h
  | succ fuel ih =>
    by_cases hcount : min room (offered attempts call) < goal
    · by_cases hcall : attempts call = .failed
      · rw [loop, if_pos hcount, hcall] at h
        cases h
      · have hnext : min room (offered attempts call)
            + min (attempts call).amount (room - min room (offered attempts call))
            = min room (offered attempts (call + 1)) := by
          rw [offered]
          omega
        rw [loop_step hcount hcall, hnext] at h
        refine ih (fun j hj => ?_) (fun j hj => ?_) h
        · rcases Nat.lt_succ_iff_lt_or_eq.mp hj with hlt | rfl
          · exact hfail j hlt
          · exact hcall
        · rcases Nat.lt_succ_iff_lt_or_eq.mp hj with hlt | rfl
          · exact hoffer j hlt
          · omega
    · rw [loop, if_neg hcount] at h
      exact ⟨call, hfail, by omega, hoffer, (Outcome.returned.inj h).symm⟩

/-- What the loop returns with, it has moved when the goal was offered first. -/
theorem returned_loop (hgoal : goal ≤ room) {fuel count : Nat}
    (h : loop goal room attempts fuel 0 0 = .returned count) :
    ∃ k, Unfailed attempts k ∧ goal ≤ offered attempts k ∧
      (∀ j, j < k → offered attempts j < goal) ∧ count = min room (offered attempts k) := by
  have hstart : min room (offered attempts 0) = 0 := by rw [offered, Nat.min_zero]
  have hfrom : loop goal room attempts fuel 0 (min room (offered attempts 0))
      = .returned count := by
    rw [hstart]
    exact h
  exact returned_loop_from hgoal (fun j hj => absurd hj (Nat.not_lt_zero j))
    (fun j hj => absurd hj (Nat.not_lt_zero j)) hfrom

/-! ## Exact loops -/

section Exact

variable {α : Type u}

/-- A loop that returns `result` and nothing else: it does so once the goal is offered,
and it ends if the attempts cease. -/
structure Exact (goal : Nat) (attempts : Nat → Attempt) (run : Nat → Outcome α)
    (result : α) : Prop where
  exact : ∀ fuel a, run fuel = .returned a → a = result
  returns : ∀ i, Unfailed attempts i → goal ≤ offered attempts i →
    ∃ N, ∀ fuel, N ≤ fuel → run fuel = .returned result
  ends : (∃ i, CeasesAt attempts i) → ∃ N, ∀ fuel, N ≤ fuel → (run fuel).Ended

/-- No attempt carries the count past the goal, and they do not cease before it,
unless one has failed before. -/
structure Proper (goal room : Nat) (attempts : Nat → Attempt) : Prop where
  notPast : ∀ i, Unfailed attempts (i + 1) → offered attempts i < goal →
    min room (offered attempts (i + 1)) ≤ goal
  notCut : ∀ i, Unfailed attempts i → offered attempts i < goal → ¬ CeasesAt attempts i

/-- Without room past the goal nothing can be carried there. -/
theorem proper_of_no_room (h : ∀ i, Unfailed attempts i → offered attempts i < goal →
    ¬ CeasesAt attempts i) : Proper goal goal attempts where
  notPast _ _ _ := Nat.min_le_left _ _
  notCut := h

/-- The goal is met where it is offered first. -/
theorem Proper.first_offer (h : Proper goal room attempts) (hgoal : goal ≤ room) {k : Nat}
    (hfail : Unfailed attempts k) (hdone : goal ≤ offered attempts k)
    (hoffer : ∀ j, j < k → offered attempts j < goal) :
    min room (offered attempts k) = goal := by
  cases k with
  | zero =>
    rw [offered] at hdone ⊢
    omega
  | succ i =>
    have hpast := h.notPast i hfail (hoffer i (Nat.lt_succ_self i))
    omega

theorem Proper.returns (h : Proper goal room attempts) (hgoal : goal ≤ room) {i : Nat}
    (hfail : Unfailed attempts i) (hdone : goal ≤ offered attempts i) :
    ∃ N, ∀ fuel, N ≤ fuel → loop goal room attempts fuel 0 0 = .returned goal := by
  obtain ⟨k, hk, hdone', hoffer⟩ := exists_first_offer hdone
  refine ⟨k + 1, fun fuel hfuel => ?_⟩
  rw [loop_done hgoal (hfail.mono hk) hdone' hoffer hfuel,
    h.first_offer hgoal (hfail.mono hk) hdone' hoffer]

theorem Proper.ends (h : Proper goal room attempts) (hgoal : goal ≤ room)
    (hcease : ∃ i, CeasesAt attempts i) :
    ∃ N, ∀ fuel, N ≤ fuel → (loop goal room attempts fuel 0 0).Ended := by
  obtain ⟨i, hi⟩ := hcease
  have hreturned : ∀ j, Unfailed attempts j → goal ≤ offered attempts j →
      ∃ N, ∀ fuel, N ≤ fuel → (loop goal room attempts fuel 0 0).Ended := by
    intro j hfail hdone
    obtain ⟨N, hN⟩ := h.returns hgoal hfail hdone
    refine ⟨N, fun fuel hfuel => ?_⟩
    rw [hN fuel hfuel]
    trivial
  by_cases hfail : Unfailed attempts i
  · refine hreturned i hfail ?_
    by_contra hlt
    exact h.notCut i hfail (Nat.lt_of_not_le hlt) hi
  -- the first failure ends the loop, unless the goal was offered before
  · have hex : ∃ j, attempts j = .failed := by
      by_contra hnone
      exact hfail fun j _ hj => hnone ⟨j, hj⟩
    have hbefore : Unfailed attempts (Nat.find hex) := fun j hj => Nat.find_min hex hj
    by_cases hdone : goal ≤ offered attempts (Nat.find hex)
    · exact hreturned _ hbefore hdone
    · refine ⟨Nat.find hex + 1, fun fuel hfuel => ?_⟩
      rw [loop_failed hgoal hbefore (Nat.find_spec hex) (fun j hj => ?_) hfuel]
      · trivial
      · have hj' : offered attempts j ≤ offered attempts (Nat.find hex) := offered_mono hj
        omega

/-- **Exact loops**: a loop whose result is a function of its count, which tells the
goal from other counts, is exact if and only if the attempts are proper. -/
theorem exact_iff {run : Nat → Outcome α} {f : Nat → α} (hgoal : goal ≤ room)
    (hrun : ∀ fuel, run fuel = (loop goal room attempts fuel 0 0).map f)
    (hinj : ∀ count, count ≤ room → f count = f goal → count = goal) :
    Exact goal attempts run (f goal) ↔ Proper goal room attempts := by
  constructor
  · intro h
    refine ⟨fun i hfail hlt => ?_, fun i hfail hlt hcease => ?_⟩
    · have hoffer : ∀ j, j < i + 1 → offered attempts j < goal := fun j hj =>
        Nat.lt_of_le_of_lt (offered_mono (Nat.lt_succ_iff.mp hj)) hlt
      by_contra hpast
      have hloop := loop_done hgoal hfail (by omega) hoffer (Nat.lt_succ_self (i + 1))
      have hreturned : run (i + 2) = .returned (f (min room (offered attempts (i + 1)))) := by
        rw [hrun, hloop]
        rfl
      have hcount := hinj _ (Nat.min_le_left _ _) (h.exact _ _ hreturned)
      omega
    · obtain ⟨N, hN⟩ := h.ends ⟨i, hcease⟩
      have hfail' : Unfailed attempts (N + i) := by
        intro j hj
        rcases Nat.lt_or_ge j i with hji | hji
        · exact hfail j hji
        · rw [hcease j hji]
          exact Attempt.noConfusion
      have hoffer : ∀ j, j < N + i → offered attempts j < goal := by
        intro j hj
        rcases Nat.le_total j i with hji | hji
        · exact Nat.lt_of_le_of_lt (offered_mono hji) hlt
        · rwa [offered_of_ceasesAt hcease hji]
      have hend := hN (N + i) (Nat.le_add_right N i)
      rw [hrun, loop_undone hgoal hfail' hoffer] at hend
      exact hend
  · intro h
    refine ⟨fun fuel a hreturned => ?_, fun i hfail hdone => ?_, fun hcease => ?_⟩
    · rw [hrun] at hreturned
      obtain ⟨count, hloop, rfl⟩ := Outcome.map_returned hreturned
      obtain ⟨k, hfail, hdone, hoffer, rfl⟩ := returned_loop hgoal hloop
      rw [h.first_offer hgoal hfail hdone hoffer]
    · obtain ⟨N, hN⟩ := h.returns hgoal hfail hdone
      refine ⟨N, fun fuel hfuel => ?_⟩
      rw [hrun, hN fuel hfuel]
      rfl
    · obtain ⟨N, hN⟩ := h.ends hgoal hcease
      refine ⟨N, fun fuel hfuel => ?_⟩
      rw [hrun]
      exact Outcome.ended_map.mpr (hN fuel hfuel)

end Exact

end

end Counting

end RustyHermit
