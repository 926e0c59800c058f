import Mathlib.Logic.Function.Basic

/-!
# Waker slots

An object that tasks wait for has a few slots for their wakers. A slot holds one
waker at a time: waking the slot takes it out and wakes it, and registering a
waker displaces the one that is there. Some objects wake the displaced waker, so
that a waker that has been registered is still in its slot or has been woken since.
Others forget it.

`Wakers` has the slots and counts how often each waker has been woken.

- `Keeps a b`: what is between `a` and `b` loses no waker. It holds of waking, and
  it composes.
- `Wakes a b k`: the waker in slot `k` has been woken.
- `Registers a b k w`: `w` has been put into slot `k`. This loses the waker that was
  there, if it was another one and has not been woken (`Registers.covered_other`).
- `Covered a k w n`: a task that registered `w` in slot `k` when `w` had been woken
  `n` times has been woken since, or will be by the slot (`Keeps.covered`).
-/

namespace RustyHermit

universe u v

/-- The slots `σ` of an object, and how often each waker has been woken. -/
structure Wakers (σ : Type u) (W : Type v) where
  slot : σ → Option W
  woken : W → Nat

namespace Wakers

variable {σ : Type u} {W : Type v} {a b c : Wakers σ W} {k : σ} {w : W} {n : Nat}

/-- Nobody has registered yet. -/
def empty : Wakers σ W :=
  { slot := fun _ => none, woken := fun _ => 0 }

/-- No waker is lost. -/
structure Keeps (a b : Wakers σ W) : Prop where
  mono : ∀ w, a.woken w ≤ b.woken w
  slot : ∀ k w, a.slot k = some w → b.slot k = some w ∨ a.woken w < b.woken w

/-- The waker in the slot `k`, if there is one, has been woken. -/
def Wakes (a b : Wakers σ W) (k : σ) : Prop :=
  ∀ w, a.slot k = some w → a.woken w < b.woken w

/-- A task that registered `w` in slot `k` when it had been woken `n` times. -/
structure Covered (a : Wakers σ W) (k : σ) (w : W) (n : Nat) : Prop where
  le : n ≤ a.woken w
  slot : n < a.woken w ∨ a.slot k = some w

/-- `w` is put into the slot `k`, whatever becomes of the waker that is there. -/
structure Registers [DecidableEq σ] (a b : Wakers σ W) (k : σ) (w : W) : Prop where
  mono : ∀ w, a.woken w ≤ b.woken w
  slot : b.slot = Function.update a.slot k (some w)

theorem Keeps.refl (a : Wakers σ W) : Keeps a a where
  mono _ := Nat.le_refl _
  slot _ _ h := .inl h

theorem Keeps.trans (h : Keeps a b) (h' : Keeps b c) : Keeps a c where
  mono w := Nat.le_trans (h.mono w) (h'.mono w)
  slot k w hw := by
    have hab := h.mono w
    have hbc := h'.mono w
    rcases h.slot k w hw with hkept | hwoken
    · rcases h'.slot k w hkept with hkept' | hwoken
      · exact .inl hkept'
      · exact .inr (by omega)
    · exact .inr (by omega)

/-- A task that waits goes on to be covered. -/
theorem Keeps.covered (h : Keeps a b) (hc : a.Covered k w n) : b.Covered k w n := by
  have hn := hc.le
  have hab := h.mono w
  refine ⟨by omega, ?_⟩
  rcases hc.slot with hlt | hslot
  · exact .inl (by omega)
  · rcases h.slot k w hslot with hkept | hwoken
    · exact .inr hkept
    · exact .inl (by omega)

/-- A task that waits is woken when its slot is. -/
theorem Covered.lt_of_wakes (hc : a.Covered k w n) (h : Keeps a b) (hw : Wakes a b k) :
    n < b.woken w := by
  have hn := hc.le
  have hab := h.mono w
  rcases hc.slot with hlt | hslot
  · omega
  · have hwoken := hw w hslot
    omega

/-- What has been woken stays so. -/
theorem Wakes.trans (h : Wakes a b k) (h' : Keeps b c) : Wakes a c k := by
  intro w hslot
  have hwoken := h w hslot
  have hbc := h'.mono w
  omega

/-- A slot that is woken later has kept its waker until then, or woken it. -/
theorem Keeps.wakes (h : Keeps a b) (h' : Keeps b c) (hw : Wakes b c k) : Wakes a c k := by
  intro w hslot
  have hab := h.mono w
  have hbc := h'.mono w
  rcases h.slot k w hslot with hkept | hwoken
  · have hwoken := hw w hkept
    omega
  · omega

/-! ## Waking and registering -/

variable [DecidableEq σ] [DecidableEq W]

/-- A waker is woken. -/
def count (a : Wakers σ W) (w : W) : W → Nat :=
  Function.update a.woken w (a.woken w + 1)

/-- Wake the slot `k`. -/
def wake (a : Wakers σ W) (k : σ) : Wakers σ W :=
  match a.slot k with
  | none => a
  | some w => { slot := Function.update a.slot k none, woken := a.count w }

/-- Wake the slots `ks`. -/
def wakeAll (a : Wakers σ W) (ks : List σ) : Wakers σ W :=
  ks.foldl wake a

/-- Register `w` in the slot `k`. Another waker that is there is woken if the object
`wakes` what it displaces, and is forgotten otherwise. -/
def register (wakes : Bool) (a : Wakers σ W) (k : σ) (w : W) : Wakers σ W where
  slot := Function.update a.slot k (some w)
  woken :=
    match a.slot k with
    | none => a.woken
    | some w' => if wakes = true ∧ w' ≠ w then a.count w' else a.woken

omit [DecidableEq σ] in
theorem le_count (a : Wakers σ W) (w w' : W) : a.woken w' ≤ a.count w w' := by
  by_cases h : w' = w
  · rw [h, count, Function.update_self]
    exact Nat.le_succ _
  · have heq : a.count w w' = a.woken w' := Function.update_of_ne h ..
    exact Nat.le_of_eq heq.symm

omit [DecidableEq σ] in
theorem lt_count (a : Wakers σ W) (w : W) : a.woken w < a.count w w := by
  rw [count, Function.update_self]
  exact Nat.lt_succ_self _

/-- The slot `k` is filled anew, and the waker that was there is woken. -/
theorem keeps_replace (hw : a.slot k = some w) (next : Option W) :
    Keeps a { slot := Function.update a.slot k next, woken := a.count w } where
  mono := a.le_count w
  slot k' w' h := by
    by_cases hk : k' = k
    · rw [hk, hw] at h
      cases h
      exact .inr (a.lt_count w)
    · refine .inl ?_
      show Function.update a.slot k next k' = some w'
      rw [Function.update_of_ne hk]
      exact h

theorem keeps_wake (a : Wakers σ W) (k : σ) : Keeps a (a.wake k) := by
  unfold wake
  split
  · exact .refl a
  · exact keeps_replace ‹_› none

theorem wakes_wake (a : Wakers σ W) (k : σ) : Wakes a (a.wake k) k := by
  intro w hw
  simp only [wake, hw]
  exact a.lt_count w

theorem keeps_wakeAll (a : Wakers σ W) (ks : List σ) : Keeps a (a.wakeAll ks) := by
  induction ks generalizing a with
  | nil => exact .refl a
  | cons k ks ih => exact (a.keeps_wake k).trans (ih (a.wake k))

theorem wakes_wakeAll (a : Wakers σ W) {ks : List σ} (hk : k ∈ ks) :
    Wakes a (a.wakeAll ks) k := by
  induction ks generalizing a with
  | nil => cases hk
  | cons k' ks ih =>
    have hkeeps : Keeps (a.wake k') ((a.wake k').wakeAll ks) := keeps_wakeAll _ ks
    rcases List.mem_cons.mp hk with rfl | hmem
    · exact (a.wakes_wake k).trans hkeeps
    · exact (a.keeps_wake k').wakes hkeeps (ih (a.wake k') hmem)

theorem registers_register (wakes : Bool) (a : Wakers σ W) (k : σ) (w : W) :
    Registers a (a.register wakes k w) k w where
  mono w' := by
    cases hslot : a.slot k with
    | none => simp only [register, hslot, Nat.le_refl]
    | some w₀ =>
      simp only [register, hslot]
      split
      · exact a.le_count w₀ w'
      · exact Nat.le_refl _
  slot := rfl

/-- The displaced waker, where it is woken. -/
theorem lt_register {w' : W} (hw : a.slot k = some w') (hne : w' ≠ w) :
    a.woken w' < (a.register true k w).woken w' := by
  simp only [register, hw]
  rw [if_pos ⟨trivial, hne⟩]
  exact a.lt_count w'

omit [DecidableEq W] in
/-- A task that has just registered is covered. -/
theorem Registers.covered (h : Registers a b k w) : b.Covered k w (b.woken w) :=
  ⟨Nat.le_refl _, .inr (by rw [h.slot, Function.update_self])⟩

omit [DecidableEq W] in
/-- A task that has registered before goes on to be covered, if its waker is not displaced
from its slot without having been woken. -/
theorem Registers.covered_other {k' : σ} {w' : W} (h : Registers a b k' w')
    (hc : a.Covered k w n) (hkept : k = k' → w ≠ w' → n < b.woken w) : b.Covered k w n := by
  refine ⟨Nat.le_trans hc.le (h.mono w), ?_⟩
  rcases hc.slot with hlt | hslot
  · exact .inl (Nat.lt_of_lt_of_le hlt (h.mono w))
  · rw [h.slot]
    by_cases hk : k = k'
    · by_cases hw : w = w'
      · rw [hk, hw, Function.update_self]
        exact .inr rfl
      · exact .inl (hkept hk hw)
    · rw [Function.update_of_ne hk]
      exact .inr hslot

end Wakers

end RustyHermit
