import RustyHermit.Lib.Machine
import RustyHermit.Lib.Wakers

/-!
# `WakerRegistration` (`waker.rs`)

One slot for a waker. Both operations return, next to the registration they
leave behind, the waker they wake; the caller's machine says what that does.

`Registration.machine` has all sequences of both, called by any tasks. A task that
has registered is in the slot, or it has been woken since (`forgets_nobody`).

All that is known of `will_wake` is that it never says wrongly that two wakers wake the
same task. It may fail to see that they do: the slot holds a task's waker if it sees it.
-/

namespace RustyHermit.Net

/-- `struct WakerRegistration`. -/
structure WakerRegistration (W : Type) where
  waker : Option W
deriving DecidableEq, Repr

namespace WakerRegistration

variable {W : Type}

/-- `WakerRegistration::new`. -/
def new : WakerRegistration W := ⟨none⟩

/-- `WakerRegistration::register`: a waker for the same task is kept, any other
is replaced and woken. -/
def register (willWake : W → W → Bool) (r : WakerRegistration W) (w : W) :
    WakerRegistration W × Option W :=
  match r.waker with
  | some w2 => if willWake w2 w then (r, none) else (⟨some w⟩, some w2)
  | none => (⟨some w⟩, none)

/-- `WakerRegistration::wake`: the slot is emptied. -/
def wake (r : WakerRegistration W) : WakerRegistration W × Option W :=
  (⟨none⟩, r.waker)

/-- The three branches of `register`. -/
theorem register_cases (willWake : W → W → Bool) (r : WakerRegistration W) (w : W) :
    (∃ w2, r.waker = some w2 ∧ willWake w2 w = true ∧ r.register willWake w = (r, none)) ∨
    (∃ w2, r.waker = some w2 ∧ willWake w2 w = false ∧
      r.register willWake w = (⟨some w⟩, some w2)) ∨
    (r.waker = none ∧ r.register willWake w = (⟨some w⟩, none)) := by
  unfold register
  cases hw : r.waker with
  | none => exact .inr (.inr ⟨rfl, rfl⟩)
  | some w2 =>
    cases hwill : willWake w2 w with
    | true => exact .inl ⟨w2, rfl, hwill, if_pos hwill⟩
    | false =>
      have hnot : ¬ willWake w2 w = true := by
        rw [hwill]
        exact Bool.noConfusion
      exact .inr (.inl ⟨w2, rfl, hwill, if_neg hnot⟩)

end WakerRegistration

/-! ## The tasks that register -/

/-- A registration, and what becomes of the tasks. -/
structure Registration (W T : Type) where
  reg : WakerRegistration W
  /-- how often each task has been woken -/
  woken : T → Nat
  /-- ghost: the waker that each task registered last, and how often the task had been
  woken by then -/
  latest : T → Option (W × Nat)

namespace Registration

variable {W T : Type}

/-- A call, of `register` by the task whose waker it gets. -/
inductive Label (W : Type) where
  | register (w : W)
  | wake

section

variable [DecidableEq T] (willWake : W → W → Bool) (task : W → T)

/-- The waker that a call wakes, if it wakes one. -/
def wakeTask (woken : T → Nat) : Option W → T → Nat
  | none => woken
  | some w => Function.update woken (task w) (woken (task w) + 1)

/-- One call. -/
def next (s : Registration W T) : Label W → Option (Registration W T)
  | .register w =>
    let r := s.reg.register willWake w
    let woken := wakeTask task s.woken r.2
    some { reg := r.1, woken
           latest := Function.update s.latest (task w) (some (w, woken (task w))) }
  | .wake =>
    let r := s.reg.wake
    some { s with reg := r.1, woken := wakeTask task s.woken r.2 }

/-- Nobody has registered yet. -/
def start : Registration W T :=
  { reg := .new, woken := fun _ => 0, latest := fun _ => none }

/-- All sequences of calls. -/
def machine : Machine (Registration W T) (Label W) where
  init s := s = start
  next := next willWake task

end

variable {willWake : W → W → Bool} {task : W → T} {s s' : Registration W T} {t u : T}
  {w w' : W} {n : Nat}

/-! ## What should hold -/

/-- The waker `w'` in the slot stands for `w`: it is that waker, or `will_wake` says
that it wakes the same task. -/
def StandsFor (willWake : W → W → Bool) (w' w : W) : Prop :=
  w' = w ∨ willWake w' w = true

/-- Nobody is forgotten in `s`, whichever call comes next. -/
structure ForgetsNobody [DecidableEq T] (willWake : W → W → Bool) (task : W → T)
    (s : Registration W T) : Prop where
  /-- a task that has registered is in the slot, or has been woken since -/
  covered : ∀ t w n, s.latest t = some (w, n) →
    (∃ w', s.reg.waker = some w' ∧ StandsFor willWake w' w ∧ task w' = t) ∨ n < s.woken t
  /-- registering again while in the slot wakes no task; `will_wake` must see that a waker
  is itself -/
  again : ∀ w w' s', s.reg.waker = some w' → StandsFor willWake w' w →
    (w' = w → willWake w w = true) →
    next willWake task s (.register w) = some s' → s'.woken = s.woken
  /-- waking empties the slot and wakes one task at most, and once -/
  emptied : ∀ s', next willWake task s .wake = some s' → s'.reg.waker = none
  one : ∀ s' t u, next willWake task s .wake = some s' → s.woken t < s'.woken t →
    s.woken u < s'.woken u → t = u ∧ s'.woken t = s.woken t + 1

/-! ## One slot, seen from the tasks -/

/-- The slot by the task that its waker wakes. -/
def wakers (task : W → T) (s : Registration W T) : Wakers Unit T where
  slot _ := s.reg.waker.map task
  woken := s.woken

/-- What holds after any sequence of calls. -/
structure Inv (willWake : W → W → Bool) (task : W → T) (s : Registration W T) : Prop where
  covered : ∀ t w n, s.latest t = some (w, n) → (wakers task s).Covered () t n
  slot : ∀ w', s.reg.waker = some w' →
    ∃ w n, s.latest (task w') = some (w, n) ∧ StandsFor willWake w' w

theorem inv_start : Inv willWake task (start : Registration W T) where
  covered t w n h := by cases h
  slot w' h := by cases h

variable [DecidableEq T]

/-- A call that leaves the slot's task or wakes it keeps all tasks. -/
theorem keeps_of_woken {reg : WakerRegistration W} {latest : T → Option (W × Nat)}
    (h : s.reg.waker = some w') :
    Wakers.Keeps (wakers task s)
      (wakers task { reg, woken := wakeTask task s.woken (some w'), latest }) where
  mono t := (wakers task s).le_count (task w') t
  slot _ t ht := by
    have hslot : s.reg.waker.map task = some t := ht
    rw [h] at hslot
    cases hslot
    exact .inr ((wakers task s).lt_count (task w'))

omit [DecidableEq T] in
theorem keeps_of_empty {reg : WakerRegistration W} {latest : T → Option (W × Nat)}
    (h : s.reg.waker = none) :
    Wakers.Keeps (wakers task s) (wakers task { reg, woken := s.woken, latest }) where
  mono t := Nat.le_refl _
  slot _ t ht := by
    have hslot : s.reg.waker.map task = some t := ht
    rw [h] at hslot
    cases hslot

/-- A task that has just registered is covered by its slot. -/
theorem Inv.registered {reg : WakerRegistration W} {woken : T → Nat} (hi : Inv willWake task s)
    (hkeeps : Wakers.Keeps (wakers task s) (wakers task { s with reg, woken }))
    (hslot : reg.waker = some w') (hw' : StandsFor willWake w' w) (htask : task w' = task w) :
    Inv willWake task
      { reg, woken
        latest := Function.update s.latest (task w) (some (w, woken (task w))) } where
  covered t v n h := by
    rcases update_cases h with ⟨rfl, heq⟩ | ⟨-, hlatest⟩
    · cases heq
      refine ⟨Nat.le_refl _, .inr ?_⟩
      show reg.waker.map task = some (task w)
      rw [hslot, ← htask]
      rfl
    · exact hkeeps.covered (hi.covered t v n hlatest)
  slot v hv := by
    have hvw : v = w' := Option.some.inj (hv.symm.trans hslot)
    refine ⟨w, woken (task w), ?_, hvw ▸ hw'⟩
    show Function.update s.latest (task w) _ (task v) = _
    rw [hvw, htask, Function.update_self]

theorem inv_next (hsound : ∀ a b, willWake a b = true → task a = task b)
    (hi : Inv willWake task s) {l : Label W} (h : next willWake task s l = some s') :
    Inv willWake task s' := by
  cases l with
  | register w =>
    cases h
    rcases s.reg.register_cases willWake w with ⟨w2, hslot, hwill, hr⟩ | ⟨w2, hslot, -, hr⟩ |
        ⟨hslot, hr⟩
    · rw [hr]
      exact hi.registered (.refl _) hslot (.inr hwill) (hsound w2 w hwill)
    · rw [hr]
      exact hi.registered (keeps_of_woken hslot) rfl (.inl rfl) rfl
    · rw [hr]
      exact hi.registered (keeps_of_empty hslot) rfl (.inl rfl) rfl
  | wake =>
    cases h
    refine ⟨fun t w n hlatest => ?_, fun w' hw' => by cases hw'⟩
    have hc := hi.covered t w n hlatest
    cases hslot : s.reg.waker with
    | none =>
      have hkeeps : Wakers.Keeps (wakers task s) (wakers task { s with reg := ⟨none⟩ }) :=
        keeps_of_empty hslot
      rw [WakerRegistration.wake, hslot]
      exact hkeeps.covered hc
    | some w' =>
      have hkeeps : Wakers.Keeps (wakers task s) (wakers task
          { s with reg := ⟨none⟩, woken := wakeTask task s.woken (some w') }) :=
        keeps_of_woken hslot
      rw [WakerRegistration.wake, hslot]
      exact hkeeps.covered hc

theorem reachable_inv (hsound : ∀ a b, willWake a b = true → task a = task b)
    (h : (machine willWake task).Reachable s) : Inv willWake task s := by
  refine h.invariant (I := Inv willWake task) (fun s hinit => ?_)
    fun s a s' hi hnext => inv_next hsound hi hnext
  rw [show s = start from hinit]
  exact inv_start

/-- Only the task of the woken waker is woken, and once. -/
theorem eq_of_woken {woken : T → Nat} {o : Option W}
    (h : woken t < wakeTask task woken o t) :
    o.map task = some t ∧ wakeTask task woken o t = woken t + 1 := by
  cases o with
  | none => exact absurd h (Nat.lt_irrefl _)
  | some w =>
    have hupdate : wakeTask task woken (some w)
        = Function.update woken (task w) (woken (task w) + 1) := rfl
    by_cases ht : t = task w
    · rw [hupdate, ht, Function.update_self]
      exact ⟨rfl, rfl⟩
    · rw [hupdate, Function.update_of_ne ht] at h
      exact absurd h (Nat.lt_irrefl _)

/-- **Nobody is forgotten**, in any state of any sequence of calls. -/
theorem forgets_nobody (hsound : ∀ a b, willWake a b = true → task a = task b)
    (h : (machine willWake task).Reachable s) : ForgetsNobody willWake task s := by
  have hi := reachable_inv hsound h
  refine ⟨fun t w n hlatest => ?_, fun w w' s' hslot hstands hrefl hnext => ?_,
    fun s' hnext => ?_, fun s' t u hnext ht hu => ?_⟩
  · rcases (hi.covered t w n hlatest).slot with hwoken | hslot
    · exact .inr hwoken
    · obtain ⟨w', hw', htask⟩ := Option.map_eq_some_iff.mp hslot
      obtain ⟨v, m, hv, hstands⟩ := hi.slot w' hw'
      rw [htask, hlatest] at hv
      cases hv
      exact .inl ⟨w', hw', hstands, htask⟩
  · have hwill : willWake w' w = true := by
      rcases hstands with rfl | hwill
      · exact hrefl rfl
      · exact hwill
    cases hnext
    rcases s.reg.register_cases willWake w with ⟨w2, hw2, -, hr⟩ | ⟨w2, hw2, hnot, -⟩ |
        ⟨hnone, -⟩
    · rw [hr]
      rfl
    · cases hslot.symm.trans hw2
      rw [hwill] at hnot
      cases hnot
    · cases hslot.symm.trans hnone
  · cases hnext
    rfl
  · cases hnext
    obtain ⟨hslot, hcount⟩ := eq_of_woken ht
    obtain ⟨hslot', -⟩ := eq_of_woken hu
    exact ⟨Option.some.inj (hslot.symm.trans hslot'), hcount⟩

/-- Two tasks fight over the slot, and then it is woken. -/
theorem forgets_nobody_two : ForgetsNobody (· == ·) (fun w : Nat => w)
    { reg := .new
      woken := Function.update (Function.update (fun _ => 0) 1 1) 2 1
      latest := Function.update (Function.update (fun _ => none) 1 (some (1, 0))) 2
        (some (2, 0)) } := by
  refine forgets_nobody (fun a b h => by simpa using h) ?_
  refine .step (.step (.step (.init rfl) (a := .register 1) rfl) (a := .register 2) rfl)
    (a := .wake) ?_
  rfl

end Registration

end RustyHermit.Net
