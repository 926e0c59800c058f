import RustyHermit.Lib.Machine

/-!
# Runs that go on for ever

At each instant of a `Path` the machine takes a step or waits, so that runs that come to an
end are paths as well. What is to happen at some time is a relation between predicates on
instants, `LeadsTo P Q`: from each instant at which `P` holds, there is one at or after it at
which `Q` does.

- `LeadsTo.of_until`: what makes `P` lead to `Q` is usually that `P` stays until `Q` comes,
  and that something happens that ends it. That it happens is an assumption of fairness.
- `LeadsTo.of_rank`: progress towards `Q` that is measured by a number.
- `exists_rest`: a number that never rises comes to rest.
- `Path.map`: what the steps of one machine do to another one.
- `Path.ofRun`: a run that comes to an end.
-/

namespace RustyHermit

universe u v w x

/-! ## Leads to -/

/-- From an instant of `P` on, there will be one of `Q`. -/
def LeadsTo (P Q : Nat → Prop) : Prop :=
  ∀ n, P n → ∃ m, n ≤ m ∧ Q m

namespace LeadsTo

variable {P Q R : Nat → Prop}

theorem of_imp (h : ∀ n, P n → Q n) : LeadsTo P Q :=
  fun n hn => ⟨n, Nat.le_refl n, h n hn⟩

theorem trans (h : LeadsTo P Q) (h' : LeadsTo Q R) : LeadsTo P R := by
  intro n hn
  obtain ⟨m, hnm, hm⟩ := h n hn
  obtain ⟨k, hmk, hk⟩ := h' m hm
  exact ⟨k, Nat.le_trans hnm hmk, hk⟩

theorem or (h : LeadsTo P R) (h' : LeadsTo Q R) : LeadsTo (fun n => P n ∨ Q n) R := by
  intro n hn
  rcases hn with hn | hn
  · exact h n hn
  · exact h' n hn

/-- What holds at the next instant is on its way. -/
theorem of_next (h : LeadsTo P R) : LeadsTo (fun n => P (n + 1)) R := by
  intro n hn
  obtain ⟨m, hnm, hm⟩ := h (n + 1) hn
  exact ⟨m, Nat.le_trans (Nat.le_succ n) hnm, hm⟩

/-- What stays until `Q` comes is there at each later instant, unless `Q` has come. -/
theorem or_stays (hstays : ∀ n, P n → Q n ∨ P (n + 1)) {n m : Nat} (hnm : n ≤ m) (hn : P n) :
    (∃ k, n ≤ k ∧ k ≤ m ∧ Q k) ∨ P m := by
  induction hnm with
  | refl => exact .inr hn
  | @step m hnm ih =>
    rcases ih with ⟨k, hnk, hkm, hk⟩ | hm
    · exact .inl ⟨k, hnk, Nat.le_succ_of_le hkm, hk⟩
    · exact (hstays m hm).imp (fun hq => ⟨m, hnm, Nat.le_succ m, hq⟩) id

/-- **Ensures**: `P` stays until `Q` comes, and `H`, which ends `P` by `Q`, happens. -/
theorem of_until {H : Nat → Prop} (hstays : ∀ n, P n → Q n ∨ P (n + 1)) (hfair : LeadsTo P H)
    (hends : ∀ n, P n → H n → Q n) : LeadsTo P Q := by
  intro n hn
  obtain ⟨m, hnm, hm⟩ := hfair n hn
  rcases or_stays hstays hnm hn with ⟨k, hnk, -, hk⟩ | hstayed
  · exact ⟨k, hnk, hk⟩
  · exact ⟨m, hnm, hends m hstayed hm⟩

/-- What is over for good has been ended by what ends it. -/
theorem of_ends (hstays : ∀ n, P n → Q n ∨ P (n + 1)) {m : Nat} (hends : ∀ n, m ≤ n → ¬P n) :
    LeadsTo P Q := by
  intro n hn
  rcases or_stays hstays (Nat.le_max_left n m) hn with ⟨k, hnk, -, hk⟩ | hstayed
  · exact ⟨k, hnk, hk⟩
  · exact absurd hstayed (hends _ (Nat.le_max_right n m))

/-- **Progress by rank**: from `P` there is a way to `Q`, or to `P` at a smaller rank. -/
theorem of_rank (rank : Nat → Nat)
    (h : ∀ n, P n → ∃ m, n ≤ m ∧ (Q m ∨ (P m ∧ rank m < rank n))) : LeadsTo P Q := by
  intro n hn
  induction hr : rank n using Nat.strongRecOn generalizing n with
  | ind r ih =>
    obtain ⟨m, hnm, hm | ⟨hm, hless⟩⟩ := h n hn
    · exact ⟨m, hnm, hm⟩
    · obtain ⟨k, hmk, hk⟩ := ih (rank m) (hr ▸ hless) m hm rfl
      exact ⟨k, Nat.le_trans hnm hmk, hk⟩

end LeadsTo

/-! ## Numbers that come to rest -/

section Rest

variable {f : Nat → Nat} {n₀ : Nat}

theorem le_of_falls (h : ∀ n, n₀ ≤ n → f (n + 1) ≤ f n) {n m : Nat} (hn : n₀ ≤ n) (hnm : n ≤ m) :
    f m ≤ f n := by
  induction hnm with
  | refl => exact Nat.le_refl _
  | @step m hnm ih => exact Nat.le_trans (h m (Nat.le_trans hn hnm)) ih

/-- **A number that never rises comes to rest.** -/
theorem exists_rest (h : ∀ n, n₀ ≤ n → f (n + 1) ≤ f n) :
    ∃ N, n₀ ≤ N ∧ ∀ n, N ≤ n → f (n + 1) = f n := by
  have hleads : LeadsTo (fun n => n₀ ≤ n) fun n => n₀ ≤ n ∧ ∀ m, n ≤ m → f (m + 1) = f m := by
    refine .of_rank f fun n hn => ?_
    by_cases hrest : ∀ m, n ≤ m → f (m + 1) = f m
    · exact ⟨n, Nat.le_refl n, .inl ⟨hn, hrest⟩⟩
    · obtain ⟨m, hnm, hne⟩ : ∃ m, n ≤ m ∧ f (m + 1) ≠ f m := by
        by_contra hnone
        exact hrest fun m hnm => by_contra fun hne => hnone ⟨m, hnm, hne⟩
      have hm := Nat.le_trans hn hnm
      refine ⟨m + 1, Nat.le_succ_of_le hnm, .inr ⟨Nat.le_succ_of_le hm, ?_⟩⟩
      exact Nat.lt_of_lt_of_le (Nat.lt_of_le_of_ne (h m hm) hne) (le_of_falls h hn hnm)
  obtain ⟨N, hN, -, hrest⟩ := hleads n₀ (Nat.le_refl n₀)
  exact ⟨N, hN, hrest⟩

end Rest

/-! ## Paths -/

namespace Machine

variable {σ : Type u} {α : Type v} {τ : Type w} {β : Type x} {M : Machine σ α} {N : Machine τ β}

/-- A step, or none. -/
def wait (M : Machine σ α) (s : σ) : Option α → Option σ
  | none => some s
  | some a => M.next s a

/-- A run that goes on for ever. -/
structure Path (M : Machine σ α) where
  state : Nat → σ
  label : Nat → Option α
  init : M.init (state 0)
  step : ∀ n, M.wait (state n) (label n) = some (state (n + 1))

namespace Path

variable (p : M.Path)

theorem reachable (n : Nat) : M.Reachable (p.state n) := by
  induction n with
  | zero => exact .init p.init
  | succ n ih =>
    have hstep := p.step n
    cases hlabel : p.label n with
    | none =>
      rw [hlabel] at hstep
      rwa [← Option.some.inj hstep]
    | some a =>
      rw [hlabel] at hstep
      exact ih.step hstep

theorem next_of_label {n : Nat} {a : α} (h : p.label n = some a) :
    M.next (p.state n) a = some (p.state (n + 1)) := by
  have hstep := p.step n
  rw [h] at hstep
  exact hstep

theorem state_of_label {n : Nat} (h : p.label n = none) : p.state (n + 1) = p.state n := by
  have hstep := p.step n
  rw [h] at hstep
  exact (Option.some.inj hstep).symm

/-- What every step keeps is there for good. -/
theorem keeps {I : σ → Prop} (hI : ∀ s a s', I s → M.next s a = some s' → I s') {n m : Nat}
    (hnm : n ≤ m) (hn : I (p.state n)) : I (p.state m) := by
  induction hnm with
  | refl => exact hn
  | @step m hnm ih =>
    cases hlabel : p.label m with
    | none =>
      rw [p.state_of_label hlabel]
      exact ih
    | some a => exact hI _ a _ ih (p.next_of_label hlabel)

/-- Of a path whose steps meet a condition. -/
theorem reachableBy {ok : σ → α → Prop} (hok : ∀ n a, p.label n = some a → ok (p.state n) a)
    (n : Nat) : M.ReachableBy ok (p.state n) := by
  induction n with
  | zero => exact .init p.init
  | succ n ih =>
    have hstep := p.step n
    cases hlabel : p.label n with
    | none =>
      rw [hlabel] at hstep
      rwa [← Option.some.inj hstep]
    | some a =>
      rw [hlabel] at hstep
      exact ih.step (hok n a hlabel) hstep

/-- A step that is seen through `f` is the step `g` of another machine, or none. -/
def map (f : σ → τ) (g : σ → α → Option β) (hinit : ∀ s, M.init s → N.init (f s))
    (hstep : ∀ s a s', M.Reachable s → M.next s a = some s' →
      N.wait (f s) (g s a) = some (f s')) :
    N.Path where
  state n := f (p.state n)
  label n := (p.label n).bind (g (p.state n))
  init := hinit _ p.init
  step n := by
    have h := p.step n
    cases hlabel : p.label n with
    | none =>
      rw [hlabel] at h
      rw [← Option.some.inj h, Option.bind_none, wait]
    | some a =>
      rw [hlabel] at h
      exact hstep _ a _ (p.reachable n) h

/-- The states of a run, and its last one for ever. -/
def stateOf (M : Machine σ α) : σ → List α → Nat → σ
  | s, [], _ => s
  | s, _ :: _, 0 => s
  | s, a :: as, n + 1 => stateOf M ((M.next s a).getD s) as n

theorem stateOf_zero (s : σ) (as : List α) : stateOf M s as 0 = s := by
  cases as <;> rfl

theorem stateOf_step {s s' : σ} {as : List α} (h : M.run s as = some s') (n : Nat) :
    M.wait (stateOf M s as n) as[n]? = some (stateOf M s as (n + 1)) := by
  induction as generalizing s n with
  | nil => rfl
  | cons a as ih =>
    obtain ⟨s₁, hnext, hrun⟩ := Option.bind_eq_some_iff.mp h
    cases n with
    | zero =>
      rw [stateOf, stateOf, stateOf_zero, hnext]
      exact hnext
    | succ n =>
      rw [stateOf, stateOf, hnext]
      exact ih hrun n

/-- A run that comes to an end, and then waits. -/
def ofRun {s s' : σ} {as : List α} (hs : M.init s) (h : M.run s as = some s') : M.Path where
  state := stateOf M s as
  label n := as[n]?
  init := (stateOf_zero s as).symm ▸ hs
  step := stateOf_step h

theorem stateOf_of_le {s s' : σ} {as : List α} (h : M.run s as = some s') {n : Nat}
    (hn : as.length ≤ n) : stateOf M s as n = s' := by
  induction as generalizing s n with
  | nil =>
    cases h
    rfl
  | cons a as ih =>
    obtain ⟨s₁, hnext, hrun⟩ := Option.bind_eq_some_iff.mp h
    cases n with
    | zero => cases hn
    | succ n =>
      rw [stateOf, hnext]
      exact ih hrun (Nat.le_of_succ_le_succ hn)

/-- From its end on, the run is where it has come to. -/
theorem ofRun_state {s s' : σ} {as : List α} (hs : M.init s) (h : M.run s as = some s') {n : Nat}
    (hn : as.length ≤ n) : (ofRun hs h).state n = s' :=
  stateOf_of_le h hn

/-- A schedule that was checked as it ran. -/
theorem ok_of_runBy {okb : σ → α → Bool} {s s' : σ} {as : List α}
    (h : M.runBy okb s as = some s') (n : Nat) (a : α) (ha : as[n]? = some a) :
    okb (stateOf M s as n) a = true := by
  induction as generalizing s n with
  | nil => cases ha
  | cons b as ih =>
    obtain ⟨hb, hrest⟩ := Option.ite_none_right_eq_some.mp h
    obtain ⟨s₁, hnext, hrun⟩ := Option.bind_eq_some_iff.mp hrest
    cases n with
    | zero =>
      cases ha
      exact hb
    | succ n =>
      rw [stateOf, hnext]
      exact ih hrun n ha

end Path

end Machine

end RustyHermit
