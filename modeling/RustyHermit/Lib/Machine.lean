import Mathlib.Logic.Function.Basic

/-!
# Machines and their runs

A `Machine` is a set of initial states and one partial step function per
label: `next s a = none` says that the label `a` is not enabled in `s`. The
interleaving of several parties is a machine whose labels name the party that
moves, so a statement about every reachable state is a statement about every
schedule.

- `Machine.run`: execute a list of labels (a schedule); this is what concrete
  witnesses evaluate.
- `Machine.ReachableBy ok`: the states of the runs *all of whose steps* `(s, a)`
  meet `ok s a`. `Machine.Reachable` is the unrestricted case.
- `ReachableBy.invariant` and `ReachableBy.invariant_under`: the induction rule
  over runs, and the same rule with an invariant that is already proved.
- `update_cases`, `update_keeps`: what a step that updates the state of one party
  does to the others.
- `Simulation`: every step of one machine is matched by at most one step of
  another; reachability transfers (`Simulation.reachable`), so an invariant of
  the abstract machine is an invariant of the concrete one.
-/

namespace RustyHermit

universe u v w

/-- A transition machine: initial states and one partial step per label. -/
structure Machine (σ : Type u) (α : Type v) where
  init : σ → Prop
  next : σ → α → Option σ

namespace Machine

variable {σ : Type u} {α : Type v} {M : Machine σ α}

/-- Execute a schedule; `none` if one of its labels is not enabled. -/
def run (M : Machine σ α) : σ → List α → Option σ
  | s, [] => some s
  | s, a :: as => (M.next s a).bind fun s' => M.run s' as

/-- The states of the runs whose every step `(s, a)` meets `ok s a`. -/
inductive ReachableBy (M : Machine σ α) (ok : σ → α → Prop) : σ → Prop where
  | init {s : σ} : M.init s → ReachableBy M ok s
  | step {s s' : σ} {a : α} :
      ReachableBy M ok s → ok s a → M.next s a = some s' → ReachableBy M ok s'

/-- The states of all runs. -/
def Reachable (M : Machine σ α) : σ → Prop :=
  M.ReachableBy fun _ _ => True

theorem Reachable.init {s : σ} (h : M.init s) : M.Reachable s :=
  ReachableBy.init h

theorem Reachable.step {s s' : σ} {a : α} (hs : M.Reachable s)
    (h : M.next s a = some s') : M.Reachable s' :=
  ReachableBy.step hs trivial h

/-- Runs under a condition are runs. -/
theorem ReachableBy.reachable {ok : σ → α → Prop} {s : σ}
    (h : M.ReachableBy ok s) : M.Reachable s := by
  induction h with
  | init hi => exact Reachable.init hi
  | step _ _ hstep ih => exact ih.step hstep

/-- **Induction over runs**: what holds initially and is kept by every step
that meets `ok` holds in every state of the runs under `ok`. -/
theorem ReachableBy.invariant {ok : σ → α → Prop} {I : σ → Prop}
    (hinit : ∀ s, M.init s → I s)
    (hstep : ∀ s a s', I s → ok s a → M.next s a = some s' → I s')
    {s : σ} (h : M.ReachableBy ok s) : I s := by
  induction h with
  | init hi => exact hinit _ hi
  | step _ hok hnext ih => exact hstep _ _ _ ih hok hnext

/-- Induction over runs, on top of an invariant `J` that is already known. -/
theorem ReachableBy.invariant_under {ok : σ → α → Prop} {I J : σ → Prop}
    (hJ : ∀ s, M.ReachableBy ok s → J s)
    (hinit : ∀ s, M.init s → I s)
    (hstep : ∀ s a s', J s → I s → ok s a → M.next s a = some s' → I s')
    {s : σ} (h : M.ReachableBy ok s) : I s := by
  induction h with
  | init hi => exact hinit _ hi
  | step hs hok hnext ih => exact hstep _ _ _ (hJ _ hs) ih hok hnext

/-- The unrestricted induction rule. -/
theorem Reachable.invariant {I : σ → Prop}
    (hinit : ∀ s, M.init s → I s)
    (hstep : ∀ s a s', I s → M.next s a = some s' → I s')
    {s : σ} (h : M.Reachable s) : I s :=
  ReachableBy.invariant hinit (fun s a s' hi _ => hstep s a s' hi) h

/-- The unrestricted induction rule, on top of a known invariant. -/
theorem Reachable.invariant_under {I J : σ → Prop}
    (hJ : ∀ s, M.Reachable s → J s)
    (hinit : ∀ s, M.init s → I s)
    (hstep : ∀ s a s', J s → I s → M.next s a = some s' → I s')
    {s : σ} (h : M.Reachable s) : I s :=
  ReachableBy.invariant_under hJ hinit
    (fun s a s' hj hi _ => hstep s a s' hj hi) h

/-- A schedule that starts in a reachable state ends in one. -/
theorem Reachable.run {s s' : σ} {as : List α} (hs : M.Reachable s)
    (h : M.run s as = some s') : M.Reachable s' := by
  induction as generalizing s with
  | nil =>
    cases h
    exact hs
  | cons a as ih =>
    obtain ⟨s₁, hnext, hrun⟩ := Option.bind_eq_some_iff.mp h
    exact ih (hs.step hnext) hrun

/-- A step, and then a schedule. -/
theorem run_cons {s s' s'' : σ} {a : α} {as : List α} (h : M.next s a = some s')
    (hrun : M.run s' as = some s'') : M.run s (a :: as) = some s'' :=
  Option.bind_eq_some_iff.mpr ⟨s', h, hrun⟩

/-- Running one schedule after another. -/
theorem run_append (s : σ) (as bs : List α) :
    M.run s (as ++ bs) = (M.run s as).bind fun s' => M.run s' bs := by
  induction as generalizing s with
  | nil => rfl
  | cons a as ih =>
    rw [List.cons_append, run, run, Option.bind_assoc]
    exact congrArg (M.next s a).bind (funext ih)

/-- Executing a schedule whose every step meets `ok`, checked as it runs. -/
def runBy (M : Machine σ α) (ok : σ → α → Bool) : σ → List α → Option σ
  | s, [] => some s
  | s, a :: as =>
    if ok s a then (M.next s a).bind fun s' => M.runBy ok s' as else none

/-- What a checked schedule does, the schedule does. -/
theorem run_of_runBy {okb : σ → α → Bool} {s s' : σ} {as : List α}
    (h : M.runBy okb s as = some s') : M.run s as = some s' := by
  induction as generalizing s with
  | nil => exact h
  | cons a as ih =>
    obtain ⟨-, hrest⟩ := Option.ite_none_right_eq_some.mp h
    obtain ⟨s₁, hnext, hrun⟩ := Option.bind_eq_some_iff.mp hrest
    exact run_cons hnext (ih hrun)

/-- A checked schedule that starts in a state reachable under the condition
ends in one. -/
theorem ReachableBy.runBy {ok : σ → α → Prop} {okb : σ → α → Bool}
    (hok : ∀ s a, okb s a = true → ok s a) {s s' : σ} {as : List α}
    (hs : M.ReachableBy ok s) (h : M.runBy okb s as = some s') :
    M.ReachableBy ok s' := by
  induction as generalizing s with
  | nil =>
    cases h
    exact hs
  | cons a as ih =>
    rw [Machine.runBy] at h
    split at h
    · rename_i hb
      obtain ⟨s₁, hnext, hrun⟩ := Option.bind_eq_some_iff.mp h
      exact ih (hs.step (hok s a hb) hnext) hrun
    · cases h

end Machine

/-! ## Parties

The state of several parties is a function, of which a step updates one place. -/

/-- What an updated function gives at `j`. -/
theorem update_cases {ι : Type u} {β : Type v} [DecidableEq ι] {f : ι → β} {i j : ι} {x y : β}
    (h : Function.update f i x j = y) : (j = i ∧ x = y) ∨ (j ≠ i ∧ f j = y) := by
  by_cases hj : j = i
  · rw [hj, Function.update_self] at h
    exact .inl ⟨hj, h⟩
  · rw [Function.update_of_ne hj] at h
    exact .inr ⟨hj, h⟩

/-- An update that keeps `p` at its place keeps `p` everywhere. -/
theorem update_keeps {ι : Type u} {β : Type v} {γ : Type w} [DecidableEq ι]
    (p : β → γ) {f : ι → β} {i : ι} {x : β} (h : p x = p (f i)) (j : ι) :
    p (Function.update f i x j) = p (f j) := by
  rw [Function.apply_update fun _ => p, h, Function.update_eq_self i fun k => p (f k)]

/-! ## Simulation -/

/-- `R` relates concrete to abstract states so that every concrete step is
matched by one abstract step or by none. -/
structure Simulation {σ τ : Type u} {α β : Type v}
    (C : Machine σ α) (A : Machine τ β) (R : σ → τ → Prop) : Prop where
  init : ∀ s, C.init s → ∃ t, A.init t ∧ R s t
  step : ∀ s a s' t, R s t → C.next s a = some s' →
    R s' t ∨ ∃ b t', A.next t b = some t' ∧ R s' t'

/-- Every reachable concrete state is related to a reachable abstract one. -/
theorem Simulation.reachable {σ τ : Type u} {α β : Type v}
    {C : Machine σ α} {A : Machine τ β} {R : σ → τ → Prop}
    (sim : Simulation C A R) {s : σ} (h : C.Reachable s) :
    ∃ t, A.Reachable t ∧ R s t := by
  induction h with
  | init hi =>
    obtain ⟨t, ht, hR⟩ := sim.init _ hi
    exact ⟨t, Machine.Reachable.init ht, hR⟩
  | step _ _ hnext ih =>
    obtain ⟨t, ht, hR⟩ := ih
    rcases sim.step _ _ _ t hR hnext with hR' | ⟨b, t', hb, hR'⟩
    · exact ⟨t, ht, hR'⟩
    · exact ⟨t', ht.step hb, hR'⟩

end RustyHermit
