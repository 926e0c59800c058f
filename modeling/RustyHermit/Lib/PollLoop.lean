import Mathlib.Data.List.Induction
import RustyHermit.Lib.Machine

/-!
# Loops that poll until they are done

A poll loop polls something again and again until it is ready. After each poll
that was not, it reads a value and may give up on it. Whatever else such a loop
does in between, its result is a function of the outcomes of the polls and of
the values read.

- `Trial.Decides e k res`: with the outcomes and readings `e`, the result is
  `res`, and it is settled in iteration `k` (counted from zero).
- `PollLoop`: an implementation, as a control automaton. `PollLoop.Lawful` says
  that it polls, reads and gives up as it should, and that it cannot dawdle: the
  number of its other steps between two of these is bounded by a rank.
- `PollLoop.Lawful.computes`: a lawful loop computes the result. It returns
  nothing else, it returns, and it never polls what was ready.
-/

namespace RustyHermit

/-- What the result of a poll loop depends on. -/
structure Trial (T N : Type) where
  /-- the outcome of each poll, `none` if it was not ready -/
  outcome : Nat → Option T
  /-- the value read after each poll that was not ready -/
  reading : Nat → N

namespace Trial

variable {T N : Type}

/-- How iteration `k` ends, if it is the last one. -/
def decision (e : Trial T N) (stop : N → Bool) (k : Nat) : Option (Except Unit T) :=
  match e.outcome k with
  | some t => some (.ok t)
  | none => if stop (e.reading k) then some (.error ()) else none

/-- Iteration `k` is the first that ends the loop, and it does so with `res`. -/
def Decides (e : Trial T N) (stop : N → Bool) (k : Nat) (res : Except Unit T) : Prop :=
  (∀ j < k, e.decision stop j = none) ∧ e.decision stop k = some res

/-- The result, and the iteration it is settled in, are unique. -/
theorem Decides.unique {e : Trial T N} {stop : N → Bool} {k k' : Nat}
    {res res' : Except Unit T} (h : e.Decides stop k res) (h' : e.Decides stop k' res') :
    k = k' ∧ res = res' := by
  rcases Nat.lt_trichotomy k k' with hlt | rfl | hlt
  · cases (h'.1 k hlt).symm.trans h.2
  · exact ⟨rfl, Option.some.inj (h.2.symm.trans h'.2)⟩
  · cases (h.1 k' hlt).symm.trans h'.2

/-- An iteration that does not end the loop was not ready. -/
theorem outcome_of_decision {e : Trial T N} {stop : N → Bool} {k : Nat}
    (h : e.decision stop k = none) : e.outcome k = none := by
  unfold decision at h
  split at h
  · cases h
  · assumption

end Trial

/-- Where a poll loop stands. -/
inductive Phase (T : Type) where
  /-- it polls next -/
  | polling
  /-- the poll was not ready, and it reads a value next -/
  | checking
  /-- the result is settled -/
  | done (res : Except Unit T)

/-- The control of a poll loop: its points, and the steps from one to another. -/
structure PollLoop (C A T N : Type) where
  /-- a poll with this outcome -/
  poll : C → Option T → Option C
  /-- a reading of this value -/
  check : C → N → Option C
  /-- anything else -/
  other : C → A → Option C
  phase : C → Phase T
  /-- how many other steps there are at most before the next poll, reading or
  return -/
  rank : C → Nat

namespace PollLoop

variable {C A T N : Type}

/-- The loop has returned. -/
def Returned (L : PollLoop C A T N) (c : C) (res : Except Unit T) : Prop :=
  L.phase c = .done res ∧ L.rank c = 0

/-- The loop polls, reads and gives up as it should, and does not dawdle. -/
structure Lawful (L : PollLoop C A T N) (stop : N → Bool) (bound : Nat) : Prop where
  poll_phase : ∀ c o c', L.poll c o = some c' → L.phase c = .polling ∧
    L.phase c' = (match o with
      | some t => .done (.ok t)
      | none => .checking) ∧ L.rank c' ≤ bound
  check_phase : ∀ c n c', L.check c n = some c' → L.phase c = .checking ∧
    L.phase c' = (if stop n then .done (.error ()) else .polling) ∧ L.rank c' ≤ bound
  other_phase : ∀ c a c', L.other c a = some c' →
    L.phase c' = L.phase c ∧ L.rank c' < L.rank c
  polls : ∀ c o, L.phase c = .polling → L.rank c = 0 → (L.poll c o).isSome = true
  checks : ∀ c n, L.phase c = .checking → (L.check c n).isSome = true
  others : ∀ c, L.phase c ≠ .checking → 0 < L.rank c →
    ∃ a, (L.other c a).isSome = true

/-- A loop under way, and how often it has polled and read. -/
structure State (C : Type) where
  loc : C
  polled : Nat
  checked : Nat

/-- The steps of a loop. -/
inductive Label (A : Type) where
  | poll
  | check
  | other (a : A)

/-- One step: the `polled`-th poll has the outcome `e` gives it, and likewise for
the values read. -/
def next (L : PollLoop C A T N) (e : Trial T N) (s : State C) :
    Label A → Option (State C)
  | .poll => (L.poll s.loc (e.outcome s.polled)).map fun loc =>
    { s with loc, polled := s.polled + 1 }
  | .check => (L.check s.loc (e.reading s.checked)).map fun loc =>
    { s with loc, checked := s.checked + 1 }
  | .other a => (L.other s.loc a).map fun loc => { s with loc }

/-- A loop that has just been entered. -/
def start (c : C) : State C := ⟨c, 0, 0⟩

/-- All runs of the loop from the point `c`. -/
def machine (L : PollLoop C A T N) (e : Trial T N) (c : C) :
    Machine (State C) (Label A) where
  init s := s = start c
  next := L.next e

theorem reachable_start (L : PollLoop C A T N) (e : Trial T N) (c : C) :
    (L.machine e c).Reachable (start c) :=
  .init rfl

/-- The loop computes the result of `e`, within `steps k` steps if that is
settled in iteration `k`. -/
structure Computes (L : PollLoop C A T N) (stop : N → Bool) (steps : Nat → Nat)
    (e : Trial T N) (c : C) : Prop where
  /-- only the latest poll can have been ready -/
  once : ∀ s, (L.machine e c).Reachable s → ∀ k, k + 1 < s.polled → e.outcome k = none
  /-- what is returned is the result, right after the iteration that settles it -/
  sound : ∀ s res, (L.machine e c).Reachable s → L.Returned s.loc res →
    ∃ k, s.polled = k + 1 ∧ e.Decides stop k res
  /-- no run is longer than that, and each comes to the return -/
  total : ∀ k res, e.Decides stop k res → ∀ as s, (L.machine e c).run (start c) as = some s →
    as.length ≤ steps k ∧
      ∃ bs s', (L.machine e c).run s bs = some s' ∧ L.Returned s'.loc res

/-! ## The invariant -/

/-- Where the counters stand in each phase. -/
def Counted (e : Trial T N) (stop : N → Bool) (polled checked : Nat) : Phase T → Prop
  | .polling => checked = polled ∧ ∀ j < polled, e.decision stop j = none
  | .checking => polled = checked + 1 ∧ e.outcome checked = none ∧
    ∀ j < checked, e.decision stop j = none
  | .done res => checked ≤ polled ∧ ∃ k, polled = k + 1 ∧ e.Decides stop k res

variable {L : PollLoop C A T N} {stop : N → Bool} {bound : Nat} {e : Trial T N} {c : C}

/-- Every step keeps the counters right. -/
theorem Lawful.counted_next (h : L.Lawful stop bound) {s s' : State C} {l : Label A}
    (hs : Counted e stop s.polled s.checked (L.phase s.loc))
    (hnext : L.next e s l = some s') :
    Counted e stop s'.polled s'.checked (L.phase s'.loc) := by
  cases l with
  | poll =>
    obtain ⟨loc, hloc, rfl⟩ := Option.map_eq_some_iff.mp hnext
    obtain ⟨hphase, hphase', -⟩ := h.poll_phase _ _ _ hloc
    rw [hphase] at hs
    obtain ⟨hchecked, hbefore⟩ := hs
    simp only [hphase']
    cases hout : e.outcome s.polled with
    | none =>
      refine ⟨?_, ?_, ?_⟩
      · rw [hchecked]
      · rw [hchecked, hout]
      · rw [hchecked]
        exact hbefore
    | some t =>
      have hle : s.checked ≤ s.polled + 1 := by omega
      refine ⟨hle, s.polled, rfl, hbefore, ?_⟩
      rw [Trial.decision, hout]
  | check =>
    obtain ⟨loc, hloc, rfl⟩ := Option.map_eq_some_iff.mp hnext
    obtain ⟨hphase, hphase', -⟩ := h.check_phase _ _ _ hloc
    rw [hphase] at hs
    obtain ⟨hpolled, hout, hbefore⟩ := hs
    simp only [hphase']
    have hdecision : e.decision stop s.checked =
        if stop (e.reading s.checked) then some (.error ()) else none := by
      rw [Trial.decision, hout]
    split
    case isTrue hstop =>
      refine ⟨Nat.le_of_eq hpolled.symm, s.checked, hpolled, hbefore, ?_⟩
      rw [hdecision, if_pos hstop]
    case isFalse hstop =>
      refine ⟨hpolled.symm, fun j hj => ?_⟩
      rw [hpolled] at hj
      rcases Nat.lt_succ_iff_lt_or_eq.mp hj with hlt | rfl
      · exact hbefore j hlt
      · rw [hdecision, if_neg hstop]
  | other a =>
    obtain ⟨loc, hloc, rfl⟩ := Option.map_eq_some_iff.mp hnext
    rw [(h.other_phase _ _ _ hloc).1]
    exact hs

theorem Lawful.counted (h : L.Lawful stop bound) (hc : L.phase c = .polling) {s : State C}
    (hs : (L.machine e c).Reachable s) :
    Counted e stop s.polled s.checked (L.phase s.loc) := by
  refine hs.invariant (I := fun s => Counted e stop s.polled s.checked (L.phase s.loc))
    ?_ fun _ _ _ => h.counted_next
  rintro _ rfl
  show Counted e stop 0 0 (L.phase c)
  rw [hc]
  exact ⟨rfl, nofun⟩

/-- Only the latest poll can have been ready. -/
theorem Counted.once {phase : Phase T} {polled checked : Nat}
    (h : Counted e stop polled checked phase) {k : Nat} (hk : k + 1 < polled) :
    e.outcome k = none := by
  cases phase with
  | polling =>
    obtain ⟨-, hbefore⟩ := h
    exact Trial.outcome_of_decision (hbefore k (by omega))
  | checking =>
    obtain ⟨hpolled, -, hbefore⟩ := h
    exact Trial.outcome_of_decision (hbefore k (by omega))
  | done res =>
    obtain ⟨-, j, hpolled, hbefore, -⟩ := h
    exact Trial.outcome_of_decision (hbefore k (by omega))

/-- No iteration comes after the one that settles the result. -/
theorem Counted.le {phase : Phase T} {polled checked k : Nat} {res : Except Unit T}
    (h : Counted e stop polled checked phase) (hk : e.Decides stop k res) :
    polled ≤ k + 1 ∧ checked ≤ k + 1 := by
  have hlast : ∀ n, (∀ j < n, e.decision stop j = none) → n ≤ k := by
    intro n hn
    by_contra hlt
    have hnone := hn k (by omega)
    cases hnone.symm.trans hk.2
  cases phase with
  | polling =>
    obtain ⟨hchecked, hbefore⟩ := h
    have hle := hlast polled hbefore
    omega
  | checking =>
    obtain ⟨hpolled, -, hbefore⟩ := h
    have hle := hlast checked hbefore
    omega
  | done res' =>
    obtain ⟨hchecked, j, hpolled, hj⟩ := h
    obtain ⟨rfl, -⟩ := hj.unique hk
    omega

/-! ## Termination -/

/-- Each step is paid for by a poll or a reading, or by the rank. -/
theorem Lawful.length_le (h : L.Lawful stop bound) (hc : L.rank c ≤ bound)
    {as : List (Label A)} {s : State C}
    (hrun : (L.machine e c).run (start c) as = some s) :
    as.length + L.rank s.loc ≤ bound + (bound + 1) * (s.polled + s.checked) := by
  induction as using List.reverseRecOn generalizing s with
  | nil =>
    cases hrun
    simpa [start] using hc
  | append_singleton as a ih =>
    rw [Machine.run_append] at hrun
    obtain ⟨s₁, hrun₁, hlast⟩ := Option.bind_eq_some_iff.mp hrun
    obtain ⟨s₂, hnext, hs₂⟩ := Option.bind_eq_some_iff.mp hlast
    cases hs₂
    have hle := ih hrun₁
    rw [List.length_append, List.length_singleton]
    cases a with
    | poll =>
      obtain ⟨loc, hloc, rfl⟩ := Option.map_eq_some_iff.mp hnext
      have hrank := (h.poll_phase _ _ _ hloc).2.2
      show as.length + 1 + L.rank loc ≤
        bound + (bound + 1) * (s₁.polled + 1 + s₁.checked)
      rw [Nat.add_right_comm s₁.polled, Nat.mul_succ]
      omega
    | check =>
      obtain ⟨loc, hloc, rfl⟩ := Option.map_eq_some_iff.mp hnext
      have hrank := (h.check_phase _ _ _ hloc).2.2
      show as.length + 1 + L.rank loc ≤
        bound + (bound + 1) * (s₁.polled + (s₁.checked + 1))
      rw [← Nat.add_assoc, Nat.mul_succ]
      omega
    | other a =>
      obtain ⟨loc, hloc, rfl⟩ := Option.map_eq_some_iff.mp hnext
      have hrank := (h.other_phase _ _ _ hloc).2
      show as.length + 1 + L.rank loc ≤ bound + (bound + 1) * (s₁.polled + s₁.checked)
      omega

/-- A loop that has not returned can go on. -/
theorem Lawful.progress (h : L.Lawful stop bound) (s : State C) :
    (∃ res, L.Returned s.loc res) ∨ ∃ l s', L.next e s l = some s' := by
  have hmap : ∀ {o : Option C} {f : C → State C}, o.isSome = true →
      ∃ s', o.map f = some s' := fun ho =>
    Option.isSome_iff_exists.mp ((Option.isSome_map ..).trans ho)
  by_cases hrank : L.rank s.loc = 0
  case neg =>
    by_cases hphase : L.phase s.loc = .checking
    · exact .inr ⟨.check, hmap (h.checks _ _ hphase)⟩
    · obtain ⟨a, ha⟩ := h.others _ hphase (Nat.pos_of_ne_zero hrank)
      exact .inr ⟨.other a, hmap ha⟩
  case pos =>
    cases hphase : L.phase s.loc with
    | polling => exact .inr ⟨.poll, hmap (h.polls _ _ hphase hrank)⟩
    | checking => exact .inr ⟨.check, hmap (h.checks _ _ hphase)⟩
    | done res => exact .inl ⟨res, hphase, hrank⟩

/-- A run that has not come to its result can be made longer by one step. -/
theorem Lawful.returned_or_next (h : L.Lawful stop bound) (hc : L.phase c = .polling)
    {k : Nat} {res : Except Unit T} (hk : e.Decides stop k res) {as : List (Label A)}
    {s : State C} (hrun : (L.machine e c).run (start c) as = some s) :
    L.Returned s.loc res ∨ ∃ l s', L.next e s l = some s' ∧
      (L.machine e c).run (start c) (as ++ [l]) = some s' := by
  rcases h.progress (e := e) s with ⟨res', hphase, hrank⟩ | ⟨l, s', hnext⟩
  · have hcounted := h.counted hc ((L.reachable_start e c).run hrun)
    rw [hphase] at hcounted
    obtain ⟨-, k', -, hk'⟩ := hcounted
    exact .inl ⟨(hk'.unique hk).2 ▸ hphase, hrank⟩
  · refine .inr ⟨l, s', hnext, ?_⟩
    rw [Machine.run_append, hrun]
    exact Machine.run_cons hnext rfl

/-- **A lawful loop computes the result**, in a number of steps linear in the
iteration that settles it. -/
theorem Lawful.computes (h : L.Lawful stop bound) (hc : L.phase c = .polling)
    (hrank : L.rank c ≤ bound) (e : Trial T N) :
    L.Computes stop (fun k => bound + (bound + 1) * (2 * (k + 1))) e c := by
  constructor
  case once => exact fun s hs k hk => (h.counted hc hs).once hk
  case sound =>
    rintro s res hs ⟨hphase, -⟩
    have hcounted := h.counted hc hs
    rw [hphase] at hcounted
    exact hcounted.2
  case total =>
    intro k res hk as s hrun
    have hlength : ∀ {as s}, (L.machine e c).run (start c) as = some s →
        as.length ≤ bound + (bound + 1) * (2 * (k + 1)) := by
      intro as s hrun
      obtain ⟨hpolled, hchecked⟩ := (h.counted hc ((L.reachable_start e c).run hrun)).le hk
      have hmul : (bound + 1) * (s.polled + s.checked) ≤ (bound + 1) * (2 * (k + 1)) :=
        Nat.mul_le_mul_left _ (by omega)
      have := h.length_le hrank hrun
      omega
    refine ⟨hlength hrun, ?_⟩
    -- by induction on the number of steps that are left
    generalize hleft : bound + (bound + 1) * (2 * (k + 1)) - as.length = left
    induction left generalizing as s with
    | zero =>
      rcases h.returned_or_next hc hk hrun with hres | ⟨l, s', -, hrun'⟩
      · exact ⟨[], s, rfl, hres⟩
      · have := hlength hrun'
        rw [List.length_append, List.length_singleton] at this
        omega
    | succ left ih =>
      rcases h.returned_or_next hc hk hrun with hres | ⟨l, s', hnext, hrun'⟩
      · exact ⟨[], s, rfl, hres⟩
      · obtain ⟨bs, s'', hbs, hres⟩ := ih (as ++ [l]) s' hrun' (by
          rw [List.length_append, List.length_singleton]
          omega)
        exact ⟨l :: bs, s'', Machine.run_cons hnext hbs, hres⟩

end PollLoop

end RustyHermit
