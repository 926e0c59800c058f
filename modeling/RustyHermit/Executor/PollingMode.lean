import Mathlib.Logic.Function.Basic
import RustyHermit.Lib.Machine
import RustyHermit.Executor.Drivers

/-!
# The network polling mode and the threads in `poll_on`

`sys_set_network_polling_mode` sets one flag of the kernel. Every `poll_on`
sets it when it enters and clears it on both of its ways out, and nobody counts
the threads that are inside. Here any number of threads enter `poll_on`, go
round its loop and leave it, in any order.

The flag is right as long as a thread that leaves is the last one inside
(`tracks_of_not_overlap`). A thread that leaves before another one turns the
polling mode off under it (`second_reader_loses_mode`, `not_tracks_of_overlap`).
-/

namespace RustyHermit.Executor

open RustyHermit.Smoltcp PollOn

/-- The kernel's flag, and the threads that call `poll_on`. -/
structure PollingMode (ι T : Type) where
  /-- the last value given to `sys_set_network_polling_mode` -/
  mode : Bool
  /-- the calls in progress; one that has returned stays until the next -/
  call : ι → Option (Call T)

namespace PollingMode

variable {ι T : Type}

/-- What can happen next. -/
inductive Label (ι T : Type) where
  /-- `i`, outside `poll_on`, calls it -/
  | enter (i : ι) (start : Instant) (timeout : Option Duration)
  /-- a step of `i`'s call -/
  | act (i : ι) (a : Act T)

/-- Between the first `sys_set_network_polling_mode(true)` and the final
`sys_set_network_polling_mode(false)`. -/
def inside : Loc T → Bool
  | .poll | .timeout | .runExecutor | .leave _ => true
  | .enter | .ret _ => false

/-- `i` is inside `poll_on`. -/
def Inside (s : PollingMode ι T) (i : ι) : Prop :=
  ∃ c, s.call i = some c ∧ inside c.loc = true

/-- A thread can enter `poll_on` if it has not called it or has returned. -/
def idle : Option (Call T) → Bool
  | none => true
  | some c =>
    match c.loc with
    | .ret _ => true
    | _ => false

/-- What the step `a` leaves in the kernel's flag. -/
def effect (mode : Bool) : Act T → Bool
  | .setPollingMode value => value
  | _ => mode

/-- One step of one thread. -/
def next [DecidableEq ι] (s : PollingMode ι T) : Label ι T → Option (PollingMode ι T)
  | .enter i start timeout =>
    if idle (s.call i) then
      some { s with call := Function.update s.call i (some (.enter start timeout)) }
    else none
  | .act i a =>
    (s.call i).bind fun c => (c.next a).map fun c' =>
      { mode := effect s.mode a, call := Function.update s.call i (some c') }

/-- Nobody has called `poll_on`, and the mode is off. -/
def booted (ι T : Type) : PollingMode ι T :=
  { mode := false, call := fun _ => none }

/-- All interleavings of the threads. -/
def machine (ι T : Type) [DecidableEq ι] : Machine (PollingMode ι T) (Label ι T) where
  init s := s = booted ι T
  next := next

/-- The mode is on exactly if somebody polls. -/
def Tracks (s : PollingMode ι T) : Prop :=
  s.mode = true ↔ ∃ i, s.Inside i

/-! ## Two readers -/

/-- Both threads enter `poll_on` and the first one returns, its future `Ready`. -/
def twoReaders : List (Label Bool Unit) :=
  [.enter true ⟨0⟩ none, .act true (.setPollingMode true),
    .enter false ⟨0⟩ none, .act false (.setPollingMode true),
    .act true (.poll (.ready ())), .act true (.setPollingMode false)]

/-- The second reader polls on with the mode off. -/
theorem second_reader_loses_mode :
    ¬ ∀ s : PollingMode Bool Unit, (machine Bool Unit).Reachable s → s.Tracks := by
  intro h
  obtain ⟨s, hrun, hmode, hcall⟩ : ∃ s,
      (machine Bool Unit).run (booted Bool Unit) twoReaders = some s ∧
        s.mode = false ∧ s.call false = some ⟨⟨0⟩, none, .poll⟩ :=
    ⟨_, rfl, rfl, rfl⟩
  have hinit : (machine Bool Unit).Reachable (booted Bool Unit) := .init rfl
  have hon := (h s (hinit.run hrun)).mpr ⟨false, _, hcall, rfl⟩
  rw [hmode] at hon
  cases hon

/-! ## Exactly when the mode is right -/

/-- The step is `i`'s final `sys_set_network_polling_mode(false)`, and another
thread is inside. -/
def Overlap (s : PollingMode ι T) : Label ι T → Prop
  | .act i (.setPollingMode false) => ∃ j, j ≠ i ∧ s.Inside j
  | _ => False

/-- What a step of `poll_on` does to the flag, and to its being inside. -/
theorem act_cases (mode : Bool) {c c' : Call T} {a : Act T} (h : c.next a = some c') :
    (a = .setPollingMode true ∧ inside c.loc = false ∧ inside c'.loc = true) ∨
    (a = .setPollingMode false ∧ inside c.loc = true ∧ inside c'.loc = false) ∨
    (effect mode a = mode ∧ inside c.loc = true ∧ inside c'.loc = true) := by
  obtain ⟨loc, hstep, rfl⟩ := Call.next_cases h
  cases hstep with
  | enter hl => exact .inl ⟨rfl, by rw [hl]; rfl, rfl⟩
  | leave hl => exact .inr (.inl ⟨rfl, by rw [hl]; rfl, rfl⟩)
  | ready hl | pending hl | expired hl _ | notExpired hl _ | runExecutor hl =>
    exact .inr (.inr ⟨rfl, by rw [hl]; rfl, rfl⟩)

variable [DecidableEq ι]

/-- A thread that goes on to the call `c` is inside if `c` is. -/
theorem inside_update_self {s : PollingMode ι T} {i : ι} {c : Call T} {mode : Bool} :
    Inside { mode, call := Function.update s.call i (some c) } i ↔ inside c.loc = true := by
  constructor
  · rintro ⟨c', hc', hin⟩
    replace hc' : Function.update s.call i (some c) i = some c' := hc'
    rw [Function.update_self] at hc'
    cases hc'
    exact hin
  · intro hin
    exact ⟨c, Function.update_self i (some c) s.call, hin⟩

/-- The other threads stay where they are. -/
theorem inside_update_other {s : PollingMode ι T} {i j : ι} {c : Call T} {mode : Bool}
    (hj : j ≠ i) :
    Inside { mode, call := Function.update s.call i (some c) } j ↔ s.Inside j := by
  show (∃ c', Function.update s.call i (some c) j = some c' ∧ inside c'.loc = true) ↔ _
  rw [Function.update_of_ne hj]
  exact Iff.rfl

/-- A step that does not change who is inside does not change whether anybody is. -/
theorem exists_inside_update {s : PollingMode ι T} {i : ι} {c : Call T} {mode : Bool}
    (h : inside c.loc = true ↔ s.Inside i) :
    (∃ j, Inside { mode, call := Function.update s.call i (some c) } j) ↔
      ∃ j, s.Inside j := by
  refine exists_congr fun j => ?_
  by_cases hj : j = i
  · rw [hj, inside_update_self]
    exact h
  · exact inside_update_other hj

/-- A step that is not an overlap keeps the mode right. -/
theorem tracks_next {s s' : PollingMode ι T} {l : Label ι T} (h : s.Tracks)
    (hok : ¬ s.Overlap l) (hnext : s.next l = some s') : s'.Tracks := by
  cases l with
  | enter i start timeout =>
    obtain ⟨hidle, hs'⟩ := Option.ite_none_right_eq_some.mp hnext
    cases hs'
    refine Iff.trans h (exists_inside_update ?_).symm
    refine iff_of_false nofun ?_
    rintro ⟨c, hc, hin⟩
    rw [hc] at hidle
    cases hl : c.loc <;> simp [idle, inside, hl] at hidle hin
  | act i a =>
    obtain ⟨c, hc, hrest⟩ := Option.bind_eq_some_iff.mp hnext
    obtain ⟨c', hc', rfl⟩ := Option.map_eq_some_iff.mp hrest
    have hi : s.Inside i ↔ inside c.loc = true := by
      simp [Inside, hc]
    rcases act_cases s.mode hc' with
      ⟨rfl, -, hin'⟩ | ⟨rfl, -, hout⟩ | ⟨hmode, hin, hin'⟩
    · exact iff_of_true rfl ⟨i, inside_update_self.mpr hin'⟩
    · -- nobody else is inside, so nobody is left
      refine iff_of_false nofun ?_
      rintro ⟨j, hj⟩
      by_cases hji : j = i
      · rw [hji, inside_update_self, hout] at hj
        cases hj
      · exact hok ⟨j, hji, (inside_update_other hji).mp hj⟩
    · refine Iff.trans ?_ (exists_inside_update ?_).symm
      · show effect s.mode a = true ↔ _
        rw [hmode]
        exact h
      · rw [hi, hin, hin']

/-- **The polling mode tracks the pollers** in every run in which nobody leaves
`poll_on` while another thread is inside. -/
theorem tracks_of_not_overlap {s : PollingMode ι T}
    (h : (machine ι T).ReachableBy (fun s l => ¬ s.Overlap l) s) : s.Tracks := by
  refine h.invariant (I := Tracks) ?_ fun _ _ _ htracks hok => tracks_next htracks hok
  rintro _ rfl
  refine iff_of_false nofun ?_
  rintro ⟨i, c, hc, -⟩
  cases hc

/-- The second reader enters `poll_on` after the first one has left it. -/
def oneAfterAnother : List (Label Bool Unit) :=
  [.enter true ⟨0⟩ none, .act true (.setPollingMode true),
    .enter false ⟨0⟩ none, .act true (.poll (.ready ())),
    .act true (.setPollingMode false), .act false (.setPollingMode true)]

/-- A thread leaves `poll_on` only if the other one is outside. -/
def leavesAlone (s : PollingMode Bool Unit) : Label Bool Unit → Bool
  | .act i (.setPollingMode false) => (s.call !i).all fun c => !inside c.loc
  | _ => true

theorem not_overlap {s : PollingMode Bool Unit} {l : Label Bool Unit}
    (h : leavesAlone s l = true) : ¬ s.Overlap l := by
  intro hover
  unfold Overlap at hover
  split at hover
  · rename_i i
    obtain ⟨j, hj, c, hc, hin⟩ := hover
    rw [Bool.eq_not.mpr hj] at hc
    simp [leavesAlone, hc, hin] at h
  · exact hover

/-- The second of two readers polls with the mode on. -/
theorem tracks_one_after_another : ∃ s : PollingMode Bool Unit,
    (machine Bool Unit).run (booted Bool Unit) oneAfterAnother = some s ∧
      s.mode = true ∧ s.Tracks := by
  have hinit : (machine Bool Unit).ReachableBy (fun s l => ¬ s.Overlap l)
      (booted Bool Unit) := .init rfl
  have hrun : (machine Bool Unit).runBy leavesAlone (booted Bool Unit) oneAfterAnother =
      (machine Bool Unit).run (booted Bool Unit) oneAfterAnother := rfl
  have hs := hinit.runBy (fun _ _ => not_overlap) hrun
  exact ⟨_, rfl, rfl, tracks_of_not_overlap hs⟩

/-- The condition leaves out nothing else: an overlap turns the mode off with a
thread inside. -/
theorem not_tracks_of_overlap {s s' : PollingMode ι T} {l : Label ι T}
    (h : s.Overlap l) (hnext : s.next l = some s') : ¬ s'.Tracks := by
  unfold Overlap at h
  split at h
  · rename_i i
    obtain ⟨j, hj, hin⟩ := h
    obtain ⟨c, -, hrest⟩ := Option.bind_eq_some_iff.mp hnext
    obtain ⟨c', -, rfl⟩ := Option.map_eq_some_iff.mp hrest
    intro htracks
    have hon : false = true := htracks.mpr ⟨j, (inside_update_other hj).mpr hin⟩
    cases hon
  · exact h.elim

end PollingMode

end RustyHermit.Executor
