import RustyHermit.Lib.Path
import RustyHermit.Executor.Park
import RustyHermit.Executor.Result

/-!
# A thread that is woken polls again

That no wakeup is lost says that a thread that was woken is not blocked for good. Here it goes on:
in every run that goes on for ever and in which

- a thread in `block_on` that is runnable gets to run,
- `run_executor` returns,
- who has set its flag goes on to `sys_wakeup_task`,
- a time limit is over sometime, and
- no `sys_wakeup_task` is missed,

a thread that is woken comes back to its poll (`Scheduled.resumes`), wherever in its loop the wake
has met it. What is left of the loop is counted (`Loc.ahead`), and it stops nowhere but in
`sys_yield`.
-/

namespace RustyHermit.Executor

open BlockOn

namespace BlockOn

variable {T : Type}

/-- Between two polls. -/
def Loc.between : Loc T → Bool
  | .poll | .ret _ => false
  | _ => true

/-- How many steps are left at most until the next poll. -/
def Loc.ahead : Loc T → Nat
  | .timeout => 7
  | loc => loc.rank

/-- Each step between two polls comes closer to the next one, or to the end of the call. -/
theorem Call.Step.ahead {c : Call T} {a : Act T} {loc : Loc T} (h : Call.Step c a loc)
    (hbetween : c.loc.between = true) :
    (∀ r, a ≠ .poll r) ∧ (loc.between = true → loc.ahead < c.loc.ahead) := by
  cases h with
  | ready hl | pending hl =>
    rw [hl] at hbetween
    cases hbetween
  | expired hl | unparked hl | runExecutor hl =>
    exact ⟨fun r hpoll => (by cases hpoll), fun hnext => (by cases hnext)⟩
  | notExpired hl | long hl | short hl | parking hl | block hl | blockWithTimeout hl | yield hl
  | store hl =>
    rw [hl]
    exact ⟨fun r hpoll => (by cases hpoll), fun _ => by simp [Loc.ahead, Loc.rank]⟩

end BlockOn

namespace Park

variable {ι T : Type} [DecidableEq ι] {s s' : Park ι T} {l : Label ι T}

/-- The steps of `machine`, from any state that keeps the protocol. -/
def ongoing (ι T : Type) [DecidableEq ι] : Machine (Park ι T) (Label ι T) where
  init := Inv
  next := next

/-! ## What a step does to a thread that was woken -/

/-- What a step of the thread can be. -/
theorem thread_cases {a : Act T} (h : s.next (.thread a) = some s') :
    ∃ loc s₁, Call.Step s.call a loc ∧ s.effect a = some s₁ ∧
      s' = { s₁ with call := { s.call with loc } } := by
  obtain ⟨call, hcall, hrest⟩ := Option.bind_eq_some_iff.mp h
  obtain ⟨s₁, heffect, rfl⟩ := Option.map_eq_some_iff.mp hrest
  obtain ⟨loc, hstep, rfl⟩ := Call.next_cases hcall
  exact ⟨loc, s₁, hstep, heffect, rfl⟩

omit [DecidableEq ι] in
/-- Only a poll forgets the wake. -/
theorem woken_of_effect {a : Act T} (h : s.effect a = some s') (hnot : ∀ r, a ≠ .poll r) :
    s'.woken = s.woken := by
  cases a with
  | poll r => exact absurd rfl (hnot r)
  | swap unparked | yield =>
    obtain ⟨-, hs'⟩ := Option.ite_none_right_eq_some.mp h
    cases hs'
    rfl
  | _ =>
    cases h
    rfl

/-- A step at the notifier or of the kernel leaves the call where it is, and keeps the wake; it
only makes the thread runnable. -/
theorem notifier_cases (h : s.next l = some s') (hthread : ∀ a, l ≠ .thread a)
    (henter : ∀ start timeout, l ≠ .enter start timeout) :
    s'.call = s.call ∧ (s.woken = true → s'.woken = true) ∧
      (s'.task = s.task ∨ s'.task = .runnable) := by
  cases l with
  | thread a => exact absurd rfl (hthread a)
  | enter start timeout => exact absurd rfl (henter start timeout)
  | wake i =>
    obtain ⟨-, hs'⟩ := Option.ite_none_left_eq_some.mp h
    cases hs'
    exact ⟨rfl, fun _ => rfl, .inl rfl⟩
  | wakeupTask i =>
    obtain ⟨-, hs'⟩ := Option.ite_none_right_eq_some.mp h
    cases hs'
    refine ⟨rfl, id, .inr ?_⟩
    cases s.task <;> rfl
  | timer =>
    obtain ⟨-, hs'⟩ := Option.ite_none_right_eq_some.mp h
    cases hs'
    exact ⟨rfl, id, .inr rfl⟩

/-- `block_on` is entered from outside, at its poll. -/
theorem enter_cases {start : Smoltcp.Instant} {timeout : Option Smoltcp.Duration}
    (h : s.next (.enter start timeout) = some s') :
    (∃ res, s.call.loc = .ret res) ∧ s'.call.loc = .poll := by
  simp only [next] at h
  split at h <;> cases h
  exact ⟨⟨_, ‹_›⟩, rfl⟩

/-- Inside a call nothing else happens. -/
theorem other_cases (h : s.next l = some s') (hthread : ∀ a, l ≠ .thread a)
    (hin : ∀ r, s.call.loc ≠ .ret r) :
    s'.call = s.call ∧ (s.woken = true → s'.woken = true) ∧
      (s'.task = s.task ∨ s'.task = .runnable) := by
  refine notifier_cases h hthread ?_
  rintro start timeout rfl
  obtain ⟨⟨res, hret⟩, -⟩ := enter_cases h
  exact hin res hret

/-- Who is on the way to `sys_wakeup_task` stays there until he calls it. -/
theorem waking_of_next (h : s.next l = some s') {i : ι} (hi : s.waking i = true) :
    l = .wakeupTask i ∨ s'.waking i = true := by
  cases l with
  | thread a =>
    obtain ⟨loc, s₁, -, heffect, rfl⟩ := thread_cases h
    have hsame : s₁.waking = s.waking := by
      cases a with
      | poll r => cases r <;> cases heffect <;> rfl
      | swap unparked | yield =>
        obtain ⟨-, hs₁⟩ := Option.ite_none_right_eq_some.mp heffect
        cases hs₁
        rfl
      | _ =>
        cases heffect
        rfl
    exact .inr ((congrFun hsame i).trans hi)
  | enter start timeout =>
    simp only [next] at h
    split at h <;> cases h
    exact .inr hi
  | wake j =>
    obtain ⟨-, hs'⟩ := Option.ite_none_left_eq_some.mp h
    cases hs'
    refine .inr ?_
    show (if s.unparked then s.waking else Function.update s.waking j true) i = true
    split
    · exact hi
    · rw [Function.update_apply]
      split
      · rfl
      · exact hi
  | wakeupTask j =>
    obtain ⟨-, hs'⟩ := Option.ite_none_right_eq_some.mp h
    cases hs'
    by_cases hij : i = j
    · exact .inl (hij ▸ rfl)
    · exact .inr ((Function.update_of_ne hij ..).trans hi)
  | timer =>
    obtain ⟨-, hs'⟩ := Option.ite_none_right_eq_some.mp h
    cases hs'
    exact .inr hi

/-! ## Runs that go on for ever -/

section Paths

variable (p : (ongoing ι T).Path)

/-- A step of the loop is executed. -/
def Goes (n : Nat) : Prop :=
  ∃ a, p.label n = some (.thread a)

/-- The future is polled. -/
def Polls (n : Nat) : Prop :=
  ∃ r, p.label n = some (.thread (.poll r))

/-- A runnable thread between two polls, outside `run_executor`, executes the next step of its
loop. -/
def GoesOn : Prop :=
  LeadsTo (fun n => (p.state n).call.loc.between = true ∧ (p.state n).call.loc ≠ .runExecutor ∧
    (p.state n).task = .runnable) (Goes p)

/-- `run_executor` returns, whatever tasks it polls. -/
def LeavesExecutor : Prop :=
  LeadsTo (fun n => (p.state n).call.loc = .runExecutor ∧ (p.state n).task = .runnable) (Goes p)

/-- **Fairness of the scheduler and the kernel**, and no missed `sys_wakeup_task`. -/
structure Scheduled : Prop where
  notMissed : ∀ n l, p.label n = some l → ¬ (p.state n).Missed l
  goesOn : GoesOn p
  leavesExecutor : LeavesExecutor p
  wakesUp : ∀ i, LeadsTo (fun n => (p.state n).waking i = true) fun n =>
    p.label n = some (.wakeupTask i)
  timer : LeadsTo (fun n => (p.state n).task = .blockedWithTimeout) fun n =>
    (p.state n).task ≠ .blockedWithTimeout

variable {p}

theorem Scheduled.inv (h : Scheduled p) (n : Nat) : (p.state n).Inv :=
  (p.reachableBy h.notMissed n).invariant (I := Inv) (fun _ hinit => hinit)
    fun _ _ _ hinv hok => inv_next hinv hok

/-- Between two polls a thread goes on, inside `run_executor` and outside. -/
theorem goes_iff : LeadsTo (fun n => (p.state n).call.loc.between = true ∧
    (p.state n).task = .runnable) (Goes p) ↔ GoesOn p ∧ LeavesExecutor p := by
  constructor
  · intro h
    refine ⟨(LeadsTo.of_imp fun n hn => ⟨hn.1, hn.2.2⟩).trans h,
      (LeadsTo.of_imp fun n hn => ⟨?_, hn.2⟩).trans h⟩
    rw [hn.1]
    rfl
  · rintro ⟨hgoes, hleaves⟩ n hn
    by_cases hloc : (p.state n).call.loc = .runExecutor
    · exact hleaves n ⟨hloc, hn.2⟩
    · exact hgoes n ⟨hn.1, hloc, hn.2⟩

/-- A step, or none, that is not one of the loop. -/
theorem other_of_label {n : Nat} (hnot : ¬Goes p n)
    (hbetween : (p.state n).call.loc.between = true) :
    (p.state (n + 1)).call = (p.state n).call ∧
      ((p.state n).woken = true → (p.state (n + 1)).woken = true) ∧
      ((p.state (n + 1)).task = (p.state n).task ∨ (p.state (n + 1)).task = .runnable) := by
  cases hlabel : p.label n with
  | none =>
    rw [p.state_of_label hlabel]
    exact ⟨rfl, id, .inl rfl⟩
  | some l =>
    refine other_cases (p.next_of_label hlabel) (fun a hl => hnot ⟨a, hl ▸ hlabel⟩) ?_
    intro r hl
    rw [hl] at hbetween
    cases hbetween

/-- A thread that was woken since its latest poll, between two polls at `loc`. -/
structure WokenAt (p : (ongoing ι T).Path) (loc : Loc T) (n : Nat) : Prop where
  at_loc : (p.state n).call.loc = loc
  between : loc.between = true
  woken : (p.state n).woken = true

theorem WokenAt.next {loc : Loc T} {n : Nat} (h : WokenAt p loc n) (hnot : ¬Goes p n) :
    WokenAt p loc (n + 1) := by
  obtain ⟨hcall, hwoken, -⟩ := other_of_label hnot (h.at_loc.symm ▸ h.between)
  exact ⟨hcall.symm ▸ h.at_loc, h.between, hwoken h.woken⟩

/-- If it is runnable, it comes closer to its next poll. -/
theorem Scheduled.closer (h : Scheduled p) (loc : Loc T) :
    LeadsTo (fun n => WokenAt p loc n ∧ (p.state n).task = .runnable) fun n =>
      (p.state (n + 1)).call.loc.between = false ∨
        ∃ loc', WokenAt p loc' (n + 1) ∧ loc'.ahead < loc.ahead := by
  have hgoes : ∀ n, WokenAt p loc n → Goes p n → (p.state (n + 1)).call.loc.between = false ∨
      ∃ loc', WokenAt p loc' (n + 1) ∧ loc'.ahead < loc.ahead := by
    rintro n hwoken ⟨a, hlabel⟩
    obtain ⟨loc', s₁, hstep, heffect, hs'⟩ := thread_cases (p.next_of_label hlabel)
    obtain ⟨hnot, hless⟩ := hstep.ahead (hwoken.at_loc.symm ▸ hwoken.between)
    rw [hwoken.at_loc] at hless
    cases hbetween : loc'.between with
    | false =>
      rw [hs']
      exact .inl hbetween
    | true =>
      refine .inr ⟨loc', ⟨by rw [hs'], hbetween, ?_⟩, hless hbetween⟩
      rw [hs']
      exact (woken_of_effect heffect hnot).trans hwoken.woken
  refine .of_until (H := Goes p) (fun n hn => ?_) ?_ fun n hn => hgoes n hn.1
  · by_cases hgo : Goes p n
    · exact .inl (hgoes n hn.1 hgo)
    · obtain ⟨-, -, htask⟩ := other_of_label hgo (hn.1.at_loc.symm ▸ hn.1.between)
      exact .inr ⟨hn.1.next hgo, htask.elim (fun hsame => hsame.trans hn.2) id⟩
  · exact (LeadsTo.of_imp fun n hn => ⟨hn.1.at_loc.symm ▸ hn.1.between, hn.2⟩).trans
      (goes_iff.mpr ⟨h.goesOn, h.leavesExecutor⟩)

/-- If it is blocked, it is inside `sys_yield` and stays there. -/
theorem Scheduled.not_goes (h : Scheduled p) {n : Nat} (hblocked : (p.state n).task ≠ .runnable) :
    ¬Goes p n := by
  rintro ⟨a, hlabel⟩
  obtain ⟨loc', s₁, hstep, heffect, -⟩ := thread_cases (p.next_of_label hlabel)
  have hyield := (h.inv n).inYield hblocked
  cases hstep with
  | yield => exact hblocked (Option.ite_none_right_eq_some.mp heffect).1
  | _ hl => cases hyield.symm.trans hl

/-- If it is blocked, it becomes runnable. -/
theorem Scheduled.runnable (h : Scheduled p) (loc : Loc T) :
    LeadsTo (WokenAt p loc) fun n => WokenAt p loc n ∧ (p.state n).task = .runnable := by
  have hstays : ∀ n, WokenAt p loc n → (p.state n).task ≠ .runnable → WokenAt p loc (n + 1) ∧
      ((p.state (n + 1)).task = (p.state n).task ∨ (p.state (n + 1)).task = .runnable) := by
    intro n hn hblocked
    have hnot := h.not_goes hblocked
    exact ⟨hn.next hnot, (other_of_label hnot (hn.at_loc.symm ▸ hn.between)).2.2⟩
  intro n hn
  cases htask : (p.state n).task with
  | runnable => exact ⟨n, Nat.le_refl n, hn, htask⟩
  | blockedWithTimeout =>
    have hleads : LeadsTo (fun n => WokenAt p loc n ∧ (p.state n).task = .blockedWithTimeout)
        fun n => WokenAt p loc (n + 1) ∧ (p.state (n + 1)).task = .runnable := by
      refine .of_until (fun n hn => ?_) ((LeadsTo.of_imp fun n hn => hn.2).trans h.timer)
        fun n hn hover => absurd hn.2 hover
      obtain ⟨hwoken, htask⟩ := hstays n hn.1 (by rw [hn.2]; nofun)
      exact htask.elim (fun hsame => .inr ⟨hwoken, hsame.trans hn.2⟩)
        fun hrun => .inl ⟨hwoken, hrun⟩
    obtain ⟨m, hnm, hm⟩ := hleads n ⟨hn, htask⟩
    exact ⟨m + 1, Nat.le_succ_of_le hnm, hm⟩
  | blocked =>
    have hinv := h.inv n
    have hyield : loc = .yield := hn.at_loc.symm.trans (hinv.inYield (by rw [htask]; nofun))
    have hset : (p.state n).unparked = true :=
      hinv.remembered (by rw [hn.at_loc, hyield]; rfl) hn.woken
    obtain ⟨i, hi⟩ := hinv.blocked htask hset
    have hleads : LeadsTo (fun n => WokenAt p loc n ∧ (p.state n).task = .blocked ∧
        (p.state n).waking i = true) fun n => WokenAt p loc (n + 1) ∧
          (p.state (n + 1)).task = .runnable := by
      have hends : ∀ n, WokenAt p loc n ∧ (p.state n).task = .blocked ∧
          (p.state n).waking i = true → p.label n = some (.wakeupTask i) →
          WokenAt p loc (n + 1) ∧ (p.state (n + 1)).task = .runnable := by
        rintro n ⟨hn, hblocked, hi⟩ hlabel
        refine ⟨(hstays n hn (by rw [hblocked]; nofun)).1, ?_⟩
        have hnext : (p.state n).next (.wakeupTask i) = some (p.state (n + 1)) :=
          p.next_of_label hlabel
        obtain ⟨-, hs'⟩ := Option.ite_none_right_eq_some.mp hnext
        rw [← Option.some.inj hs']
        show (p.state n).task.wakeup = .runnable
        rw [hblocked]
        rfl
      refine .of_until (fun n hn => ?_) ((LeadsTo.of_imp fun n hn => hn.2.2).trans (h.wakesUp i))
        hends
      cases hlabel : p.label n with
      | none =>
        rw [p.state_of_label hlabel]
        exact .inr ⟨(hstays n hn.1 (by rw [hn.2.1]; nofun)).1, hn.2⟩
      | some l =>
        rcases waking_of_next (p.next_of_label hlabel) hn.2.2 with rfl | hstill
        · exact .inl (hends n hn hlabel)
        · obtain ⟨hwoken, htask⟩ := hstays n hn.1 (by rw [hn.2.1]; nofun)
          exact htask.elim (fun hsame => .inr ⟨hwoken, hsame.trans hn.2.1, hstill⟩)
            fun hrun => .inl ⟨hwoken, hrun⟩
    obtain ⟨m, hnm, hm⟩ := hleads n ⟨hn, htask, hi⟩
    exact ⟨m + 1, Nat.le_succ_of_le hnm, hm⟩

/-- **A thread that is woken comes back to its poll**, or its call ends. -/
theorem Scheduled.resumes (h : Scheduled p) :
    LeadsTo (fun n => (p.state n).woken = true) fun n => (p.state n).call.loc.between = false := by
  have hleads : LeadsTo (fun n => ∃ loc, WokenAt p loc n)
      fun n => (p.state n).call.loc.between = false := by
    refine .of_rank (fun n => (p.state n).call.loc.ahead) ?_
    rintro n ⟨loc, hn⟩
    obtain ⟨m, hnm, hm⟩ := h.runnable loc n hn
    obtain ⟨k, hmk, hk⟩ := h.closer loc m hm
    refine ⟨k + 1, by omega, hk.imp id ?_⟩
    rintro ⟨loc', hwoken, hless⟩
    refine ⟨⟨loc', hwoken⟩, ?_⟩
    show (p.state (k + 1)).call.loc.ahead < (p.state n).call.loc.ahead
    rw [hwoken.at_loc, hn.at_loc]
    exact hless
  intro n hn
  cases hbetween : (p.state n).call.loc.between with
  | false => exact ⟨n, Nat.le_refl n, hbetween⟩
  | true => exact hleads n ⟨_, rfl, hbetween, hn⟩

/-- At its poll a thread stays until it polls. -/
theorem poll_stays {n : Nat} (h : (p.state n).call.loc = .poll) :
    Polls p n ∨ (p.state (n + 1)).call.loc = .poll := by
  cases hlabel : p.label n with
  | none =>
    rw [p.state_of_label hlabel]
    exact .inr h
  | some l =>
    have hnext : (p.state n).next l = some (p.state (n + 1)) := p.next_of_label hlabel
    by_cases hthread : ∃ a, l = .thread a
    · obtain ⟨a, rfl⟩ := hthread
      obtain ⟨loc', s₁, hstep, -, -⟩ := thread_cases hnext
      cases hstep with
      | ready | pending => exact .inl ⟨_, hlabel⟩
      | _ hl => cases h.symm.trans hl
    · have hcall := (other_cases hnext (fun a ha => hthread ⟨a, ha⟩)
        fun res hl => by cases h.symm.trans hl).1
      exact .inr (hcall.symm ▸ h)

/-- **A thread that is woken polls again**, or its call ends: where it is woken in the loop of
`block_on`, and by how many threads, makes no difference. -/
theorem polls_of_woken (h : Scheduled p)
    (hpoll : LeadsTo (fun n => (p.state n).call.loc = .poll) (Polls p)) :
    LeadsTo (fun n => (p.state n).woken = true) fun n =>
      Polls p n ∨ ∃ res, (p.state n).call.loc = .ret res := by
  refine h.resumes.trans fun n hn => ?_
  replace hn : (p.state n).call.loc.between = false := hn
  cases hloc : (p.state n).call.loc with
  | poll =>
    obtain ⟨m, hnm, hm⟩ := hpoll n hloc
    exact ⟨m, hnm, .inl hm⟩
  | ret res => exact ⟨n, Nat.le_refl n, .inr ⟨res, hloc⟩⟩
  | _ =>
    rw [hloc] at hn
    cases hn

end Paths

/-! ## A run that comes to an end -/

/-- No `sys_wakeup_task` falls into the window. -/
def windowShut (s : Park Unit Unit) : Label Unit Unit → Bool
  | .wakeupTask _ =>
    match s.call.loc with
    | .block _ => false
    | _ => true
  | _ => true

theorem not_missed_of_shut {s : Park Unit Unit} {l : Label Unit Unit} (h : windowShut s l = true) :
    ¬ s.Missed l := by
  intro hmissed
  cases l with
  | wakeupTask i =>
    simp only [windowShut, hmissed.1] at h
    cases h
  | _ => exact hmissed

variable {s s' : Park Unit Unit} {labels : List (Label Unit Unit)}

/-- A run, and after it nothing. -/
def pathOfRun (hs : s.Inv) (h : (ongoing Unit Unit).runBy windowShut s labels = some s') :
    (ongoing Unit Unit).Path :=
  .ofRun hs (Machine.run_of_runBy h)

theorem pathOfRun_state (hs : s.Inv)
    (h : (ongoing Unit Unit).runBy windowShut s labels = some s') {n : Nat}
    (hn : labels.length ≤ n) : (pathOfRun hs h).state n = s' :=
  Machine.Path.ofRun_state _ _ hn

/-- Such a run is fair if the call has returned at its end, and nobody is waking the thread. -/
theorem scheduled_pathOfRun (hs : s.Inv)
    (h : (ongoing Unit Unit).runBy windowShut s labels = some s') {res : Except Unit Unit}
    (hret : s'.call.loc = .ret res) (htask : s'.task = .runnable) (hwaking : s'.waking () = false) :
    Scheduled (pathOfRun hs h) ∧
      LeadsTo (fun n => ((pathOfRun hs h).state n).call.loc = .poll) (Polls (pathOfRun hs h)) := by
  have hlast : ∀ n, labels.length ≤ n → (pathOfRun hs h).state n = s' :=
    fun n hn => pathOfRun_state hs h hn
  have hgoes : LeadsTo (fun n => ((pathOfRun hs h).state n).call.loc.between = true ∧
      ((pathOfRun hs h).state n).task = .runnable) (Goes (pathOfRun hs h)) := by
    refine LeadsTo.of_ends (m := labels.length) (fun n hn => ?_) fun n hn hbetween => ?_
    · by_cases hgo : Goes (pathOfRun hs h) n
      · exact .inl hgo
      · obtain ⟨hcall, -, htask'⟩ := other_of_label hgo hn.1
        exact .inr ⟨hcall.symm ▸ hn.1, htask'.elim (fun hsame => hsame.trans hn.2) id⟩
    · rw [hlast n hn, hret] at hbetween
      cases hbetween.1
  obtain ⟨hgoesOn, hleaves⟩ := goes_iff.mp hgoes
  refine ⟨⟨?_, hgoesOn, hleaves, ?_, ?_⟩, ?_⟩
  · exact fun n l hl => not_missed_of_shut (Machine.Path.ok_of_runBy h n l hl)
  · rintro ⟨⟩
    refine LeadsTo.of_ends (m := labels.length) (fun n hn => ?_) fun n hn hwaking' => ?_
    · cases hlabel : (pathOfRun hs h).label n with
      | none =>
        rw [Machine.Path.state_of_label _ hlabel]
        exact .inr hn
      | some l =>
        exact (waking_of_next (Machine.Path.next_of_label _ hlabel) hn).imp (congrArg some) id
    · rw [hlast n hn, hwaking] at hwaking'
      cases hwaking'
  · refine fun n _ => ⟨max n labels.length, Nat.le_max_left _ _, ?_⟩
    show ((pathOfRun hs h).state _).task ≠ .blockedWithTimeout
    rw [hlast _ (Nat.le_max_right _ _), htask]
    nofun
  · refine LeadsTo.of_ends (m := labels.length) (fun n => poll_stays) fun n hn hpoll => ?_
    rw [hlast n hn, hret] at hpoll
    cases hpoll

/-- The thread is woken when it has blocked, and the poll that follows is the last. -/
def wokenSchedule : List (Label Unit Unit) :=
  blockedSchedule ++ [.wakeupTask (), .thread .yield, .thread .store, .thread .runExecutor,
    .thread (.poll (.ready ()))]

theorem inv_entered : entered.Inv :=
  inv_init ⟨rfl, rfl, rfl⟩

theorem polls_of_woken_entered : ∃ s',
    ∃ h : (ongoing Unit Unit).runBy windowShut entered wokenSchedule = some s',
    LeadsTo (fun n => ((pathOfRun inv_entered h).state n).woken = true) fun n =>
      Polls (pathOfRun inv_entered h) n ∨
        ∃ res, ((pathOfRun inv_entered h).state n).call.loc = .ret res := by
  obtain ⟨s', h, hret, htask, hwaking⟩ : ∃ s' : Park Unit Unit,
      (ongoing Unit Unit).runBy windowShut entered wokenSchedule = some s' ∧
        s'.call.loc = .ret (.ok ()) ∧ s'.task = .runnable ∧ s'.waking () = false :=
    ⟨_, rfl, rfl, rfl, rfl⟩
  obtain ⟨hscheduled, hpoll⟩ := scheduled_pathOfRun inv_entered h hret htask hwaking
  exact ⟨s', h, polls_of_woken hscheduled hpoll⟩

end Park

end RustyHermit.Executor
