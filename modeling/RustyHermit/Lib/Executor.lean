import Mathlib.Logic.Function.Basic
import Mathlib.Data.List.Nodup
import RustyHermit.Lib.Machine

/-!
# The scheduling protocol of a task executor

Any number of threads drain one FIFO of runnables. A task keeps two bits:
`scheduled` (woken, and not started since) and `running` (a thread is inside
its poll). Waking a task sets `scheduled`, and makes a runnable of it only if
it is neither scheduled nor running; a thread pops a runnable, starts it
(`scheduled` off, `running` on), polls the task's future, and finishes:
`running` goes off, and a task that was woken meanwhile is put back. A task
whose future is ready is completed and never scheduled again.

- `Executor.WF` is the protocol's invariant: the runnables and the running
  polls of a task are never duplicated (`unique`, `nodup`), and a scheduled or
  running task is never lost (`token`, `busy`). Every operation keeps it:
  `WF.wake` for a wake, and `WF.of_localStep`, the frame rule, for what a thread
  does to the task in its hands.
- `Executor.Armed e r`: a poll of `r` that has not begun yet is going to come.
  Waking a task arms it (`armed_wake`), nothing but the beginning of that poll
  disarms it, and `WF.armed_cases` says where the poll is waiting.
-/

namespace RustyHermit

/-- The bits of a task. -/
structure TaskState where
  scheduled : Bool
  running : Bool
  completed : Bool
deriving DecidableEq, Repr

namespace TaskState

/-- A task nobody has woken yet. -/
def idle : TaskState := ⟨false, false, false⟩

/-- A runnable of the task exists. -/
def Pending (t : TaskState) : Prop :=
  t.scheduled = true ∧ t.running = false

end TaskState

/-- What a thread has in its hands. -/
inductive Hold (τ : Type) where
  | nothing
  /-- a runnable it has popped -/
  | popped (r : τ)
  /-- a started task, whose future it is about to poll -/
  | polling (r : τ)
  /-- a started task, whose future was pending -/
  | polled (r : τ)
deriving DecidableEq, Repr

namespace Hold

variable {τ : Type}

/-- The task in the thread's hands. -/
def task : Hold τ → Option τ
  | .nothing => none
  | .popped r | .polling r | .polled r => some r

/-- The thread has started `r` and not finished it. -/
def Active (h : Hold τ) (r : τ) : Prop :=
  h = .polling r ∨ h = .polled r

theorem Active.task {h : Hold τ} {r : τ} (ha : h.Active r) : h.task = some r := by
  rcases ha with rfl | rfl <;> rfl

end Hold

/-- The queue, the bits of every task, and the hands of every thread. -/
structure Executor (τ ι : Type) where
  queue : List τ
  task : τ → TaskState
  hold : ι → Hold τ

namespace Executor

variable {τ ι : Type}

section Operations

variable [DecidableEq τ] [DecidableEq ι]

/-- Wake a task: a scheduled or completed one is left alone, a running one is
marked, any other one is queued. -/
def wake (e : Executor τ ι) (r : τ) : Executor τ ι :=
  let t := e.task r
  if t.scheduled || t.completed then e
  else { e with
    queue := if t.running then e.queue else e.queue ++ [r]
    task := Function.update e.task r { t with scheduled := true } }

/-- A thread with empty hands takes the first runnable. -/
def pop (e : Executor τ ι) (i : ι) : Option (Executor τ ι) :=
  match e.hold i, e.queue with
  | .nothing, r :: queue =>
    some { e with queue, hold := Function.update e.hold i (.popped r) }
  | _, _ => none

/-- The thread starts the runnable it has popped. -/
def start (e : Executor τ ι) (i : ι) : Option (Executor τ ι) :=
  match e.hold i with
  | .popped r => some { e with
      task := Function.update e.task r
        { e.task r with scheduled := false, running := true }
      hold := Function.update e.hold i (.polling r) }
  | _ => none

/-- The future of the task the thread has started was pending. -/
def polled (e : Executor τ ι) (i : ι) : Option (Executor τ ι) :=
  match e.hold i with
  | .polling r => some { e with hold := Function.update e.hold i (.polled r) }
  | _ => none

/-- The thread gives the task back; if it was woken meanwhile it is queued. -/
def finish (e : Executor τ ι) (i : ι) : Option (Executor τ ι) :=
  match e.hold i with
  | .polled r => some
      { queue := if (e.task r).scheduled then e.queue ++ [r] else e.queue
        task := Function.update e.task r { e.task r with running := false }
        hold := Function.update e.hold i .nothing }
  | _ => none

/-- The future of the task the thread has started was ready. -/
def complete (e : Executor τ ι) (i : ι) : Option (Executor τ ι) :=
  match e.hold i with
  | .polling r => some { e with
      task := Function.update e.task r ⟨false, false, true⟩
      hold := Function.update e.hold i .nothing }
  | _ => none

end Operations

/-! ## The invariant -/

/-- The invariant of the protocol. -/
structure WF (e : Executor τ ι) : Prop where
  /-- no two runnables of one task are queued -/
  nodup : e.queue.Nodup
  queued : ∀ r ∈ e.queue, (e.task r).Pending
  popped : ∀ i r, e.hold i = .popped r → (e.task r).Pending ∧ r ∉ e.queue
  active : ∀ i r, (e.hold i).Active r → (e.task r).running = true
  /-- no two threads have the same task in their hands -/
  unique : ∀ i j r, (e.hold i).task = some r → (e.hold j).task = some r → i = j
  /-- the runnable of a task that has one is queued or in a thread's hands -/
  token : ∀ r, (e.task r).Pending → r ∈ e.queue ∨ ∃ i, e.hold i = .popped r
  /-- a running task is run by a thread -/
  busy : ∀ r, (e.task r).running = true → ∃ i, (e.hold i).Active r

namespace WF

/-- An executor all of whose tasks are idle. -/
theorem idle : WF (τ := τ) (ι := ι) ⟨[], fun _ => .idle, fun _ => .nothing⟩ where
  nodup := List.nodup_nil
  queued := nofun
  popped := nofun
  active i r h := by rcases h with h | h <;> cases h
  unique := nofun
  token r h := by cases h.1
  busy r h := by cases h

/-- The task in a thread's hands is not queued. -/
theorem not_queued {e : Executor τ ι} (h : e.WF) {i : ι} {r : τ}
    (hi : (e.hold i).task = some r) : r ∉ e.queue := by
  intro hr
  cases hh : e.hold i with
  | nothing =>
    rw [hh] at hi
    cases hi
  | popped r' =>
    rw [hh] at hi
    cases hi
    exact (h.popped i r hh).2 hr
  | polling r' | polled r' =>
    rw [hh] at hi
    cases hi
    have hrun := h.active i r (by rw [hh]; simp [Hold.Active])
    rw [(h.queued r hr).2] at hrun
    cases hrun

/-- Waking makes one runnable of a task that has none and is not running. -/
theorem wake [DecidableEq τ] {e : Executor τ ι} (h : e.WF) (r : τ) :
    (e.wake r).WF := by
  simp only [Executor.wake]
  split
  case isTrue => exact h
  case isFalse hidle =>
    have hs : (e.task r).scheduled = false := by
      simp only [Bool.or_eq_true, not_or, Bool.not_eq_true] at hidle
      exact hidle.1
    have hpending : ¬(e.task r).Pending := fun hp => by
      rw [hp.1] at hs
      cases hs
    have hq : r ∉ e.queue := fun hr => hpending (h.queued r hr)
    have hmem : ∀ r', r' ∈ (if (e.task r).running then e.queue else e.queue ++ [r]) ↔
        r' ∈ e.queue ∨ (r' = r ∧ (e.task r).running = false) := by
      intro r'
      cases (e.task r).running <;> simp
    have hother : ∀ {r'} {t : TaskState}, r' ≠ r →
        Function.update e.task r t r' = e.task r' := fun hne => Function.update_of_ne hne ..
    constructor
    all_goals dsimp only
    case nodup =>
      split
      · exact h.nodup
      · exact List.concat_eq_append ▸ h.nodup.concat hq
    case queued =>
      intro r' hr'
      rcases (hmem r').mp hr' with hr' | ⟨rfl, hrun⟩
      · rw [hother fun heq => hq (heq ▸ hr')]
        exact h.queued r' hr'
      · rw [Function.update_self]
        exact ⟨rfl, hrun⟩
    case popped =>
      intro i r' hi
      obtain ⟨hp, hnot⟩ := h.popped i r' hi
      have hne : r' ≠ r := fun heq => hpending (heq ▸ hp)
      rw [hother hne]
      exact ⟨hp, fun hr' => ((hmem r').mp hr').elim hnot fun hand => hne hand.1⟩
    case active =>
      intro i r' hi
      by_cases heq : r' = r
      · rw [heq, Function.update_self]
        exact heq ▸ h.active i r' hi
      · rw [hother heq]
        exact h.active i r' hi
    case unique => exact h.unique
    case token =>
      intro r' hp
      by_cases heq : r' = r
      · rw [heq, Function.update_self] at hp
        exact .inl ((hmem r').mpr (.inr ⟨heq, hp.2⟩))
      · rw [hother heq] at hp
        exact (h.token r' hp).imp_left fun hr' => (hmem r').mpr (.inl hr')
    case busy =>
      intro r' hrun
      by_cases heq : r' = r
      · rw [heq, Function.update_self] at hrun
        exact heq ▸ h.busy r hrun
      · rw [hother heq] at hrun
        exact h.busy r' hrun

end WF

/-! ### Operations of a thread -/

/-- Thread `i` operates on the task `r` and has `x` in its hands afterwards:
other tasks and the hands of other threads are as before. -/
structure LocalStep [DecidableEq ι] (e e' : Executor τ ι) (i : ι) (r : τ)
    (x : Hold τ) : Prop where
  task : ∀ r', r' ≠ r → e'.task r' = e.task r'
  queue : ∀ r', r' ≠ r → (r' ∈ e'.queue ↔ r' ∈ e.queue)
  hold : e'.hold = Function.update e.hold i x
  before : ∀ r', (e.hold i).task = some r' → r' = r
  after : ∀ r', x.task = some r' → r' = r

/-- What the invariant says of the task `r` if only one thread may have it, and
that thread has `x` in its hands. -/
structure WFAt (e : Executor τ ι) (r : τ) (x : Hold τ) : Prop where
  queued : r ∈ e.queue → (e.task r).Pending
  popped : x = .popped r → (e.task r).Pending ∧ r ∉ e.queue
  active : x.Active r → (e.task r).running = true
  token : (e.task r).Pending → r ∈ e.queue ∨ x = .popped r
  busy : (e.task r).running = true → x.Active r

namespace WFAt

variable {e : Executor τ ι} {r : τ}

theorem of_popped (hp : (e.task r).Pending) (hr : r ∉ e.queue) :
    e.WFAt r (.popped r) where
  queued _ := hp
  popped _ := ⟨hp, hr⟩
  active ha := by rcases ha with ha | ha <;> cases ha
  token _ := .inr rfl
  busy hrun := by
    rw [hp.2] at hrun
    cases hrun

theorem of_active {x : Hold τ} (hx : x.Active r) (hrun : (e.task r).running = true)
    (hr : r ∉ e.queue) : e.WFAt r x where
  queued hq := absurd hq hr
  popped hp := by
    rw [hp] at hx
    rcases hx with hx | hx <;> cases hx
  active _ := hrun
  token hp := by
    rw [hp.2] at hrun
    cases hrun
  busy _ := hx

theorem of_nothing (hrun : (e.task r).running = false)
    (hr : r ∈ e.queue ↔ (e.task r).scheduled = true) : e.WFAt r .nothing where
  queued hq := ⟨hr.mp hq, hrun⟩
  popped hp := by cases hp
  active ha := by rcases ha with ha | ha <;> cases ha
  token hp := .inl (hr.mpr hp.1)
  busy hb := by
    rw [hrun] at hb
    cases hb

end WFAt

namespace WF

variable [DecidableEq ι]

/-- **Frame rule**: an operation of a thread on a task that no other thread has
keeps the invariant if it keeps it at that task. -/
theorem of_localStep {e e' : Executor τ ι} {i : ι} {r : τ} {x : Hold τ} (h : e.WF)
    (hlocal : e.LocalStep e' i r x) (honly : ∀ j, j ≠ i → (e.hold j).task ≠ some r)
    (hnodup : e'.queue.Nodup) (hr : e'.WFAt r x) : e'.WF := by
  have hself : e'.hold i = x := by rw [hlocal.hold, Function.update_self]
  have hother : ∀ {j}, j ≠ i → e'.hold j = e.hold j := fun hj => by
    rw [hlocal.hold, Function.update_of_ne hj]
  -- a thread with another task in its hands is another thread, and conversely
  have htask : ∀ {j r'}, j ≠ i → (e.hold j).task = some r' → r' ≠ r := by
    rintro j r' hj ht rfl
    exact honly j hj ht
  have hthread : ∀ {j r'}, r' ≠ r → (e.hold j).task = some r' → j ≠ i := by
    rintro j r' hr' ht rfl
    exact hr' (hlocal.before r' ht)
  constructor
  case nodup => exact hnodup
  case queued =>
    intro r' hr'
    by_cases heq : r' = r
    · rw [heq] at hr' ⊢
      exact hr.queued hr'
    · rw [hlocal.task r' heq]
      exact h.queued r' ((hlocal.queue r' heq).mp hr')
  case popped =>
    intro j r' hj
    by_cases hji : j = i
    · rw [hji, hself] at hj
      obtain rfl := hlocal.after r' (by rw [hj]; rfl)
      exact hr.popped hj
    · rw [hother hji] at hj
      have hne := htask hji (by rw [hj]; rfl)
      rw [hlocal.task r' hne, hlocal.queue r' hne]
      exact h.popped j r' hj
  case active =>
    intro j r' hj
    by_cases hji : j = i
    · rw [hji, hself] at hj
      obtain rfl := hlocal.after r' hj.task
      exact hr.active hj
    · rw [hother hji] at hj
      rw [hlocal.task r' (htask hji hj.task)]
      exact h.active j r' hj
  case unique =>
    intro j k r' hj hk
    by_cases hji : j = i <;> by_cases hki : k = i
    · rw [hji, hki]
    · rw [hji, hself] at hj
      rw [hother hki] at hk
      exact absurd (hlocal.after r' hj) (htask hki hk)
    · rw [hki, hself] at hk
      rw [hother hji] at hj
      exact absurd (hlocal.after r' hk) (htask hji hj)
    · rw [hother hji] at hj
      rw [hother hki] at hk
      exact h.unique j k r' hj hk
  case token =>
    intro r' hp
    by_cases heq : r' = r
    · rw [heq] at hp ⊢
      exact (hr.token hp).imp_right fun hx => ⟨i, hself.trans hx⟩
    · rw [hlocal.task r' heq] at hp
      rcases h.token r' hp with hq | ⟨j, hj⟩
      · exact .inl ((hlocal.queue r' heq).mpr hq)
      · exact .inr ⟨j, (hother (hthread heq (by rw [hj]; rfl))).trans hj⟩
  case busy =>
    intro r' hrun
    by_cases heq : r' = r
    · rw [heq] at hrun ⊢
      exact ⟨i, hself ▸ hr.busy hrun⟩
    · rw [hlocal.task r' heq] at hrun
      obtain ⟨j, hj⟩ := h.busy r' hrun
      exact ⟨j, by rw [hother (hthread heq hj.task)]; exact hj⟩

omit [DecidableEq ι] in
/-- Nobody else has the task in a thread's hands. -/
theorem only {e : Executor τ ι} (h : e.WF) {i : ι} {r : τ}
    (hi : (e.hold i).task = some r) (j : ι) (hj : j ≠ i) : (e.hold j).task ≠ some r :=
  fun ht => hj (h.unique j i r ht hi)

/-- Popping moves the runnable from the queue into the thread's hands. -/
theorem pop {e e' : Executor τ ι} (h : e.WF) {i : ι} (hp : e.pop i = some e') :
    e'.WF := by
  simp only [Executor.pop] at hp
  split at hp <;> cases hp
  rename_i r queue hi hq
  have hmem : r ∈ e.queue := by
    rw [hq]
    exact List.mem_cons_self
  obtain ⟨hr, hnodup⟩ := List.nodup_cons.mp (hq ▸ h.nodup)
  refine h.of_localStep (i := i) ?_ (fun j _ hj => h.not_queued hj hmem) hnodup
    (.of_popped (h.queued r hmem) hr)
  exact {
    task := fun _ _ => rfl
    queue := fun r' hne => by rw [hq, List.mem_cons, or_iff_right hne]
    hold := rfl
    before := by
      rw [hi]
      nofun
    after := by
      rintro _ ⟨⟩
      rfl }

/-- A pending poll leaves the task in the thread's hands. -/
theorem polled {e e' : Executor τ ι} (h : e.WF) {i : ι}
    (hp : e.polled i = some e') : e'.WF := by
  simp only [Executor.polled] at hp
  split at hp <;> cases hp
  rename_i r hi
  have hhold : (e.hold i).task = some r := by
    rw [hi]
    rfl
  refine h.of_localStep (i := i) ?_ (h.only hhold) h.nodup
    (.of_active (.inr rfl) (h.active i r (.inl hi)) (h.not_queued hhold))
  exact {
    task := fun _ _ => rfl
    queue := fun _ _ => Iff.rfl
    hold := rfl
    before := by
      rw [hi]
      rintro _ ⟨⟩
      rfl
    after := by
      rintro _ ⟨⟩
      rfl }

variable [DecidableEq τ]

/-- Starting turns the popped runnable into a running poll. -/
theorem start {e e' : Executor τ ι} (h : e.WF) {i : ι}
    (hp : e.start i = some e') : e'.WF := by
  simp only [Executor.start] at hp
  split at hp <;> cases hp
  rename_i r hi
  have hhold : (e.hold i).task = some r := by
    rw [hi]
    rfl
  refine h.of_localStep (i := i) ?_ (h.only hhold) h.nodup
    (.of_active (.inl rfl) ?_ (h.not_queued hhold))
  · exact {
      task := fun r' hne => Function.update_of_ne hne ..
      queue := fun _ _ => Iff.rfl
      hold := rfl
      before := by
        rw [hi]
        rintro _ ⟨⟩
        rfl
      after := by
        rintro _ ⟨⟩
        rfl }
  · show (Function.update e.task r _ r).running = true
    rw [Function.update_self]

/-- Finishing ends the running poll; a task woken meanwhile gets a runnable. -/
theorem finish {e e' : Executor τ ι} (h : e.WF) {i : ι}
    (hp : e.finish i = some e') : e'.WF := by
  simp only [Executor.finish] at hp
  split at hp <;> cases hp
  rename_i r hi
  have hhold : (e.hold i).task = some r := by
    rw [hi]
    rfl
  have hq : r ∉ e.queue := h.not_queued hhold
  have hnodup : (e.queue ++ [r]).Nodup := List.concat_eq_append ▸ h.nodup.concat hq
  refine h.of_localStep (i := i) (r := r) ?_ (h.only hhold) ?_ (.of_nothing ?_ ?_)
  · exact {
      task := fun r' hne => Function.update_of_ne hne ..
      queue := fun r' hne => by split <;> simp [hne]
      hold := rfl
      before := by
        rw [hi]
        rintro _ ⟨⟩
        rfl
      after := nofun }
  · show (if (e.task r).scheduled then e.queue ++ [r] else e.queue).Nodup
    split
    · exact hnodup
    · exact h.nodup
  · show (Function.update e.task r _ r).running = false
    rw [Function.update_self]
  · show r ∈ (if (e.task r).scheduled then e.queue ++ [r] else e.queue) ↔
      (Function.update e.task r _ r).scheduled = true
    rw [Function.update_self]
    cases (e.task r).scheduled <;> simp [hq]

/-- Completing ends the running poll for good. -/
theorem complete {e e' : Executor τ ι} (h : e.WF) {i : ι}
    (hp : e.complete i = some e') : e'.WF := by
  simp only [Executor.complete] at hp
  split at hp <;> cases hp
  rename_i r hi
  have hhold : (e.hold i).task = some r := by
    rw [hi]
    rfl
  refine h.of_localStep (i := i) (r := r) ?_ (h.only hhold) h.nodup (.of_nothing ?_ ?_)
  · exact {
      task := fun r' hne => Function.update_of_ne hne ..
      queue := fun _ _ => Iff.rfl
      hold := rfl
      before := by
        rw [hi]
        rintro _ ⟨⟩
        rfl
      after := nofun }
  · show (Function.update e.task r _ r).running = false
    rw [Function.update_self]
  · show r ∈ e.queue ↔ (Function.update e.task r _ r).scheduled = true
    rw [Function.update_self]
    exact iff_of_false (h.not_queued hhold) nofun

end WF

/-! ## A poll to come -/

/-- A poll of `r` is to come: `r` was woken and not started since, or it was
started and its future is about to be polled. -/
def Armed (e : Executor τ ι) (r : τ) : Prop :=
  (e.task r).scheduled = true ∨ ∃ i, e.hold i = .polling r

/-- Where the poll to come is waiting: in the queue, in the hands of a thread
that has not begun it, or in the mark on a running task. -/
theorem WF.armed_cases {e : Executor τ ι} (h : e.WF) {r : τ} (ha : e.Armed r) :
    r ∈ e.queue ∨ (∃ i, e.hold i = .popped r ∨ e.hold i = .polling r) ∨
      ((e.task r).running = true ∧ (e.task r).scheduled = true) := by
  rcases ha with hs | ⟨i, hi⟩
  · cases hrun : (e.task r).running with
    | true => exact .inr (.inr ⟨rfl, hs⟩)
    | false =>
      rcases h.token r ⟨hs, hrun⟩ with hq | ⟨i, hi⟩
      · exact .inl hq
      · exact .inr (.inl ⟨i, .inl hi⟩)
  · exact .inr (.inl ⟨i, .inr hi⟩)

section Waking

variable [DecidableEq τ]

@[simp] theorem wake_hold (e : Executor τ ι) (r : τ) : (e.wake r).hold = e.hold := by
  simp only [wake]
  split <;> rfl

@[simp] theorem wake_completed (e : Executor τ ι) (r r' : τ) :
    ((e.wake r).task r').completed = (e.task r').completed := by
  simp only [wake]
  split
  · rfl
  · exact update_keeps TaskState.completed (by rfl) r'

/-- Waking sets the bit `scheduled` of its own task and no other. -/
theorem wake_scheduled (e : Executor τ ι) (r r' : τ) :
    ((e.wake r).task r').scheduled = true ↔ (e.task r').scheduled = true ∨
      (r' = r ∧ (e.task r).completed = false) := by
  simp only [wake]
  split
  case isTrue h =>
    refine (or_iff_left_of_imp ?_).symm
    rintro ⟨rfl, hcompleted⟩
    simpa only [hcompleted, Bool.or_false] using h
  case isFalse h =>
    simp only [Bool.or_eq_true, not_or, Bool.not_eq_true] at h
    show (Function.update e.task r _ r').scheduled = true ↔ _
    by_cases heq : r' = r
    · rw [heq, Function.update_self]
      exact iff_of_true rfl (.inr ⟨rfl, h.2⟩)
    · rw [Function.update_of_ne heq]
      exact (or_iff_left fun hand => heq hand.1).symm

/-- Waking a task that is not completed arms it. -/
theorem armed_wake {e : Executor τ ι} {r : τ} (h : (e.task r).completed = false) :
    (e.wake r).Armed r :=
  .inl ((wake_scheduled e r r).mpr (.inr ⟨rfl, h⟩))

/-- No wake disarms a task. -/
theorem Armed.wake {e : Executor τ ι} {r : τ} (h : e.Armed r) (r' : τ) :
    (e.wake r').Armed r := by
  rcases h with hs | ⟨i, hi⟩
  · exact .inl ((wake_scheduled e r' r).mpr (.inl hs))
  · exact .inr ⟨i, by rw [wake_hold]; exact hi⟩

end Waking

section Running

variable [DecidableEq ι] {e e' : Executor τ ι} {i : ι} {r : τ}

/-- A thread that is not about to poll `r` may change what it has in its hands. -/
theorem Armed.of_update {x : Hold τ} (h : e.Armed r)
    (hhold : e'.hold = Function.update e.hold i x) (hi : e.hold i ≠ .polling r)
    (hs : (e.task r).scheduled = true → (e'.task r).scheduled = true) : e'.Armed r := by
  rcases h with h | ⟨j, hj⟩
  · exact .inl (hs h)
  · refine .inr ⟨j, ?_⟩
    rw [hhold, Function.update_of_ne, hj]
    rintro rfl
    exact hi hj

theorem Armed.pop (h : e.Armed r) (hp : e.pop i = some e') : e'.Armed r := by
  simp only [Executor.pop] at hp
  split at hp <;> cases hp
  rename_i _ _ hi _
  exact h.of_update rfl (by rw [hi]; nofun) id

/-- Only a poll of `r` itself disarms `r`. -/
theorem Armed.polled (h : e.Armed r) (hi : e.hold i ≠ .polling r)
    (hp : e.polled i = some e') : e'.Armed r := by
  simp only [Executor.polled] at hp
  split at hp <;> cases hp
  exact h.of_update rfl hi id

variable [DecidableEq τ]

theorem Armed.start (h : e.Armed r) (hp : e.start i = some e') : e'.Armed r := by
  simp only [Executor.start] at hp
  split at hp <;> cases hp
  rename_i r' hi
  by_cases hr : r = r'
  · -- from the runnable in the thread's hands to the poll it is about to make
    exact .inr ⟨i, by rw [hr]; exact Function.update_self ..⟩
  · refine h.of_update rfl (by rw [hi]; nofun) fun hs => ?_
    show (Function.update e.task r' _ r).scheduled = true
    rw [Function.update_of_ne hr]
    exact hs

theorem Armed.finish (h : e.Armed r) (hp : e.finish i = some e') : e'.Armed r := by
  simp only [Executor.finish] at hp
  split at hp <;> cases hp
  rename_i r' hi
  refine h.of_update rfl (by rw [hi]; nofun) fun hs => ?_
  exact (update_keeps TaskState.scheduled (by rfl) r).trans hs

theorem Armed.complete (h : e.Armed r) {r' : τ} (hi : e.hold i = .polling r')
    (hr : r' ≠ r) (hp : e.complete i = some e') : e'.Armed r := by
  simp only [Executor.complete, hi] at hp
  cases hp
  refine h.of_update rfl ?_ fun hs => ?_
  · rw [hi]
    rintro ⟨⟩
    exact hr rfl
  · show (Function.update e.task r' _ r).scheduled = true
    rw [Function.update_of_ne hr.symm]
    exact hs

/-! Which operations complete a task. -/

omit [DecidableEq τ] in
theorem pop_task (hp : e.pop i = some e') : e'.task = e.task := by
  simp only [Executor.pop] at hp
  split at hp <;> cases hp
  rfl

omit [DecidableEq τ] in
theorem polled_task (hp : e.polled i = some e') : e'.task = e.task := by
  simp only [Executor.polled] at hp
  split at hp <;> cases hp
  rfl

theorem start_completed (hp : e.start i = some e') (r : τ) :
    (e'.task r).completed = (e.task r).completed := by
  simp only [Executor.start] at hp
  split at hp <;> cases hp
  exact update_keeps TaskState.completed (by rfl) r

theorem finish_completed (hp : e.finish i = some e') (r : τ) :
    (e'.task r).completed = (e.task r).completed := by
  simp only [Executor.finish] at hp
  split at hp <;> cases hp
  exact update_keeps TaskState.completed (by rfl) r

theorem complete_completed {r r' : τ} (hi : e.hold i = .polling r') (hr : r' ≠ r)
    (hp : e.complete i = some e') :
    (e'.task r).completed = (e.task r).completed := by
  simp only [Executor.complete, hi] at hp
  cases hp
  show (Function.update e.task r' _ r).completed = _
  rw [Function.update_of_ne hr.symm]

end Running

end Executor

end RustyHermit
