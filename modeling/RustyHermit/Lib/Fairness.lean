import RustyHermit.Lib.Executor
import RustyHermit.Lib.Path

/-!
# Progress of a task executor

The operations of an `Executor` are the steps of a machine, taken by threads in any order.

- `Executor.Fair`: a thread that has a task in its hands goes on with it, and a queue that
  is not empty is popped from.
- `Executor.Fair.polled`: under this assumption a task for which a poll is to come is polled,
  so no wake is for nothing.
-/

namespace RustyHermit

namespace Executor

/-- What can happen to an executor. -/
inductive Event (τ ι : Type) where
  | wake (r : τ)
  | pop (i : ι)
  | start (i : ι)
  | polled (i : ι)
  | finish (i : ι)
  | complete (i : ι)
deriving DecidableEq, Repr

/-- The thread in whose hands it happens. -/
def Event.thread {τ ι : Type} : Event τ ι → Option ι
  | .wake _ => none
  | .pop i | .start i | .polled i | .finish i | .complete i => some i

def Event.pops {τ ι : Type} : Event τ ι → Bool
  | .pop _ => true
  | _ => false

variable {τ ι : Type} [DecidableEq τ] [DecidableEq ι]

def apply (e : Executor τ ι) : Event τ ι → Option (Executor τ ι)
  | .wake r => some (e.wake r)
  | .pop i => e.pop i
  | .start i => e.start i
  | .polled i => e.polled i
  | .finish i => e.finish i
  | .complete i => e.complete i

/-- All threads, from any state that keeps the protocol. -/
def machine (τ ι : Type) [DecidableEq τ] [DecidableEq ι] :
    Machine (Executor τ ι) (Event τ ι) where
  init := WF
  next := apply

/-! ## What an event does -/

variable {e e' : Executor τ ι} {ev : Event τ ι}

theorem WF.apply (h : e.WF) (hev : e.apply ev = some e') : e'.WF := by
  cases ev with
  | wake r =>
    cases hev
    exact h.wake r
  | pop i => exact h.pop hev
  | start i => exact h.start hev
  | polled i => exact h.polled hev
  | finish i => exact h.finish hev
  | complete i => exact h.complete hev

theorem Reachable.wf (h : (machine τ ι).Reachable e) : e.WF :=
  h.invariant (I := WF) (fun _ hinit => hinit) fun _ _ _ hwf hev => hwf.apply hev

/-- What thread `i` has in its hands, before and after what it does. -/
inductive Hands (i : ι) : Hold τ → Event τ ι → Hold τ → Prop where
  | pop (r : τ) : Hands i .nothing (.pop i) (.popped r)
  | start (r : τ) : Hands i (.popped r) (.start i) (.polling r)
  | polled (r : τ) : Hands i (.polling r) (.polled i) (.polled r)
  | complete (r : τ) : Hands i (.polling r) (.complete i) .nothing
  | finish (r : τ) : Hands i (.polled r) (.finish i) .nothing

theorem hands_of_apply {i : ι} (h : e.apply ev = some e') (hi : ev.thread = some i) :
    Hands i (e.hold i) ev (e'.hold i) := by
  cases ev with
  | wake r => cases hi
  | pop j =>
    cases hi
    simp only [apply, pop] at h
    split at h <;> cases h
    rename_i r queue hhold _
    rw [hhold]
    dsimp only
    rw [Function.update_self]
    exact .pop r
  | start j | polled j | complete j | finish j =>
    cases hi
    simp only [apply, start, Executor.polled, complete, finish] at h
    split at h <;> cases h
    rename_i r hhold
    rw [hhold]
    dsimp only
    rw [Function.update_self]
    constructor

/-- What a thread has in its hands, nobody else takes away. -/
theorem hold_of_apply {i : ι} (h : e.apply ev = some e') (hi : ev.thread ≠ some i) :
    e'.hold i = e.hold i := by
  cases ev with
  | wake r =>
    cases h
    exact congrFun (wake_hold e r) i
  | pop j =>
    simp only [apply, pop] at h
    split at h <;> cases h
    exact Function.update_of_ne (fun hij => hi (congrArg some hij.symm)) ..
  | start j | polled j | complete j | finish j =>
    simp only [apply, start, Executor.polled, complete, finish] at h
    split at h <;> cases h
    exact Function.update_of_ne (fun hij => hi (congrArg some hij.symm)) ..

/-- What a thread has in its hands stays there, if it does nothing. -/
theorem hold_of_wait {i : ι} {ev : Option (Event τ ι)} (h : (machine τ ι).wait e ev = some e')
    (hi : ∀ a, ev = some a → a.thread ≠ some i) : e'.hold i = e.hold i := by
  cases ev with
  | none => rw [Option.some.inj h]
  | some a => exact hold_of_apply h (hi a rfl)

/-- A runnable is taken from the front of the queue, or put at its end. -/
theorem queue_of_apply (h : e.apply ev = some e') :
    (∃ i r, ev = .pop i ∧ e.queue = r :: e'.queue ∧ e'.hold i = .popped r) ∨
      (ev.pops = false ∧ ∃ rs, e'.queue = e.queue ++ rs) := by
  cases ev with
  | wake r =>
    cases h
    refine .inr ⟨rfl, ?_⟩
    rw [wake]
    split
    · exact ⟨[], (List.append_nil _).symm⟩
    · dsimp only
      split
      · exact ⟨[], (List.append_nil _).symm⟩
      · exact ⟨[r], rfl⟩
  | pop i =>
    simp only [apply, pop] at h
    split at h <;> cases h
    rename_i r queue _ hqueue
    exact .inl ⟨i, r, rfl, hqueue, Function.update_self ..⟩
  | finish i =>
    simp only [apply, finish] at h
    split at h <;> cases h
    refine .inr ⟨rfl, ?_⟩
    dsimp only
    split
    · exact ⟨[_], rfl⟩
    · exact ⟨[], (List.append_nil _).symm⟩
  | start i | polled i | complete i =>
    simp only [apply, start, Executor.polled, complete] at h
    split at h <;> cases h
    exact .inr ⟨rfl, [], (List.append_nil _).symm⟩

/-- A poll that is to come is still to come, or this is the poll. -/
theorem armed_of_apply {r : τ} (ha : e.Armed r) (h : e.apply ev = some e') :
    e'.Armed r ∨ ∃ i, e.hold i = .polling r ∧ (ev = .polled i ∨ ev = .complete i) := by
  cases ev with
  | wake r' =>
    cases h
    exact .inl (ha.wake r')
  | pop i => exact .inl (ha.pop h)
  | start i => exact .inl (ha.start h)
  | finish i => exact .inl (ha.finish h)
  | polled i =>
    by_cases hi : e.hold i = .polling r
    · exact .inr ⟨i, hi, .inl rfl⟩
    · exact .inl (ha.polled hi h)
  | complete i =>
    by_cases hi : e.hold i = .polling r
    · exact .inr ⟨i, hi, .inr rfl⟩
    · obtain ⟨r', hr'⟩ : ∃ r', e.hold i = .polling r' := by
        have hhands := hands_of_apply h rfl
        generalize e.hold i = x at hhands
        generalize e'.hold i = y at hhands
        cases hhands with
        | complete r' => exact ⟨r', rfl⟩
      exact .inl (ha.complete hr' (fun hr => hi (hr ▸ hr')) h)

/-! ## Fairness -/

section Paths

variable (p : (machine τ ι).Path)

/-- Thread `i` does something with what it has in its hands. -/
def Acts (i : ι) (n : Nat) : Prop :=
  ∃ ev, p.label n = some ev ∧ ev.thread = some i

/-- The future of `r` is polled. -/
def Polls (r : τ) (n : Nat) : Prop :=
  ∃ i, (p.state n).hold i = .polling r ∧
    (p.label n = some (.polled i) ∨ p.label n = some (.complete i))

/-- Tasks are worked on. -/
structure Fair : Prop where
  /-- a thread that has a task in its hands goes on with it -/
  goesOn : ∀ i, LeadsTo (fun n => (p.state n).hold i ≠ .nothing) (Acts p i)
  /-- somebody takes what is queued -/
  pops : LeadsTo (fun n => (p.state n).queue ≠ []) fun n => ∃ i, p.label n = some (.pop i)

variable {p}

/-- What a thread has in its hands is there until it does something. -/
theorem hold_stays (i : ι) (n : Nat) :
    Acts p i n ∨ (p.state (n + 1)).hold i = (p.state n).hold i := by
  by_cases hacts : Acts p i n
  · exact .inl hacts
  · exact .inr (hold_of_wait (p.step n) fun ev hlabel hi => hacts ⟨ev, hlabel, hi⟩)

/-- A thread with `x` in its hands comes to what it does next. -/
theorem Fair.hands (h : Fair p) {i : ι} {x : Hold τ} (hx : x ≠ .nothing) {Q : Nat → Prop}
    (hQ : ∀ n ev, (p.state n).hold i = x → p.label n = some ev →
      Hands i x ev ((p.state (n + 1)).hold i) → Q n) :
    LeadsTo (fun n => (p.state n).hold i = x) Q := by
  have hacts : ∀ n, (p.state n).hold i = x → Acts p i n → Q n := by
    rintro n hn ⟨ev, hlabel, hi⟩
    have hhands := hands_of_apply (p.next_of_label hlabel) hi
    rw [hn] at hhands
    exact hQ n ev hn hlabel hhands
  refine .of_until (H := Acts p i) (fun n hn => ?_) ?_ hacts
  · rcases hold_stays (p := p) i n with hact | hsame
    · exact .inl (hacts n hn hact)
    · exact .inr (hsame.trans hn)
  · exact (LeadsTo.of_imp fun n (hn : (p.state n).hold i = x) => hn ▸ hx).trans (h.goesOn i)

theorem Fair.of_polling (h : Fair p) (i : ι) (r : τ) :
    LeadsTo (fun n => (p.state n).hold i = .polling r) (Polls p r) := by
  refine h.hands (fun hx => by cases hx) fun n ev hn hlabel hhands => ⟨i, hn, ?_⟩
  generalize (p.state (n + 1)).hold i = y at hhands
  cases hhands with
  | polled => exact .inl hlabel
  | complete => exact .inr hlabel

theorem Fair.of_popped (h : Fair p) (i : ι) (r : τ) :
    LeadsTo (fun n => (p.state n).hold i = .popped r) (Polls p r) := by
  refine LeadsTo.trans (Q := fun n => (p.state (n + 1)).hold i = .polling r)
    (h.hands (fun hx => by cases hx) fun n ev hn hlabel hhands => ?_) (h.of_polling i r).of_next
  generalize (p.state (n + 1)).hold i = y at hhands ⊢
  cases hhands with
  | start => rfl

/-- With `k` runnables before it. -/
def QueuedAt (p : (machine τ ι).Path) (r : τ) (k n : Nat) : Prop :=
  ∃ before after, (p.state n).queue = before ++ r :: after ∧ before.length = k

/-- As long as nobody pops, a runnable stays at its place. -/
theorem queuedAt_stays {r : τ} {k n : Nat} (h : QueuedAt p r k n) :
    (∃ i, p.label n = some (.pop i)) ∨ QueuedAt p r k (n + 1) := by
  obtain ⟨before, after, hqueue, hlength⟩ := h
  cases hlabel : p.label n with
  | none => exact .inr ⟨before, after, by rw [p.state_of_label hlabel, hqueue], hlength⟩
  | some ev =>
    rcases queue_of_apply (p.next_of_label hlabel) with ⟨i, r', rfl, -, -⟩ | ⟨-, rs, hq⟩
    · exact .inl ⟨i, rfl⟩
    · rw [hqueue, List.append_assoc, List.cons_append] at hq
      exact .inr ⟨before, after ++ rs, hq, hlength⟩

/-- A pop takes the runnable, or one that is before it. -/
theorem queuedAt_pop {r : τ} {k n : Nat} {i : ι} (h : QueuedAt p r k n)
    (hpop : p.label n = some (.pop i)) :
    (∃ i, (p.state (n + 1)).hold i = .popped r) ∨ ∃ k' < k, QueuedAt p r k' (n + 1) := by
  obtain ⟨before, after, hqueue, rfl⟩ := h
  rcases queue_of_apply (p.next_of_label hpop) with ⟨j, r', -, hq, hhold⟩ | ⟨hnot, -⟩
  · cases before with
    | nil =>
      rw [hqueue, List.nil_append] at hq
      cases hq
      exact .inl ⟨j, hhold⟩
    | cons r'' before =>
      rw [hqueue, List.cons_append] at hq
      refine .inr ⟨before.length, Nat.lt_succ_self _, before, after, ?_, rfl⟩
      exact (List.cons.inj hq).2.symm
  · cases hnot

theorem Fair.of_queuedAt (h : Fair p) (r : τ) (k : Nat) :
    LeadsTo (QueuedAt p r k) (Polls p r) := by
  induction k using Nat.strongRecOn with
  | ind k ih =>
    have hpopped : LeadsTo (QueuedAt p r k) fun n =>
        (∃ i, (p.state (n + 1)).hold i = .popped r) ∨ ∃ k' < k, QueuedAt p r k' (n + 1) := by
      refine .of_until (H := fun n => ∃ i, p.label n = some (.pop i)) (fun n hn => ?_) ?_ ?_
      · rcases queuedAt_stays hn with ⟨i, hpop⟩ | hstays
        · exact .inl (queuedAt_pop hn hpop)
        · exact .inr hstays
      · refine (LeadsTo.of_imp ?_).trans h.pops
        rintro n ⟨before, after, hqueue, -⟩
        rw [hqueue]
        exact List.append_ne_nil_of_right_ne_nil _ (List.cons_ne_nil _ _)
      · rintro n hn ⟨i, hpop⟩
        exact queuedAt_pop hn hpop
    refine hpopped.trans fun n hn => ?_
    rcases hn with ⟨i, hi⟩ | ⟨k', hless, hk'⟩
    · exact (h.of_popped i r).of_next n hi
    · exact (ih k' hless).of_next n hk'

theorem Fair.of_queued (h : Fair p) (r : τ) :
    LeadsTo (fun n => r ∈ (p.state n).queue) (Polls p r) := by
  intro n hn
  obtain ⟨before, after, hqueue⟩ := List.append_of_mem hn
  exact h.of_queuedAt r before.length n ⟨before, after, hqueue, rfl⟩

/-- A running task that was woken is polled again. -/
theorem Fair.of_polled (h : Fair p) (i : ι) (r : τ) :
    LeadsTo (fun n => (p.state n).hold i = .polled r ∧ (p.state n).Armed r) (Polls p r) := by
  have hwf : ∀ n, (p.state n).WF := fun n => Reachable.wf (p.reachable n)
  -- until thread `i` is done with it, and then it is queued
  have hacts : ∀ n, (p.state n).hold i = .polled r ∧ (p.state n).Armed r → Acts p i n →
      r ∈ (p.state (n + 1)).queue := by
    rintro n ⟨hhold, harmed⟩ ⟨ev, hlabel, hi⟩
    have hev : (p.state n).apply ev = some (p.state (n + 1)) := p.next_of_label hlabel
    have hhands := hands_of_apply hev hi
    rw [hhold] at hhands
    generalize (p.state (n + 1)).hold i = y at hhands
    cases hhands with
    | finish =>
      have hscheduled : ((p.state n).task r).scheduled = true := by
        rcases harmed with hs | ⟨j, hj⟩
        · exact hs
        · have hij := (hwf n).unique i j r (by rw [hhold]; rfl) (by rw [hj]; rfl)
          rw [← hij, hhold] at hj
          cases hj
      simp only [apply, finish, hhold, hscheduled, if_true, Option.some.injEq] at hev
      rw [← hev]
      exact List.mem_append_right _ (List.mem_singleton.mpr rfl)
  have hqueued : LeadsTo (fun n => (p.state n).hold i = .polled r ∧ (p.state n).Armed r)
      fun n => Polls p r n ∨ r ∈ (p.state (n + 1)).queue := by
    refine .of_until (H := Acts p i) (fun n hn => ?_) ?_ fun n hn hact => .inr (hacts n hn hact)
    · rcases hold_stays (p := p) i n with hact | hsame
      · exact .inl (.inr (hacts n hn hact))
      · cases hlabel : p.label n with
        | none => exact .inr (by rw [p.state_of_label hlabel]; exact hn)
        | some ev =>
          rcases armed_of_apply hn.2 (p.next_of_label hlabel) with harmed | ⟨j, hj, hpolls⟩
          · exact .inr ⟨hsame.trans hn.1, harmed⟩
          · refine .inl (.inl ⟨j, hj, ?_⟩)
            rcases hpolls with rfl | rfl
            · exact .inl hlabel
            · exact .inr hlabel
    · refine (LeadsTo.of_imp ?_).trans (h.goesOn i)
      rintro n ⟨hhold, -⟩
      rw [hhold]
      exact fun hx => by cases hx
  exact hqueued.trans ((LeadsTo.of_imp fun _ => id).or (h.of_queued r).of_next)

/-- **No wake is for nothing**: a task for which a poll is to come is polled. -/
theorem Fair.polled (h : Fair p) (r : τ) :
    LeadsTo (fun n => (p.state n).Armed r) (Polls p r) := by
  intro n harmed
  have hwf := Reachable.wf (p.reachable n)
  rcases hwf.armed_cases harmed with hq | ⟨i, hi | hi⟩ | ⟨hrun, -⟩
  · exact h.of_queued r n hq
  · exact h.of_popped i r n hi
  · exact h.of_polling i r n hi
  · obtain ⟨i, hi | hi⟩ := hwf.busy r hrun
    · exact h.of_polling i r n hi
    · exact h.of_polled i r n ⟨hi, harmed⟩

end Paths

end Executor

end RustyHermit
