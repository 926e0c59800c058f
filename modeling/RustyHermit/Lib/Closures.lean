import Mathlib.Algebra.BigOperators.Group.Finset.Basic
import Mathlib.Data.List.Nodup
import Mathlib.Logic.Function.Basic

/-!
# Calls that take closures

A function that takes a closure runs in parts: up to the call of its closure, and on
from there once the closure has returned. In between the closure may do anything, and
enter more such calls.

- `Code` is the text of such a function. It makes calls `c : C`, answered in `A c` by
  somebody else, and runs its closure on a `B`.
- `Calls` has all that have been entered. The ones whose closures run are on a stack, and
  each has a trace of what it has done. `enter` and `resume` are the two steps.
- `Code.Meets` says what a text leaves behind, each time it runs its closure and when it
  returns, whatever it is answered. If all texts meet this, all traces do (`inv_enter`,
  `inv_resume`).
-/

namespace RustyHermit

universe u

/-- The text of a function that takes a closure of type `B → R` and returns an `R`. -/
inductive Code (C : Type u) (A : C → Type u) (B R : Type u) where
  | ret (r : R)
  | closure (b : B) (k : R → Code C A B R)
  | call (c : C) (k : A c → Code C A B R)

/-- What a function does, as far as others can see it. -/
inductive CodeEvent (C : Type u) (A : C → Type u) (R : Type u) where
  | called (c : C) (a : A c)
  | returned (r : R)

/-- `returned`. -/
def CodeEvent.isReturned {C : Type u} {A : C → Type u} {R : Type u} : CodeEvent C A R → Bool
  | .called .. => false
  | .returned _ => true

namespace Code

variable {C : Type u} {A : C → Type u} {B R : Type u}

/-- Runs up to the closure, if one is called, or else to the end. -/
def run (answer : ∀ c, A c) :
    Code C A B R → List (CodeEvent C A R) × Option (R → Code C A B R)
  | .ret r => ([.returned r], none)
  | .closure _ k => ([], some k)
  | .call c k =>
    let rest := (k (answer c)).run answer
    (.called c (answer c) :: rest.1, rest.2)

/-- After the trace `tr`, the code leaves an `opened` trace whenever its closure is
called and a `closed` one when it returns, if its calls get `allowed` answers. -/
def Meets (allowed : ∀ c, A c → Prop) (opened closed : List (CodeEvent C A R) → Prop) :
    Code C A B R → List (CodeEvent C A R) → Prop
  | .ret r, tr => closed (tr ++ [.returned r])
  | .closure _ k, tr => opened tr ∧ ∀ r, (k r).Meets allowed opened closed tr
  | .call c k, tr =>
    ∀ a, allowed c a → (k a).Meets allowed opened closed (tr ++ [.called c a])

variable {allowed : ∀ c, A c → Prop} {opened closed : List (CodeEvent C A R) → Prop}
  {answer : ∀ c, A c} {code : Code C A B R} {tr : List (CodeEvent C A R)}
  {k : R → Code C A B R}

theorem Meets.run_closed (h : code.Meets allowed opened closed tr)
    (hanswer : ∀ c, allowed c (answer c)) (hrun : (code.run answer).2 = none) :
    closed (tr ++ (code.run answer).1) := by
  induction code generalizing tr with
  | ret r => exact h
  | closure b k => cases hrun
  | call c k ih =>
    have hrest := ih (answer c) (h (answer c) (hanswer c)) hrun
    rw [← List.append_cons] at hrest
    exact hrest

theorem Meets.run_opened (h : code.Meets allowed opened closed tr)
    (hanswer : ∀ c, allowed c (answer c)) (hrun : (code.run answer).2 = some k) :
    opened (tr ++ (code.run answer).1) ∧
      ∀ r, (k r).Meets allowed opened closed (tr ++ (code.run answer).1) := by
  induction code generalizing tr with
  | ret r => cases hrun
  | closure b k' =>
    cases hrun
    have htr : tr ++ ((closure b k : Code C A B R).run answer).1 = tr := List.append_nil tr
    rw [htr]
    exact h
  | call c k' ih =>
    have hrest := ih (answer c) (h (answer c) (hanswer c)) hrun
    rw [← List.append_cons] at hrest
    exact hrest

end Code

/-! ## All calls -/

/-- The calls that have been entered, with arguments `X`. -/
structure Calls (X : Type u) (C : Type u) (A : C → Type u) (B R : Type u) where
  /-- what they were entered with, in order: the number of a call is its place here -/
  args : List X
  /-- the calls whose closures run, the innermost first, and how they go on -/
  stack : List (Nat × (R → Code C A B R))
  trace : Nat → List (CodeEvent C A R)

namespace Calls

variable {X C : Type u} {A : C → Type u} {B R : Type u}

/-- Nothing has been called. -/
def none : Calls X C A B R :=
  { args := [], stack := [], trace := fun _ => [] }

/-- Call number `n` goes on with `code`, until it calls its closure or returns. -/
def advance (n : Nat) (code : Code C A B R) (answer : ∀ c, A c) (s : Calls X C A B R) :
    Calls X C A B R :=
  let part := code.run answer
  { s with stack := (part.2.map fun k => (n, k)).toList ++ s.stack
           trace := Function.update s.trace n (s.trace n ++ part.1) }

/-- A function is called. -/
def enter (x : X) (code : Code C A B R) (answer : Nat → ∀ c, A c) (s : Calls X C A B R) :
    Calls X C A B R :=
  advance s.args.length code (answer s.args.length) { s with args := s.args ++ [x] }

/-- The innermost closure returns. -/
def resume (r : R) (answer : Nat → ∀ c, A c) (s : Calls X C A B R) :
    Option (Calls X C A B R) :=
  match s.stack with
  | [] => .none
  | (n, k) :: stack => some (advance n (k r) (answer n) { s with stack })

/-- How many events there are in all traces. -/
def total (p : CodeEvent C A R → Bool) (s : Calls X C A B R) : Nat :=
  ∑ n ∈ Finset.range s.args.length, (s.trace n).countP p

/-- The call has returned. -/
def returned (s : Calls X C A B R) (n : Nat) : Bool :=
  (s.trace n).any CodeEvent.isReturned

/-! ## What all traces meet -/

/-- What is asked of the traces of a call with some argument and number. -/
structure Spec (X C : Type u) (A : C → Type u) (R : Type u) where
  allowed : Nat → ∀ c, A c → Prop
  /-- while its closure runs -/
  opened : X → Nat → List (CodeEvent C A R) → Prop
  /-- once it has returned -/
  closed : X → Nat → List (CodeEvent C A R) → Prop

/-- The code of call number `n` meets what is asked. -/
def Spec.Met (spec : Spec X C A R) (x : X) (n : Nat) (code : Code C A B R)
    (tr : List (CodeEvent C A R)) : Prop :=
  code.Meets (spec.allowed n) (spec.opened x n) (spec.closed x n) tr

/-- All traces meet what is asked, where the calls in `busy` have yet to go on. -/
structure InvBut (spec : Spec X C A R) (busy : List Nat) (s : Calls X C A B R) : Prop where
  nodup : (busy ++ s.stack.map Prod.fst).Nodup
  opened : ∀ n k, (n, k) ∈ s.stack → ∃ x, s.args[n]? = some x ∧ spec.opened x n (s.trace n) ∧
    ∀ r, spec.Met x n (k r) (s.trace n)
  closed : ∀ n x, s.args[n]? = some x → n ∉ busy ++ s.stack.map Prod.fst →
    spec.closed x n (s.trace n)
  fresh : ∀ n, s.args.length ≤ n → s.trace n = []

/-- All traces meet what is asked. -/
abbrev Inv (spec : Spec X C A R) (s : Calls X C A B R) : Prop :=
  InvBut spec [] s

variable {spec : Spec X C A R} {s s' : Calls X C A B R} {n : Nat} {x : X} {code : Code C A B R}
  {answer : Nat → ∀ c, A c} {r : R}

theorem inv_none : Inv spec (none : Calls X C A B R) where
  nodup := List.nodup_nil
  opened n k h := by cases h
  closed n x h := by cases h
  fresh n _ := rfl

theorem inv_advance (h : InvBut spec [n] s) (hx : s.args[n]? = some x)
    (hcode : spec.Met x n code (s.trace n)) (hanswer : ∀ c, spec.allowed n c (answer n c)) :
    Inv spec (s.advance n code (answer n)) := by
  have htrace : ∀ m, m ≠ n → (s.advance n code (answer n)).trace m = s.trace m := fun m hm =>
    Function.update_of_ne hm ..
  have htrace_self : (s.advance n code (answer n)).trace n
      = s.trace n ++ (code.run (answer n)).1 := Function.update_self ..
  have hbusy : n ∉ s.stack.map Prod.fst := (List.nodup_cons.mp h.nodup).1
  have hnodup : (s.stack.map Prod.fst).Nodup := (List.nodup_cons.mp h.nodup).2
  have hfresh : ∀ m, s.args.length ≤ m → (s.advance n code (answer n)).trace m = [] := by
    intro m hm
    have hlt : n < s.args.length := (List.getElem?_eq_some_iff.mp hx).1
    rw [htrace m (by omega)]
    exact h.fresh m hm
  have hopened : ∀ m k, (m, k) ∈ s.stack → ∃ y, s.args[m]? = some y ∧
      spec.opened y m ((s.advance n code (answer n)).trace m) ∧
      ∀ r, spec.Met y m (k r) ((s.advance n code (answer n)).trace m) := by
    intro m k hmem
    have hm : m ≠ n := fun heq => hbusy (heq ▸ List.mem_map_of_mem hmem)
    rw [htrace m hm]
    exact h.opened m k hmem
  have hclosed : ∀ m y, s.args[m]? = some y → m ∉ n :: s.stack.map Prod.fst →
      spec.closed y m ((s.advance n code (answer n)).trace m) := by
    intro m y hy hm
    rw [htrace m fun heq => hm (heq ▸ List.mem_cons_self)]
    exact h.closed m y hy hm
  cases hpart : (code.run (answer n)).2 with
  | none =>
    have hstack : (s.advance n code (answer n)).stack = s.stack := by
      simp only [advance, hpart, Option.map_none, Option.toList_none, List.nil_append]
    refine ⟨?_, ?_, fun m y hy hm => ?_, hfresh⟩
    · rw [hstack]
      exact hnodup
    · rw [hstack]
      exact hopened
    · rw [hstack] at hm
      by_cases heq : m = n
      · subst heq
        cases hx.symm.trans hy
        rw [htrace_self]
        exact hcode.run_closed hanswer hpart
      · exact hclosed m y hy (List.not_mem_cons_of_ne_of_not_mem heq hm)
  | some k =>
    have hstack : (s.advance n code (answer n)).stack = (n, k) :: s.stack := by
      simp only [advance, hpart, Option.map_some, Option.toList_some, List.singleton_append]
    refine ⟨?_, fun m k' hmem => ?_, fun m y hy hm => ?_, hfresh⟩
    · rw [hstack]
      exact h.nodup
    · rw [hstack] at hmem
      rcases List.mem_cons.mp hmem with heq | hmem
      · cases heq
        refine ⟨x, hx, ?_⟩
        rw [htrace_self]
        exact hcode.run_opened hanswer hpart
      · exact hopened m k' hmem
    · rw [hstack] at hm
      exact hclosed m y hy hm

/-- The arguments of a call, one more being entered. -/
theorem args_concat {args : List X} {y : X} (h : (args ++ [x])[n]? = some y) :
    args[n]? = some y ∨ n = args.length ∧ y = x := by
  obtain ⟨hlt, hy⟩ := List.getElem?_eq_some_iff.mp h
  rw [List.length_append, List.length_singleton] at hlt
  by_cases hn : n < args.length
  · exact .inl ((List.getElem?_append_left hn).symm.trans h)
  · obtain rfl : n = args.length := by omega
    exact .inr ⟨rfl, Option.some.inj (h.symm.trans List.getElem?_concat_length)⟩

/-- **A call is entered.** -/
theorem inv_enter (h : Inv spec s) (hcode : spec.Met x s.args.length code [])
    (hanswer : ∀ n c, spec.allowed n c (answer n c)) : Inv spec (s.enter x code answer) := by
  have hnotin : s.args.length ∉ s.stack.map Prod.fst := by
    intro hmem
    obtain ⟨⟨m, k⟩, hp, hm⟩ := List.mem_map.mp hmem
    obtain ⟨y, hy, -⟩ := h.opened m k hp
    have hlt : m < s.args.length := (List.getElem?_eq_some_iff.mp hy).1
    exact absurd hm (Nat.ne_of_lt hlt)
  refine inv_advance (x := x) ⟨List.nodup_cons.mpr ⟨hnotin, h.nodup⟩, fun m k hp => ?_,
    fun m y hy hm => ?_, fun m hm => h.fresh m ?_⟩ List.getElem?_concat_length ?_ (hanswer _)
  · obtain ⟨y, hy, hrest⟩ := h.opened m k hp
    have hlt : m < s.args.length := (List.getElem?_eq_some_iff.mp hy).1
    exact ⟨y, (List.getElem?_append_left hlt).trans hy, hrest⟩
  · obtain ⟨hne, hnotin⟩ := List.ne_and_not_mem_of_not_mem_cons hm
    rcases args_concat hy with hold | ⟨heq, -⟩
    · exact h.closed m y hold hnotin
    · exact absurd heq hne
  · have hlen : (s.args ++ [x]).length ≤ m := hm
    rw [List.length_append] at hlen
    omega
  · show spec.Met x s.args.length code (s.trace s.args.length)
    rw [h.fresh _ (Nat.le_refl _)]
    exact hcode

/-- **A closure returns.** -/
theorem inv_resume (h : Inv spec s) (hanswer : ∀ n c, spec.allowed n c (answer n c))
    (hs' : s.resume r answer = some s') : Inv spec s' := by
  unfold resume at hs'
  split at hs'
  · cases hs'
  · rename_i n k stack hstack
    cases hs'
    obtain ⟨x, hx, -, hcode⟩ := h.opened n k (hstack ▸ List.mem_cons_self)
    refine inv_advance (x := x) ⟨?_, fun m k' hp => ?_, fun m y hy hm => ?_, h.fresh⟩ hx
      (hcode r) (hanswer n)
    · have hnodup := h.nodup
      rw [hstack] at hnodup
      exact hnodup
    · exact h.opened m k' (hstack ▸ List.mem_cons_of_mem _ hp)
    · refine h.closed m y hy ?_
      rw [hstack]
      exact hm

/-- The arguments stay. -/
theorem args_resume (hs' : s.resume r answer = some s') : s'.args = s.args := by
  unfold resume at hs'
  split at hs'
  · cases hs'
  · cases hs'
    rfl

/-- A call's closure runs, or it has returned. -/
theorem InvBut.opened_or_closed (h : Inv spec s) (hx : s.args[n]? = some x) :
    spec.opened x n (s.trace n) ∨ spec.closed x n (s.trace n) := by
  by_cases hmem : n ∈ s.stack.map Prod.fst
  · obtain ⟨⟨m, k⟩, hp, rfl⟩ := List.mem_map.mp hmem
    obtain ⟨y, hy, hopened, -⟩ := h.opened m k hp
    cases hx.symm.trans hy
    exact .inl hopened
  · exact .inr (h.closed n x hx hmem)

/-- Events that only one call has. -/
theorem total_eq {p : CodeEvent C A R → Bool} (hx : s.args[n]? = some x)
    (h : ∀ m y, s.args[m]? = some y → m ≠ n → (s.trace m).countP p = 0) :
    s.total p = (s.trace n).countP p := by
  refine Finset.sum_eq_single n (fun m hm hne => ?_) fun hn => ?_
  · have hlt : m < s.args.length := Finset.mem_range.mp hm
    exact h m s.args[m] (List.getElem?_eq_getElem hlt) hne
  · have hlt : n < s.args.length := (List.getElem?_eq_some_iff.mp hx).1
    exact absurd (Finset.mem_range.mpr hlt) hn

end Calls

end RustyHermit
