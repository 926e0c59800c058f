import Mathlib.Order.Basic

/-!
# Iterators

An iterator is a state and a function `next` that gives an element or `none`,
and the state it leaves. Nothing is assumed about a call after `none`.

- `Iterator.Enumerates next s l`: the calls from `s` on give the elements of `l`
  in their order, and `none` ever after.
- `enumerates_of_invariant`: the induction over the calls.
- `Enumerates.forLoop`: a `for` loop over the iterator ends, and folds `l`.
-/

namespace RustyHermit

namespace Iterator

universe u v w

variable {σ : Type u} {α : Type v} {β : Type w} (next : σ → Option α × σ)

/-- The state after `n` calls. -/
def after (s : σ) : Nat → σ
  | 0 => s
  | n + 1 => (next (after s n)).2

/-- What call number `n` returns, counted from 0. -/
def call (s : σ) (n : Nat) : Option α :=
  (next (after next s n)).1

/-- The calls give the elements of `l`, and then `none`. -/
def Enumerates (s : σ) (l : List α) : Prop :=
  ∀ n, call next s n = l[n]?

/-- `for x in iterator`: the body may fail, and the loop may run out of fuel. -/
def forLoop (body : β → α → Option β) : Nat → σ → β → Option β
  | 0, _, _ => none
  | fuel + 1, s, acc =>
    match next s with
    | (none, _) => some acc
    | (some x, s') => (body acc x).bind (forLoop body fuel s')

variable {next} {s : σ} {l : List α}

theorem after_next (s : σ) (n : Nat) : after next (next s).2 n = after next s (n + 1) := by
  induction n with
  | zero => rfl
  | succ n ih =>
    show (next (after next (next s).2 n)).2 = (next (after next s (n + 1))).2
    rw [ih]

/-- **Induction over the calls**: `I n` holds after `n` of them, up to the end. -/
theorem enumerates_of_invariant {I : Nat → σ → Prop} (hinit : I 0 s)
    (hstep : ∀ n s x, l[n]? = some x → I n s → (next s).1 = some x ∧ I (n + 1) (next s).2)
    (hend : ∀ s, I l.length s → (next s).1 = none ∧ I l.length (next s).2) :
    Enumerates next s l := by
  have hinv : ∀ n, I (min n l.length) (after next s n) := by
    intro n
    induction n with
    | zero =>
      rw [Nat.zero_min]
      exact hinit
    | succ n ih =>
      rcases Nat.lt_or_ge n l.length with hn | hn
      · rw [Nat.min_eq_left (Nat.le_of_lt hn)] at ih
        rw [Nat.min_eq_left hn]
        exact (hstep n _ _ (List.getElem?_eq_getElem hn) ih).2
      · rw [Nat.min_eq_right hn] at ih
        rw [Nat.min_eq_right (Nat.le_succ_of_le hn)]
        exact (hend _ ih).2
  intro n
  have hn := hinv n
  rcases Nat.lt_or_ge n l.length with hlt | hge
  · rw [Nat.min_eq_left (Nat.le_of_lt hlt)] at hn
    rw [List.getElem?_eq_getElem hlt]
    exact (hstep n _ _ (List.getElem?_eq_getElem hlt) hn).1
  · rw [Nat.min_eq_right hge] at hn
    rw [List.getElem?_eq_none hge]
    exact (hend _ hn).1

/-- The calls after the first one. -/
theorem Enumerates.tail {x : α} (h : Enumerates next s (x :: l)) :
    Enumerates next (next s).2 l := by
  intro n
  have hn := h (n + 1)
  rw [List.getElem?_cons_succ] at hn
  show (next (after next (next s).2 n)).1 = l[n]?
  rw [after_next]
  exact hn

/-- A `for` loop with fuel for every element and the last call folds them. -/
theorem Enumerates.forLoop (h : Enumerates next s l) (body : β → α → Option β) {fuel : Nat}
    (hfuel : l.length < fuel) (acc : β) :
    forLoop next body fuel s acc = l.foldlM body acc := by
  induction l generalizing s fuel acc with
  | nil =>
    obtain ⟨fuel, rfl⟩ := Nat.exists_eq_add_one.mpr hfuel
    have hnone : (next s).1 = none := h 0
    rw [Iterator.forLoop]
    split
    · rfl
    · rename_i hsome
      rw [hsome] at hnone
      cases hnone
  | cons x l ih =>
    obtain ⟨fuel, rfl⟩ := Nat.exists_eq_add_one.mpr (Nat.zero_lt_of_lt hfuel)
    have hx : (next s).1 = some x := h 0
    have hrest : l.length < fuel := Nat.lt_of_succ_lt_succ hfuel
    rw [Iterator.forLoop, List.foldlM_cons]
    split
    · rename_i hnone
      rw [hnone] at hx
      cases hx
    · rename_i y s' hsome
      rw [hsome] at hx
      have htail := h.tail
      rw [hsome] at htail
      cases hx
      exact congrArg (body acc x).bind (funext fun acc' => ih htail hrest acc')

end Iterator

end RustyHermit
