import RustyHermit.Lib.Bits
import Mathlib.Algebra.BigOperators.Fin
import Mathlib.Data.Matrix.Mul
import Mathlib.Logic.Equiv.Fin.Basic
import Mathlib.Tactic.Abel

/-!
# Matrices in Z-order

A `2 ^ k` by `2 ^ k` matrix in Z-order is a list of its `4 ^ k` entries, in which
entry `(i, j)` stands at the interleaving of `i` and `j`. The four quarters of the
list are then the four quarters of the matrix, in Z-order.

- `ZOrder k a A`: the list `a` holds the matrix `A`, and no other list does
  (`ZOrder.unique`).
- `quarter_mul`: the product in terms of quarters.
- `zorder_append`: a list in terms of its quarters.
- `strassen₁₁` to `strassen₂₂`: seven products are enough for the four quarters.
-/

namespace RustyHermit

universe u

open Matrix

/-- The matrices whose rows and columns have `k` binary digits. -/
abbrev BinaryMatrix (k : Nat) (R : Type u) : Type u :=
  Matrix (Fin (2 ^ k)) (Fin (2 ^ k)) R

/-! ## Quarters of a matrix -/

/-- A row number is its highest digit and the rest. -/
def highDigit (k : Nat) : Fin 2 × Fin (2 ^ k) ≃ Fin (2 ^ (k + 1)) :=
  finProdFinEquiv.trans (finCongr (Nat.pow_succ' (n := k) (m := 2)).symm)

theorem highDigit_val (k : Nat) (r : Fin 2) (i : Fin (2 ^ k)) :
    (highDigit k (r, i) : Nat) = r * 2 ^ k + i := by
  show (i : Nat) + 2 ^ k * r = r * 2 ^ k + i
  ring

variable {R : Type u} {k : Nat}

/-- The quarter whose rows begin with `r` and whose columns begin with `c`. -/
def quarter (A : BinaryMatrix (k + 1) R) (r c : Fin 2) : BinaryMatrix k R :=
  A.submatrix (fun i => highDigit k (r, i)) (fun j => highDigit k (c, j))

theorem quarter_mul [NonUnitalNonAssocSemiring R] (A B : BinaryMatrix (k + 1) R) (r c : Fin 2) :
    quarter (A * B) r c
      = quarter A r 0 * quarter B 0 c + quarter A r 1 * quarter B 1 c := by
  ext i j
  let i' := highDigit k (r, i)
  let j' := highDigit k (c, j)
  calc
    (A * B) i' j' = ∑ t, A i' t * B t j' := Matrix.mul_apply
    _ = ∑ p : Fin 2 × Fin (2 ^ k), A i' (highDigit k p) * B (highDigit k p) j' :=
      ((highDigit k).sum_comp fun t => A i' t * B t j').symm
    _ = ∑ d : Fin 2, (quarter A r d * quarter B d c) i j := Fintype.sum_prod_type _
    _ = (quarter A r 0 * quarter B 0 c + quarter A r 1 * quarter B 1 c) i j :=
      Fin.sum_univ_two _

/-! ## The layout -/

/-- The list `a` holds the matrix `A` in Z-order. -/
structure ZOrder (k : Nat) (a : List R) (A : BinaryMatrix k R) : Prop where
  length : a.length = 4 ^ k
  entry : ∀ i j : Fin (2 ^ k), a[zindex i j]? = some (A i j)

/-- Only one list holds a given matrix. -/
theorem ZOrder.unique {a b : List R} {A : BinaryMatrix k R} (ha : ZOrder k a A)
    (hb : ZOrder k b A) : a = b := by
  refine List.ext_getElem? fun n => ?_
  rcases Nat.lt_or_ge n (4 ^ k) with hn | hn
  · obtain ⟨i, j, hi, hj, rfl⟩ := exists_zindex hn
    exact (ha.entry ⟨i, hi⟩ ⟨j, hj⟩).trans (hb.entry ⟨i, hi⟩ ⟨j, hj⟩).symm
  · rw [List.getElem?_eq_none (ha.length ▸ hn), List.getElem?_eq_none (hb.length ▸ hn)]

/-- Any operation on the entries is one on the list. -/
theorem ZOrder.zipWith (f : R → R → R) {a b : List R} {A B : BinaryMatrix k R}
    (ha : ZOrder k a A) (hb : ZOrder k b B) :
    ZOrder k (List.zipWith f a b) (fun i j => f (A i j) (B i j)) where
  length := by rw [List.length_zipWith, ha.length, hb.length, Nat.min_self]
  entry i j := by rw [List.getElem?_zipWith, ha.entry i j, hb.entry i j]

section Quarters

variable {a₁ a₂ a₃ a₄ : List R}

/-- The four quarters of a list. -/
def chunk (a₁ a₂ a₃ a₄ : List R) : Fin 2 → Fin 2 → List R
  | 0, 0 => a₁
  | 0, 1 => a₂
  | 1, 0 => a₃
  | 1, 1 => a₄

theorem getElem?_append_chunk {n m : Nat} (h₁ : a₁.length = m) (h₂ : a₂.length = m)
    (h₃ : a₃.length = m) (hn : n < m) (r c : Fin 2) :
    ((a₁ ++ a₂) ++ (a₃ ++ a₄))[(2 * (r : Nat) + c) * m + n]? = (chunk a₁ a₂ a₃ a₄ r c)[n]? := by
  have h₁₂ : (a₁ ++ a₂).length = 2 * m := by
    rw [List.length_append]
    omega
  match r, c with
  | 0, 0 =>
    show ((a₁ ++ a₂) ++ (a₃ ++ a₄))[(2 * 0 + 0) * m + n]? = a₁[n]?
    rw [List.getElem?_append_left (by omega), List.getElem?_append_left (by omega)]
    congr 1
    omega
  | 0, 1 =>
    show ((a₁ ++ a₂) ++ (a₃ ++ a₄))[(2 * 0 + 1) * m + n]? = a₂[n]?
    rw [List.getElem?_append_left (by omega), List.getElem?_append_right (by omega)]
    congr 1
    omega
  | 1, 0 =>
    show ((a₁ ++ a₂) ++ (a₃ ++ a₄))[(2 * 1 + 0) * m + n]? = a₃[n]?
    rw [List.getElem?_append_right (by omega), List.getElem?_append_left (by omega)]
    congr 1
    omega
  | 1, 1 =>
    show ((a₁ ++ a₂) ++ (a₃ ++ a₄))[(2 * 1 + 1) * m + n]? = a₄[n]?
    rw [List.getElem?_append_right (by omega), List.getElem?_append_right (by omega)]
    congr 1
    omega

/-- **A list holds a matrix if its quarters hold the quarters.** -/
theorem zorder_append {A : BinaryMatrix (k + 1) R} (h₁ : a₁.length = 4 ^ k)
    (h₂ : a₂.length = 4 ^ k) (h₃ : a₃.length = 4 ^ k) (h₄ : a₄.length = 4 ^ k) :
    ZOrder (k + 1) ((a₁ ++ a₂) ++ (a₃ ++ a₄)) A
      ↔ ∀ r c, ZOrder k (chunk a₁ a₂ a₃ a₄ r c) (quarter A r c) := by
  have hchunk : ∀ r c, (chunk a₁ a₂ a₃ a₄ r c).length = 4 ^ k := by
    intro r c
    match r, c with
    | 0, 0 => exact h₁
    | 0, 1 => exact h₂
    | 1, 0 => exact h₃
    | 1, 1 => exact h₄
  have hlength : ((a₁ ++ a₂) ++ (a₃ ++ a₄)).length = 4 ^ (k + 1) := by
    rw [List.length_append, List.length_append, List.length_append, h₁, h₂, h₃, h₄, Nat.pow_succ]
    omega
  have hindex : ∀ (r c : Fin 2) (i j : Fin (2 ^ k)),
      ((a₁ ++ a₂) ++ (a₃ ++ a₄))[zindex (highDigit k (r, i)) (highDigit k (c, j))]?
        = (chunk a₁ a₂ a₃ a₄ r c)[zindex i j]? := by
    intro r c i j
    rw [highDigit_val, highDigit_val, zindex_block k i.isLt j.isLt r.isLt c.isLt]
    exact getElem?_append_chunk h₁ h₂ h₃ (zindex_lt i.isLt j.isLt) r c
  constructor
  · intro h r c
    refine ⟨hchunk r c, fun i j => ?_⟩
    rw [← hindex r c i j]
    exact h.entry _ _
  · intro h
    refine ⟨hlength, fun i j => ?_⟩
    obtain ⟨⟨r, i⟩, rfl⟩ := (highDigit k).surjective i
    obtain ⟨⟨c, j⟩, rfl⟩ := (highDigit k).surjective j
    rw [hindex r c i j]
    exact (h r c).entry i j

end Quarters

/-! ## Seven products -/

section Strassen

variable {S : Type u} [NonUnitalNonAssocRing S] (a₁₁ a₁₂ a₂₁ a₂₂ b₁₁ b₁₂ b₂₁ b₂₂ : S)

theorem strassen₁₁ :
    (a₁₁ + a₂₂) * (b₁₁ + b₂₂) + a₂₂ * (b₂₁ - b₁₁) + (a₁₂ - a₂₂) * (b₂₁ + b₂₂)
      - (a₁₁ + a₁₂) * b₂₂ = a₁₁ * b₁₁ + a₁₂ * b₂₁ := by
  simp only [add_mul, mul_add, sub_mul, mul_sub]
  abel

theorem strassen₁₂ : a₁₁ * (b₁₂ - b₂₂) + (a₁₁ + a₁₂) * b₂₂ = a₁₁ * b₁₂ + a₁₂ * b₂₂ := by
  simp only [add_mul, mul_sub]
  abel

theorem strassen₂₁ : (a₂₁ + a₂₂) * b₁₁ + a₂₂ * (b₂₁ - b₁₁) = a₂₁ * b₁₁ + a₂₂ * b₂₁ := by
  simp only [add_mul, mul_sub]
  abel

theorem strassen₂₂ :
    (a₁₁ + a₂₂) * (b₁₁ + b₂₂) + a₁₁ * (b₁₂ - b₂₂) + (a₂₁ - a₁₁) * (b₁₁ + b₁₂)
      - (a₂₁ + a₂₂) * b₁₁ = a₂₁ * b₁₂ + a₂₂ * b₂₂ := by
  simp only [add_mul, mul_add, sub_mul, mul_sub]
  abel

end Strassen

end RustyHermit
