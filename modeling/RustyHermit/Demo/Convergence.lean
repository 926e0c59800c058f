import Mathlib.Algebra.BigOperators.Fin
import Mathlib.Tactic.FinCases
import RustyHermit.Demo.Laplace
import RustyHermit.Lib.Relaxation

/-!
# How far the Laplace solver comes (`tests/laplace.rs`, `tests/mod.rs`)

The boundary is 1, so the solution of the equation is 1 everywhere, and what a cell misses
of it is again an average of what its neighbours miss. Sweeps only lower it.

- `sweeps_approach`: what is missing after `n` sweeps, between 0 and a bound that falls by
  a factor with each sweep.
- `residual_bounded`: what `get_residual` returns falls with each sweep, and after `n` of
  them it is of the order of the number of cells over `n ^ 2`.
- `laplace_ok`: the test of the demo passes.
-/

namespace RustyHermit.Demo.Laplace

open Relaxation (relax energy Supported Symmetric)

/-- `laplace`, from the setup to the test of what is left. `vec!` panics where the bytes of a
matrix are more than `isize::MAX`; the number of its cells is a `usize` wherever they are not. -/
def laplace (sizeX sizeY : Nat) : Option (Except Unit Unit) :=
  if sizeX * sizeY * 8 < 2 ^ 63 then do
    let matrix ← matrixSetup sizeX sizeY
    let (_, res) ← compute (matrix, matrix) sizeX sizeY
    if res < 1 / 100 then some (.ok ()) else some (.error ())
  else none

/-! ## The grid -/

/-- The neighbours of a cell, in the order in which `iteration` adds them. -/
def around : Fin 4 → Nat × Nat → Nat × Nat
  | 0, (x, y) => (x - 1, y)
  | 1, (x, y) => (x + 1, y)
  | 2, (x, y) => (x, y + 1)
  | 3, (x, y) => (x, y - 1)

def opposite : Fin 4 → Fin 4
  | 0 => 1
  | 1 => 0
  | 2 => 3
  | 3 => 2

/-- The cells that are not on the boundary. -/
def inside (sizeX sizeY : Nat) : Finset (Nat × Nat) :=
  Finset.Ico 1 (sizeX - 1) ×ˢ Finset.Ico 1 (sizeY - 1)

variable {sizeX sizeY x y : Nat}

theorem mem_inside : (x, y) ∈ inside sizeX sizeY ↔ Interior sizeX sizeY x y := by
  rw [inside, Finset.mem_product, Finset.mem_Ico, Finset.mem_Ico, Interior]
  omega

theorem mean_around (f : Nat × Nat → Rat) (x y : Nat) :
    Relaxation.mean around f (x, y) = neighbours (fun x y => f (x, y)) x y := by
  rw [Relaxation.mean, Fin.sum_univ_four, neighbours, Fintype.card_fin]
  rfl

theorem symmetric_around : Symmetric (inside sizeX sizeY) around opposite where
  opp_opp := by decide
  back i := by
    rintro ⟨x, y⟩ hv -
    obtain ⟨hx, -, hy, -⟩ := mem_inside.mp hv
    fin_cases i
    · exact congrArg (·, y) (Nat.sub_add_cancel hx)
    · rfl
    · rfl
    · exact congrArg (x, ·) (Nat.sub_add_cancel hy)

/-! ## What a cell misses -/

/-- What the cells miss of 1 at the start. -/
def missing (sizeX sizeY : Nat) (v : Nat × Nat) : Rat :=
  1 - jacobi sizeX sizeY 0 v.1 v.2

theorem missing_of_mem {v : Nat × Nat} (hv : v ∈ inside sizeX sizeY) :
    missing sizeX sizeY v = 1 := by
  rw [missing, jacobi, if_pos (mem_inside.mp hv), sub_zero]

theorem supported_missing : Supported (inside sizeX sizeY) (missing sizeX sizeY) := by
  intro v hv
  rw [missing, jacobi_boundary 0 fun h => hv (mem_inside.mpr h), sub_self]

theorem missing_nonneg (v : Nat × Nat) : 0 ≤ missing sizeX sizeY v := by
  by_cases hv : v ∈ inside sizeX sizeY
  · rw [missing_of_mem hv]
    exact zero_le_one
  · rw [supported_missing v hv]

theorem missing_le_one (v : Nat × Nat) : missing sizeX sizeY v ≤ 1 := by
  by_cases hv : v ∈ inside sizeX sizeY
  · rw [missing_of_mem hv]
  · rw [supported_missing v hv]
    exact zero_le_one

/-- What the cells miss after `n` sweeps. -/
theorem one_sub_jacobi (n x y : Nat) : 1 - jacobi sizeX sizeY n x y =
    (relax (inside sizeX sizeY) around)^[n] (missing sizeX sizeY) (x, y) := by
  induction n generalizing x y with
  | zero => rfl
  | succ n ih =>
    rw [Function.iterate_succ_apply', jacobi]
    by_cases hin : Interior sizeX sizeY x y
    · rw [if_pos hin, Relaxation.relax_of_mem (mem_inside.mpr hin), mean_around, neighbours,
        neighbours, ← ih, ← ih, ← ih, ← ih]
      ring
    · have hout := mt mem_inside.mp hin
      rw [if_neg hin, Relaxation.relax_of_notMem hout, Relaxation.iterate_of_notMem hout,
        supported_missing _ hout, sub_self]

/-- The first sweep lowers it. -/
theorem relax_missing_le :
    relax (inside sizeX sizeY) around (missing sizeX sizeY) ≤ missing sizeX sizeY := by
  intro v
  by_cases hv : v ∈ inside sizeX sizeY
  · rw [missing_of_mem hv]
    exact Relaxation.iterate_le_const missing_le_one 1 v
  · rw [Relaxation.relax_of_notMem hv]

/-- Each further sweep lowers what is missing, too: the values only rise. -/
theorem jacobi_mono (x y : Nat) : Monotone fun n => jacobi sizeX sizeY n x y := by
  intro m n hmn
  have hfall : (relax (inside sizeX sizeY) around)^[n] (missing sizeX sizeY) (x, y) ≤
      (relax (inside sizeX sizeY) around)^[m] (missing sizeX sizeY) (x, y) :=
    Relaxation.antitone_iterate relax_missing_le hmn (x, y)
  rw [← one_sub_jacobi, ← one_sub_jacobi] at hfall
  exact (sub_le_sub_iff_left 1).mp hfall

theorem jacobi_le_one (n x y : Nat) : jacobi sizeX sizeY n x y ≤ 1 := by
  rw [← sub_nonneg, one_sub_jacobi]
  exact Relaxation.const_le_iterate missing_nonneg n (x, y)

/-! ### A larger one -/

/-- A parabola over each row: a sweep takes one half off it. -/
def parabola (sizeX : Nat) (v : Nat × Nat) : Rat :=
  v.1 * (sizeX - 1 - v.1 : Nat)

/-- The factor by which a sweep lowers it at least. -/
def factor (sizeX : Nat) : Rat :=
  1 - 2 / (sizeX - 1 : Nat) ^ 2

theorem mean_parabola (hin : Interior sizeX sizeY x y) :
    Relaxation.mean around (parabola sizeX) (x, y) = parabola sizeX (x, y) - 1 / 2 := by
  obtain ⟨hx, hx', -, -⟩ := hin
  obtain ⟨l, rfl⟩ := Nat.exists_eq_add_of_le' hx
  obtain ⟨r, rfl⟩ := Nat.exists_eq_add_of_lt hx'
  rw [mean_around, neighbours]
  simp only [parabola]
  have hleft : l + 1 + 1 + r + 1 - 1 - (l + 1 - 1) = r + 2 := by omega
  have hright : l + 1 + 1 + r + 1 - 1 - (l + 1 + 1) = r := by omega
  have hmid : l + 1 + 1 + r + 1 - 1 - (l + 1) = r + 1 := by omega
  rw [hleft, hright, hmid, Nat.add_sub_cancel]
  push_cast
  ring

theorem parabola_le (sizeX : Nat) (v : Nat × Nat) :
    4 * parabola sizeX v ≤ ((sizeX - 1 : Nat) : Rat) ^ 2 := by
  rw [parabola]
  rcases Nat.le_total v.1 (sizeX - 1) with h | h
  · rw [Nat.cast_sub h]
    have hsq := sq_nonneg (((sizeX - 1 : Nat) : Rat) - 2 * v.1)
    linarith
  · rw [Nat.sub_eq_zero_of_le h, Nat.cast_zero, mul_zero, mul_zero]
    exact sq_nonneg _

theorem parabola_nonneg (sizeX : Nat) (v : Nat × Nat) : 0 ≤ parabola sizeX v :=
  mul_nonneg (Nat.cast_nonneg _) (Nat.cast_nonneg _)

theorem factor_nonneg (hX : 3 ≤ sizeX) : 0 ≤ factor sizeX := by
  have htwo : (2 : Rat) ≤ (sizeX - 1 : Nat) := by exact_mod_cast Nat.le_sub_of_add_le hX
  have hsq : (0 : Rat) < (sizeX - 1 : Nat) ^ 2 := by positivity
  rw [factor, sub_nonneg, div_le_one hsq, pow_two]
  exact (by norm_num : (2 : Rat) ≤ 2 * 2).trans (mul_le_mul htwo htwo zero_le_two (by linarith))

/-- The parabola that is at least 1 inside. -/
def bound (sizeX : Nat) (v : Nat × Nat) : Rat :=
  1 / (sizeX - 2 : Nat) * parabola sizeX v

theorem bound_nonneg (sizeX : Nat) (v : Nat × Nat) : 0 ≤ bound sizeX v :=
  mul_nonneg (one_div_nonneg.mpr (Nat.cast_nonneg _)) (parabola_nonneg sizeX v)

theorem missing_le_bound (v : Nat × Nat) : missing sizeX sizeY v ≤ bound sizeX v := by
  by_cases hv : v ∈ inside sizeX sizeY
  · obtain ⟨x, y⟩ := v
    obtain ⟨hx, hx', -, -⟩ := mem_inside.mp hv
    have hpos : (0 : Rat) < (sizeX - 2 : Nat) := by exact_mod_cast (by omega : 0 < sizeX - 2)
    have hmul : sizeX - 2 ≤ x * (sizeX - 1 - x) := by
      obtain ⟨l, rfl⟩ := Nat.exists_eq_add_of_le' hx
      obtain ⟨r, rfl⟩ := Nat.exists_eq_add_of_lt hx'
      have hmid : l + 1 + 1 + r + 1 - 1 - (l + 1) = r + 1 := by omega
      rw [hmid, Nat.succ_mul, Nat.mul_succ]
      omega
    rw [missing_of_mem hv, bound, parabola, one_div_mul_eq_div, le_div_iff₀ hpos, one_mul]
    exact_mod_cast hmul
  · rw [supported_missing v hv]
    exact bound_nonneg sizeX v

/-- Each sweep lowers the bound by the factor. -/
theorem mean_bound_le (hX : 3 ≤ sizeX) (hin : Interior sizeX sizeY x y) :
    Relaxation.mean around (bound sizeX) (x, y) ≤ factor sizeX * bound sizeX (x, y) := by
  have hpos : (0 : Rat) < (sizeX - 1 : Nat) ^ 2 := by
    have hcast : (0 : Rat) < (sizeX - 1 : Nat) := by exact_mod_cast (by omega : 0 < sizeX - 1)
    positivity
  have hhalf : 2 / ((sizeX - 1 : Nat) : Rat) ^ 2 * parabola sizeX (x, y) ≤ 1 / 2 := by
    have hle := parabola_le sizeX (x, y)
    rw [div_mul_eq_mul_div, div_le_iff₀ hpos]
    linarith
  show Relaxation.mean around (fun v => _ * parabola sizeX v) (x, y) ≤ _
  rw [Relaxation.mean_mul, mean_parabola hin, bound, mul_left_comm]
  refine mul_le_mul_of_nonneg_left ?_ (one_div_nonneg.mpr (Nat.cast_nonneg _))
  rw [factor]
  linarith

/-- **What is missing after `n` sweeps.** -/
theorem one_sub_jacobi_le (n x y : Nat) :
    1 - jacobi sizeX sizeY n x y ≤ factor sizeX ^ n * bound sizeX (x, y) := by
  rcases Nat.lt_or_ge sizeX 3 with hX | hX
  · -- there is nothing inside
    rw [jacobi_boundary n fun hin => by
      obtain ⟨hx, hx', -, -⟩ := hin
      omega, bound, Nat.sub_eq_zero_of_le (by omega), Nat.cast_zero, div_zero, zero_mul, mul_zero,
      sub_self]
  · rw [one_sub_jacobi]
    exact Relaxation.iterate_le_pow (factor_nonneg hX) (bound_nonneg sizeX)
      (fun v hv => mean_bound_le hX (mem_inside.mp hv)) supported_missing missing_le_bound n _

/-- **The sweeps approach the solution**: no cell falls or comes past 1, and what a cell
misses of 1 is bounded by a parabola that each sweep lowers by the same factor. -/
theorem sweeps_approach (hX : 2 ≤ sizeX) (hY : 2 ≤ sizeY) (hrows : ChunksAreRows sizeX sizeY)
    {m : List Rat} (hm : matrixSetup sizeX sizeY = some m) (n : Nat) :
    ∃ cur next, sweeps sizeX sizeY (m, m) n = some (cur, next) ∧
      ∀ x y, x < sizeX → y < sizeY →
        cell sizeX cur x y ≤ 1 ∧
        1 - cell sizeX cur x y ≤ factor sizeX ^ n * bound sizeX (x, y) ∧
        ∀ k cur' next', sweeps sizeX sizeY (m, m) (n + k) = some (cur', next') →
          cell sizeX cur x y ≤ cell sizeX cur' x y := by
  obtain ⟨m', hm', hstart⟩ := matrixSetup_holds hX hY
  obtain rfl := Option.some.inj (hm.symm.trans hm')
  obtain ⟨cur, next, hrun, hcur, -⟩ := sweeps_hold hX hY hrows hstart n
  refine ⟨cur, next, hrun, fun x y hx hy => ?_⟩
  rw [hcur.cell x y hx hy]
  refine ⟨jacobi_le_one n x y, one_sub_jacobi_le n x y, fun k cur' next' hrun' => ?_⟩
  obtain ⟨c, nx, hlater, hc, -⟩ := sweeps_hold hX hY hrows hstart (n + k)
  obtain ⟨rfl, rfl⟩ := Prod.mk.inj (Option.some.inj (hrun'.symm.trans hlater))
  rw [hc.cell x y hx hy]
  exact jacobi_mono x y (Nat.le_add_right n k)

/-- All the sweeps of the demo. -/
theorem sweeps_approach_demo : ∃ m cur next, matrixSetup 128 128 = some m ∧
    sweeps 128 128 (m, m) 1000 = some (cur, next) ∧
      ∀ x y, x < 128 → y < 128 →
        cell 128 cur x y ≤ 1 ∧ 1 - cell 128 cur x y ≤ factor 128 ^ 1000 * bound 128 (x, y) ∧
        ∀ k cur' next', sweeps 128 128 (m, m) (1000 + k) = some (cur', next') →
          cell 128 cur x y ≤ cell 128 cur' x y := by
  obtain ⟨m, hm, -⟩ := matrixSetup_holds (show 2 ≤ 128 by omega) (show 2 ≤ 128 by omega)
  obtain ⟨cur, next, h⟩ := sweeps_approach (by omega) (by omega) (.inl rfl) hm 1000
  exact ⟨m, cur, next, hm, h⟩

/-! ## What `get_residual` returns -/

theorem sum_range'_eq (f : Nat → Rat) (size : Nat) :
    ((List.range' 1 (size - 1 - 1)).map f).sum = ∑ x ∈ Finset.Ico 1 (size - 1), f x :=
  rfl

theorem residual_eq_energy (n : Nat) : residual sizeX sizeY n =
    energy (inside sizeX sizeY) around
      ((relax (inside sizeX sizeY) around)^[n] (missing sizeX sizeY)) := by
  rw [residual, sum_range'_eq, energy, inside, Finset.sum_product_right]
  refine Finset.sum_congr rfl fun y _ => ?_
  rw [sum_range'_eq]
  refine Finset.sum_congr rfl fun x _ => ?_
  rw [← Function.iterate_succ_apply' (relax _ _), ← inside, ← one_sub_jacobi, ← one_sub_jacobi]
  ring

theorem residual_nonneg (n : Nat) : 0 ≤ residual sizeX sizeY n := by
  rw [residual_eq_energy]
  exact Finset.sum_nonneg fun v _ => sq_nonneg _

theorem residual_succ_le (n : Nat) : residual sizeX sizeY (n + 1) ≤ residual sizeX sizeY n := by
  rw [residual_eq_energy, residual_eq_energy, Function.iterate_succ_apply']
  exact symmetric_around.energy_relax_le _

/-- At the start, each cell inside misses 1. -/
theorem inner_missing : Relaxation.inner (inside sizeX sizeY) (missing sizeX sizeY)
    (missing sizeX sizeY) = ((sizeX - 2) * (sizeY - 2) : Nat) := by
  have hcard : (inside sizeX sizeY).card = (sizeX - 2) * (sizeY - 2) := by
    rw [inside, Finset.card_product, Nat.card_Ico, Nat.card_Ico, Nat.sub_sub, Nat.sub_sub]
  rw [← hcard, Relaxation.inner, Finset.sum_congr rfl fun v hv => by
    rw [missing_of_mem hv, mul_one], Finset.sum_const, nsmul_one]

theorem mul_residual_le (n : Nat) :
    ((3 * n + 1) * (3 * n + 2) : Rat) * residual sizeX sizeY n ≤
      4 * ((sizeX - 2) * (sizeY - 2) : Nat) := by
  rw [residual_eq_energy, ← inner_missing]
  exact symmetric_around.mul_energy_le supported_missing missing_nonneg relax_missing_le n

/-- **The residual** after `n` sweeps does not rise with the next one, and the number of cells
inside bounds it, over about the square of three halves of `n`. -/
theorem residual_bounded (hX : 2 ≤ sizeX) (hY : 2 ≤ sizeY) (hrows : ChunksAreRows sizeX sizeY)
    {m : List Rat} (hm : matrixSetup sizeX sizeY = some m) (n : Nat) :
    ∃ cur next cur' next' res res', sweeps sizeX sizeY (m, m) n = some (cur, next) ∧
      sweeps sizeX sizeY (m, m) (n + 1) = some (cur', next') ∧
      getResidual cur sizeX sizeY = some res ∧ getResidual cur' sizeX sizeY = some res' ∧
      0 ≤ res' ∧ res' ≤ res ∧
      ((3 * n + 1) * (3 * n + 2) : Rat) * res ≤ 4 * ((sizeX - 2) * (sizeY - 2) : Nat) := by
  obtain ⟨m', hm', hstart⟩ := matrixSetup_holds hX hY
  obtain rfl := Option.some.inj (hm.symm.trans hm')
  obtain ⟨cur, next, hrun, hcur, -⟩ := sweeps_hold hX hY hrows hstart n
  obtain ⟨cur', next', hrun', hcur', -⟩ := sweeps_hold hX hY hrows hstart (n + 1)
  exact ⟨cur, next, cur', next', _, _, hrun, hrun', getResidual_eq hcur, getResidual_eq hcur',
    residual_nonneg (n + 1), residual_succ_le n, mul_residual_le n⟩

/-- The residual that the demo prints. -/
theorem residual_bounded_demo : ∃ m cur next res, matrixSetup 128 128 = some m ∧
    sweeps 128 128 (m, m) 1000 = some (cur, next) ∧ getResidual cur 128 128 = some res ∧
      3001 * 3002 * res ≤ 4 * (126 * 126) := by
  obtain ⟨m, hm, -⟩ := matrixSetup_holds (show 2 ≤ 128 by omega) (show 2 ≤ 128 by omega)
  obtain ⟨cur, next, -, -, res, -, hrun, -, hres, -, -, -, hle⟩ :=
    residual_bounded (by omega) (by omega) (.inl rfl) hm 1000
  norm_num at hle
  exact ⟨m, cur, next, res, hm, hrun, hres, by linarith⟩

/-! ## The test -/

theorem laplace_eq (hX : 2 ≤ sizeX) (hY : 2 ≤ sizeY) (hrows : ChunksAreRows sizeX sizeY)
    (hfits : sizeX * sizeY * 8 < 2 ^ 63) : laplace sizeX sizeY =
      some (if residual sizeX sizeY 1000 < 1 / 100 then .ok () else .error ()) := by
  obtain ⟨m, hm, hstart⟩ := matrixSetup_holds hX hY
  rw [laplace, if_pos hfits, hm, Option.bind_eq_bind, Option.bind_some]
  simp only [compute_eq hX hY hrows hstart, Option.bind_eq_bind, Option.bind_some]
  split <;> rfl

/-- **The test passes** where a matrix can be allocated and the grid has fewer than 22500 cells
inside. -/
theorem laplace_ok (hX : 2 ≤ sizeX) (hY : 2 ≤ sizeY) (hrows : ChunksAreRows sizeX sizeY)
    (hfits : sizeX * sizeY * 8 < 2 ^ 63) (hcells : (sizeX - 2) * (sizeY - 2) < 22500) :
    laplace sizeX sizeY = some (.ok ()) := by
  have hbound := @mul_residual_le sizeX sizeY 1000
  have hcast : (((sizeX - 2) * (sizeY - 2) : Nat) : Rat) < 22500 := by exact_mod_cast hcells
  rw [laplace_eq hX hY hrows hfits, if_pos]
  norm_num at hbound
  push_cast at hcast
  linarith

/-- The grid of the demo. -/
theorem laplace_ok_demo : laplace 128 128 = some (.ok ()) :=
  laplace_ok (by omega) (by omega) (.inl rfl) (by omega) (by omega)

end RustyHermit.Demo.Laplace
