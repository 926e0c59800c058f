import Mathlib.Algebra.BigOperators.Field
import Mathlib.Algebra.Order.Chebyshev
import Mathlib.Order.Iterate
import Mathlib.Tactic.Linarith
import Mathlib.Tactic.Ring

/-!
# Relaxation

A sweep sets the value of each interior place to the mean of the values around it, all at
once, and leaves the values on the boundary. The places around a place are given by finitely
many directions.

- `antitone_iterate`: values that a sweep does not raise, no further one does.
- `iterate_le_pow`: values below others that each sweep lowers by a factor fall as fast.
- `Symmetric.energy_relax_le`: where each direction has an opposite one, sweeps move less
  and less.
- `Symmetric.mul_energy_le`: and what the sweep after `n` others moves is of the order
  of `1 / n ^ 2`, however far the boundary is.
-/

namespace RustyHermit.Relaxation

variable {V D K : Type*} [Fintype D] [Field K]

/-- The mean of the values around a place. -/
def mean (nbr : D → V → V) (f : V → K) (v : V) : K :=
  (∑ i, f (nbr i v)) / Fintype.card D

theorem mean_mul (nbr : D → V → V) (c : K) (f : V → K) (v : V) :
    mean nbr (fun w => c * f w) v = c * mean nbr f v := by
  rw [mean, mean, ← Finset.mul_sum, mul_div_assoc]

theorem mean_sub (nbr : D → V → V) (f g : V → K) (v : V) :
    mean nbr (fun w => f w - g w) v = mean nbr f v - mean nbr g v := by
  rw [mean, mean, mean, Finset.sum_sub_distrib, sub_div]

variable [DecidableEq V]

/-- One sweep. -/
def relax (interior : Finset V) (nbr : D → V → V) (f : V → K) (v : V) : K :=
  if v ∈ interior then mean nbr f v else f v

/-- What the next sweep changes: the sum of the squares. -/
def energy (interior : Finset V) (nbr : D → V → V) (f : V → K) : K :=
  ∑ v ∈ interior, (relax interior nbr f v - f v) ^ 2

variable {interior : Finset V} {nbr : D → V → V} {f g : V → K} {v : V}

theorem relax_of_mem (hv : v ∈ interior) : relax interior nbr f v = mean nbr f v :=
  if_pos hv

theorem relax_of_notMem (hv : v ∉ interior) : relax interior nbr f v = f v :=
  if_neg hv

theorem iterate_of_notMem (hv : v ∉ interior) (n : Nat) :
    (relax interior nbr)^[n] f v = f v := by
  induction n with
  | zero => rfl
  | succ n ih => rw [Function.iterate_succ_apply', relax_of_notMem hv, ih]

theorem relax_sub (f g : V → K) :
    relax interior nbr (fun v => f v - g v)
      = fun v => relax interior nbr f v - relax interior nbr g v := by
  funext v
  by_cases hv : v ∈ interior
  · rw [relax_of_mem hv, relax_of_mem hv, relax_of_mem hv, mean_sub]
  · rw [relax_of_notMem hv, relax_of_notMem hv, relax_of_notMem hv]

theorem iterate_sub (f g : V → K) (n : Nat) :
    (relax interior nbr)^[n] (fun v => f v - g v)
      = fun v => (relax interior nbr)^[n] f v - (relax interior nbr)^[n] g v := by
  induction n with
  | zero => rfl
  | succ n ih =>
    rw [Function.iterate_succ_apply', ih, relax_sub]
    simp only [Function.iterate_succ_apply']

/-! ## Directions and their opposites -/

/-- Each direction has an opposite one, inside. -/
structure Symmetric (interior : Finset V) (nbr : D → V → V) (opp : D → D) : Prop where
  opp_opp : ∀ i, opp (opp i) = i
  back : ∀ i, ∀ v ∈ interior, nbr i v ∈ interior → nbr (opp i) (nbr i v) = v

variable {opp : D → D}

omit [Fintype D] in
/-- What is summed over the steps in one direction is summed over those back. -/
theorem Symmetric.sum_back (h : Symmetric interior nbr opp) (i : D)
    (F : V → V → K) (hF : ∀ v w, w ∉ interior → F v w = 0)
    (hF' : ∀ v w, v ∉ interior → F v w = 0) :
    ∑ v ∈ interior, F v (nbr i v) = ∑ w ∈ interior, F (nbr (opp i) w) w := by
  have hleft : ∑ v ∈ interior, F v (nbr i v) =
      ∑ v ∈ interior with nbr i v ∈ interior, F v (nbr i v) :=
    (Finset.sum_filter_of_ne fun v _ hne => by_contra fun hv => hne (hF v _ hv)).symm
  have hright : ∑ w ∈ interior, F (nbr (opp i) w) w =
      ∑ w ∈ interior with nbr (opp i) w ∈ interior, F (nbr (opp i) w) w :=
    (Finset.sum_filter_of_ne fun w _ hne => by_contra fun hw => hne (hF' _ w hw)).symm
  have hback : ∀ i, ∀ v ∈ interior.filter fun v => nbr i v ∈ interior,
      nbr i v ∈ interior.filter (fun w => nbr (opp i) w ∈ interior) ∧
        nbr (opp i) (nbr i v) = v := by
    intro i v hv
    obtain ⟨hv, hw⟩ := Finset.mem_filter.mp hv
    have hb := h.back i v hv hw
    exact ⟨Finset.mem_filter.mpr ⟨hw, by rwa [hb]⟩, hb⟩
  rw [hleft, hright]
  refine Finset.sum_bij' (fun v _ => nbr i v) (fun w _ => nbr (opp i) w)
    (fun v hv => (hback i v hv).1) (fun w hw => ?_) (fun v hv => (hback i v hv).2)
    (fun w hw => ?_) fun v hv => ?_
  · have hb := (hback (opp i) w hw).1
    rwa [h.opp_opp] at hb
  · have hb := (hback (opp i) w hw).2
    rwa [h.opp_opp] at hb
  · rw [(hback i v hv).2]

/-- The product of values inside. -/
def inner (interior : Finset V) (f g : V → K) : K :=
  ∑ v ∈ interior, f v * g v

/-- Values that are zero on the boundary. -/
def Supported (interior : Finset V) (f : V → K) : Prop :=
  ∀ v ∉ interior, f v = 0

theorem Supported.iterate (hf : Supported interior f) (n : Nat) :
    Supported interior ((relax interior nbr)^[n] f) := by
  intro v hv
  rw [iterate_of_notMem hv]
  exact hf v hv

/-- A sweep may be moved from one factor to the other. -/
theorem Symmetric.inner_relax (h : Symmetric interior nbr opp)
    (hf : Supported interior f) (hg : Supported interior g) :
    inner interior (relax interior nbr f) g = inner interior f (relax interior nbr g) := by
  have hmean : ∀ f g : V → K, inner interior (relax interior nbr f) g =
      (∑ i, ∑ v ∈ interior, f (nbr i v) * g v) / Fintype.card D := by
    intro f g
    rw [Finset.sum_comm, Finset.sum_div]
    refine Finset.sum_congr rfl fun v hv => ?_
    rw [relax_of_mem hv, mean, div_mul_eq_mul_div, Finset.sum_mul]
  have hcomm :
      inner interior f (relax interior nbr g) = inner interior (relax interior nbr g) f :=
    Finset.sum_congr rfl fun v _ => mul_comm _ _
  rw [hcomm, hmean, hmean]
  congr 1
  calc ∑ i, ∑ v ∈ interior, f (nbr i v) * g v
      = ∑ i, ∑ w ∈ interior, g (nbr (opp i) w) * f w := by
        refine Finset.sum_congr rfl fun i _ => ?_
        rw [h.sum_back i (fun v w => f w * g v) (fun v w hw => by rw [hf w hw, zero_mul])
          fun v w hv => by rw [hg v hv, mul_zero]]
        exact Finset.sum_congr rfl fun w _ => mul_comm _ _
    _ = ∑ i, ∑ w ∈ interior, g (nbr i w) * f w :=
        Equiv.sum_comp ⟨opp, opp, h.opp_opp, h.opp_opp⟩
          fun i => ∑ w ∈ interior, g (nbr i w) * f w

theorem Symmetric.inner_iterate (h : Symmetric interior nbr opp)
    (hf : Supported interior f) (hg : Supported interior g) (m n : Nat) :
    inner interior ((relax interior nbr)^[m] f) ((relax interior nbr)^[n] g) =
      inner interior f ((relax interior nbr)^[m + n] g) := by
  induction m generalizing n with
  | zero => rw [Function.iterate_zero_apply, Nat.zero_add]
  | succ m ih =>
    rw [Function.iterate_succ_apply', h.inner_relax (hf.iterate m) (hg.iterate n),
      ← Function.iterate_succ_apply' (relax interior nbr), ih, Nat.succ_add_eq_add_succ]

omit [DecidableEq V] in
theorem inner_sub_sub (f g f' g' : V → K) :
    inner interior (fun v => f v - g v) (fun v => f' v - g' v) =
      inner interior f f' - inner interior f g' - inner interior g f' + inner interior g g' := by
  rw [inner, inner, inner, inner, inner, ← Finset.sum_sub_distrib, ← Finset.sum_sub_distrib,
    ← Finset.sum_add_distrib]
  exact Finset.sum_congr rfl fun v _ => by ring

/-- How values move in the first sweep. -/
def fall (interior : Finset V) (nbr : D → V → V) (f : V → K) (v : V) : K :=
  f v - relax interior nbr f v

theorem supported_fall (f : V → K) : Supported interior (fall interior nbr f) :=
  fun v hv => by rw [fall, relax_of_notMem hv, sub_self]

/-- How they move in the sweep after `n` others. -/
theorem iterate_fall (f : V → K) (n : Nat) : (relax interior nbr)^[n] (fall interior nbr f)
    = fun v => (relax interior nbr)^[n] f v - (relax interior nbr)^[n + 1] f v :=
  iterate_sub f (relax interior nbr f) n

/-- The product of what two sweeps move is a second difference. -/
theorem Symmetric.inner_fall (h : Symmetric interior nbr opp) (hf : Supported interior f)
    (n : Nat) :
    inner interior (fall interior nbr f) ((relax interior nbr)^[n] (fall interior nbr f)) =
      inner interior f ((relax interior nbr)^[n] f)
        - 2 * inner interior f ((relax interior nbr)^[n + 1] f)
        + inner interior f ((relax interior nbr)^[n + 2] f) := by
  have hmoved := fun n => h.inner_iterate hf hf 1 n
  simp only [Function.iterate_one] at hmoved
  rw [iterate_fall]
  show inner interior (fun v => f v - relax interior nbr f v) _ = _
  rw [inner_sub_sub, hmoved, hmoved, Nat.add_comm 1 n, Nat.add_comm 1 (n + 1)]
  ring

/-- What a sweep changes, as such a product. -/
theorem Symmetric.energy_iterate (h : Symmetric interior nbr opp) (f : V → K) (n : Nat) :
    energy interior nbr ((relax interior nbr)^[n] f) =
      inner interior (fall interior nbr f)
        ((relax interior nbr)^[2 * n] (fall interior nbr f)) := by
  rw [Nat.two_mul, ← h.inner_iterate (supported_fall f) (supported_fall f), iterate_fall]
  refine Finset.sum_congr rfl fun v _ => ?_
  rw [Function.iterate_succ_apply']
  ring

/-! ## Order -/

section Ordered

variable [LinearOrder K] [IsStrictOrderedRing K]

omit [DecidableEq V] in
theorem mean_mono (h : f ≤ g) (v : V) : mean nbr f v ≤ mean nbr g v :=
  div_le_div_of_nonneg_right (Finset.sum_le_sum fun _ _ => h _) (Nat.cast_nonneg _)

theorem relax_mono : Monotone (relax (K := K) interior nbr) := by
  intro f g h v
  by_cases hv : v ∈ interior
  · rw [relax_of_mem hv, relax_of_mem hv]
    exact mean_mono h v
  · rw [relax_of_notMem hv, relax_of_notMem hv]
    exact h v

theorem iterate_mono (h : f ≤ g) (n : Nat) :
    (relax interior nbr)^[n] f ≤ (relax interior nbr)^[n] g :=
  relax_mono.iterate n h

/-- What the first sweep does not raise, no further one does. -/
theorem antitone_iterate (h : relax interior nbr f ≤ f) :
    Antitone fun n => (relax interior nbr)^[n] f :=
  relax_mono.antitone_iterate_of_map_le h

variable [Nonempty D]

omit [DecidableEq V] in
theorem mean_const (c : K) (v : V) : mean nbr (fun _ => c) v = c := by
  have hcard : (Fintype.card D : K) ≠ 0 := Nat.cast_ne_zero.mpr Fintype.card_ne_zero
  rw [mean, Finset.sum_const, Finset.card_univ, nsmul_eq_mul, mul_div_cancel_left₀ c hcard]

theorem relax_const (c : K) : relax interior nbr (fun _ => c) = fun _ => c := by
  funext v
  by_cases hv : v ∈ interior
  · rw [relax_of_mem hv, mean_const]
  · rw [relax_of_notMem hv]

theorem iterate_const (c : K) (n : Nat) :
    (relax interior nbr)^[n] (fun _ => c) = fun _ => c := by
  induction n with
  | zero => rfl
  | succ n ih => rw [Function.iterate_succ_apply', ih, relax_const]

/-- Sweeps stay above what all values are above. -/
theorem const_le_iterate {c : K} (h : ∀ v, c ≤ f v) (n : Nat) (v : V) :
    c ≤ (relax interior nbr)^[n] f v := by
  have hmono : (relax interior nbr)^[n] (fun _ => c) v ≤ _ := iterate_mono h n v
  rwa [iterate_const] at hmono

theorem iterate_le_const {c : K} (h : ∀ v, f v ≤ c) (n : Nat) (v : V) :
    (relax interior nbr)^[n] f v ≤ c := by
  have hmono : _ ≤ (relax interior nbr)^[n] (fun _ => c) v := iterate_mono h n v
  rwa [iterate_const] at hmono

omit [Nonempty D] in
/-- **Comparison**: values are pressed down as fast as larger ones that each sweep lowers
by a factor. -/
theorem iterate_le_pow {q : K} {bound : V → K} (hq : 0 ≤ q) (hbound : ∀ v, 0 ≤ bound v)
    (hshrink : ∀ v ∈ interior, mean nbr bound v ≤ q * bound v) (hf : Supported interior f)
    (hle : ∀ v, f v ≤ bound v) (n : Nat) (v : V) :
    (relax interior nbr)^[n] f v ≤ q ^ n * bound v := by
  induction n generalizing v with
  | zero =>
    rw [pow_zero, one_mul]
    exact hle v
  | succ n ih =>
    by_cases hv : v ∈ interior
    · rw [Function.iterate_succ_apply', relax_of_mem hv]
      calc mean nbr ((relax interior nbr)^[n] f) v
          ≤ mean nbr (fun w => q ^ n * bound w) v := mean_mono ih v
        _ = q ^ n * mean nbr bound v := mean_mul _ _ _ _
        _ ≤ q ^ n * (q * bound v) :=
            mul_le_mul_of_nonneg_left (hshrink v hv) (pow_nonneg hq n)
        _ = q ^ (n + 1) * bound v := by rw [pow_succ, mul_assoc]
    · rw [hf.iterate (n + 1) v hv]
      exact mul_nonneg (pow_nonneg hq _) (hbound v)

/-! ### How much a sweep moves -/

omit [DecidableEq V] in
/-- The square of a mean is at most the mean of the squares. -/
theorem mean_sq_le (f : V → K) (v : V) : mean nbr f v ^ 2 ≤ mean nbr (fun w => f w ^ 2) v := by
  have hcard : (0 : K) < Fintype.card D := Nat.cast_pos.mpr Fintype.card_pos
  have hsq := sq_sum_le_card_mul_sum_sq (s := Finset.univ) (f := fun i => f (nbr i v))
  rw [mean, mean, div_pow, div_le_div_iff₀ (pow_pos hcard 2) hcard, pow_two (Fintype.card D : K),
    ← mul_assoc, mul_comm (∑ i, f (nbr i v) ^ 2)]
  exact mul_le_mul_of_nonneg_right hsq hcard.le

omit [Fintype D] [Nonempty D] in
/-- A value counts at most once for each direction. -/
theorem Symmetric.sum_nbr_le (h : Symmetric interior nbr opp) (i : D)
    (hnonneg : ∀ v, 0 ≤ g v) (hzero : ∀ v ∉ interior, g v = 0) :
    ∑ v ∈ interior, g (nbr i v) ≤ ∑ v ∈ interior, g v := by
  have hback := h.sum_back i (fun v w => if v ∈ interior then g w else 0)
    (fun v w hw => by rw [hzero w hw, ite_self]) fun v w hv => if_neg hv
  rw [Finset.sum_congr rfl fun v hv => if_pos hv] at hback
  rw [hback]
  refine Finset.sum_le_sum fun w _ => ?_
  split
  · exact le_refl _
  · exact hnonneg w

/-- **Sweeps move less and less.** -/
theorem Symmetric.energy_relax_le (h : Symmetric interior nbr opp) (f : V → K) :
    energy interior nbr (relax interior nbr f) ≤ energy interior nbr f := by
  let g := fun v => relax interior nbr f v - f v
  have hg : ∀ v ∉ interior, g v ^ 2 = 0 := by
    intro v hv
    show (relax interior nbr f v - f v) ^ 2 = 0
    rw [relax_of_notMem hv, sub_self, zero_pow two_ne_zero]
  have hcard : (0 : K) < Fintype.card D := Nat.cast_pos.mpr Fintype.card_pos
  calc energy interior nbr (relax interior nbr f)
      = ∑ v ∈ interior, mean nbr g v ^ 2 := by
        refine Finset.sum_congr rfl fun v hv => ?_
        rw [relax_of_mem hv, relax_of_mem hv, ← mean_sub]
    _ ≤ ∑ v ∈ interior, mean nbr (fun w => g w ^ 2) v :=
        Finset.sum_le_sum fun v _ => mean_sq_le g v
    _ = (∑ i, ∑ v ∈ interior, g (nbr i v) ^ 2) / Fintype.card D := by
        rw [Finset.sum_comm, Finset.sum_div]
        rfl
    _ ≤ (∑ _i : D, energy interior nbr f) / Fintype.card D := by
        refine div_le_div_of_nonneg_right (Finset.sum_le_sum fun i _ => ?_) hcard.le
        exact h.sum_nbr_le (g := fun v => g v ^ 2) i (fun v => sq_nonneg _) hg
    _ = energy interior nbr f := by
        rw [Finset.sum_const, Finset.card_univ, nsmul_eq_mul, mul_div_cancel_left₀ _ hcard.ne']

/-! ### How fast that is -/

/-- Second differences, each counted as often as it is late. -/
theorem sum_second_difference (b : Nat → K) (n : Nat) :
    ∑ k ∈ Finset.range n, ((k : K) + 1) * (b k - 2 * b (k + 1) + b (k + 2)) =
      b 0 - b n - n * (b n - b (n + 1)) := by
  induction n with
  | zero => simp
  | succ n ih =>
    rw [Finset.sum_range_succ, ih]
    push_cast
    ring

theorem sum_even_le {a : Nat → K} (ha : ∀ k, 0 ≤ a k) (n : Nat) :
    ∑ m ∈ Finset.range n, (2 * (m : K) + 1) * a (2 * m) ≤
      ∑ k ∈ Finset.range (2 * n), ((k : K) + 1) * a k := by
  induction n with
  | zero => exact le_refl _
  | succ n ih =>
    have hodd : 0 ≤ (((2 * n + 1 : Nat) : K) + 1) * a (2 * n + 1) :=
      mul_nonneg (by positivity) (ha _)
    have heven : ((2 * n : Nat) : K) + 1 = 2 * (n : K) + 1 := by push_cast; ring
    rw [Finset.sum_range_succ, Nat.mul_succ, Finset.sum_range_succ, Finset.sum_range_succ, heven]
    linarith

/-- A sequence whose falls get smaller is above its tangents. -/
theorem tangent_le {r : Nat → K} (hr : ∀ m, r (m + 1) - r (m + 2) ≤ r m - r (m + 1)) (n m : Nat) :
    r n + ((n : K) - m) * (r n - r (n + 1)) ≤ r m := by
  have hslope : Antitone fun m => r m - r (m + 1) := antitone_nat_of_succ_le hr
  rcases Nat.le_total m n with h | h
  · obtain ⟨j, rfl⟩ := Nat.exists_eq_add_of_le h
    clear h
    induction j with
    | zero => simp
    | succ j ih =>
      have hcount : (0 : K) ≤ (j + 1 : Nat) := Nat.cast_nonneg _
      have hmul := mul_le_mul_of_nonneg_left (hr (m + j)) hcount
      rw [← Nat.add_assoc]
      push_cast at ih hmul ⊢
      linarith
  · induction m, h using Nat.le_induction with
    | base => simp
    | succ m hm ih =>
      have hfall : r m - r (m + 1) ≤ r n - r (n + 1) := hslope hm
      push_cast
      linarith

theorem sum_odd (n : Nat) : ∑ m ∈ Finset.range n, (2 * (m : K) + 1) = (n : K) ^ 2 := by
  induction n with
  | zero => simp
  | succ n ih =>
    rw [Finset.sum_range_succ, ih]
    push_cast
    ring

theorem sum_odd_mul (n k : Nat) :
    6 * ∑ m ∈ Finset.range k, (2 * (m : K) + 1) * ((n : K) - m) =
      k * (k * (6 * n + 3 - 4 * k) + 1) := by
  induction k with
  | zero => simp
  | succ k ih =>
    rw [Finset.sum_range_succ, mul_add, ih]
    push_cast
    ring

/-- Where falls get smaller, a sum over the first members bounds a later one. The last of them has
only the weight `c`: so much that the weights are balanced at `n`. -/
theorem mul_le_sum {r : Nat → K} (hr : ∀ m, r (m + 1) - r (m + 2) ≤ r m - r (m + 1))
    (hanti : ∀ m, r (m + 1) ≤ r m) {n k : Nat} {c : K} (hc : 0 ≤ c)
    (hbalance : 6 * (c * ((k : K) - n)) ≤ k * (k * (6 * n + 3 - 4 * k) + 1)) :
    ((k : K) ^ 2 + c) * r n ≤ ∑ m ∈ Finset.range k, (2 * (m : K) + 1) * r m + c * r k := by
  have hslope : 0 ≤ r n - r (n + 1) := sub_nonneg.mpr (hanti n)
  have hweight : 0 ≤ ∑ m ∈ Finset.range k, (2 * (m : K) + 1) * ((n : K) - m)
      + c * ((n : K) - k) := by
    have hodd := sum_odd_mul (K := K) n k
    linarith
  calc ((k : K) ^ 2 + c) * r n
      ≤ ((k : K) ^ 2 + c) * r n
          + (∑ m ∈ Finset.range k, (2 * (m : K) + 1) * ((n : K) - m) + c * ((n : K) - k))
            * (r n - r (n + 1)) :=
        le_add_of_nonneg_right (mul_nonneg hweight hslope)
    _ = ∑ m ∈ Finset.range k, (2 * (m : K) + 1) * (r n + ((n : K) - m) * (r n - r (n + 1)))
          + c * (r n + ((n : K) - k) * (r n - r (n + 1))) := by
        have hsplit : ∑ m ∈ Finset.range k,
            (2 * (m : K) + 1) * (r n + ((n : K) - m) * (r n - r (n + 1))) =
            (k : K) ^ 2 * r n
              + (∑ m ∈ Finset.range k, (2 * (m : K) + 1) * ((n : K) - m)) * (r n - r (n + 1)) := by
          rw [← sum_odd, Finset.sum_mul, Finset.sum_mul, ← Finset.sum_add_distrib]
          exact Finset.sum_congr rfl fun m _ => by ring
        rw [hsplit]
        ring
    _ ≤ ∑ m ∈ Finset.range k, (2 * (m : K) + 1) * r m + c * r k := by
        refine add_le_add (Finset.sum_le_sum fun m _ => ?_) ?_
        · exact mul_le_mul_of_nonneg_left (tangent_le hr n m) (by positivity)
        · exact mul_le_mul_of_nonneg_left (tangent_le hr n k) hc

/-- How far the sum has to go for the later member `n`, and with what weight at its end. -/
theorem exists_balance (n : Nat) : ∃ (k : Nat) (c : K), 0 ≤ c ∧ c ≤ 2 * (k : K) + 1 ∧
    6 * (c * ((k : K) - n)) ≤ k * (k * (6 * n + 3 - 4 * k) + 1) ∧
    4 * ((k : K) ^ 2 + c) = (3 * n + 1) * (3 * n + 2) := by
  rcases Nat.even_or_odd' n with ⟨j, rfl | rfl⟩
  · refine ⟨3 * j, (9 * j + 1) / 2, by positivity, ?_, le_of_eq ?_, ?_⟩
    · have hj : (0 : K) ≤ j := Nat.cast_nonneg j
      push_cast
      linarith
    · push_cast
      ring
    · push_cast
      ring
  · refine ⟨3 * j + 2, (3 * j + 2) / 2, by positivity, ?_, le_of_eq ?_, ?_⟩
    · have hj : (0 : K) ≤ j := Nat.cast_nonneg j
      push_cast
      linarith
    · push_cast
      ring
    · push_cast
      ring

omit [Nonempty D] in
/-- Sweeps move less and less, and the difference gets smaller too. -/
theorem Symmetric.energy_fall_le (h : Symmetric interior nbr opp) (f : V → K) (n : Nat) :
    energy interior nbr ((relax interior nbr)^[n + 1] f)
        - energy interior nbr ((relax interior nbr)^[n + 2] f) ≤
      energy interior nbr ((relax interior nbr)^[n] f)
        - energy interior nbr ((relax interior nbr)^[n + 1] f) := by
  let d := fall interior nbr f
  have hd : Supported interior d := supported_fall f
  let e := fun v => (relax interior nbr)^[n] d v - (relax interior nbr)^[n + 2] d v
  have hsq : 0 ≤ inner interior e e := Finset.sum_nonneg fun v _ => mul_self_nonneg _
  rw [inner_sub_sub, h.inner_iterate hd hd, h.inner_iterate hd hd, h.inner_iterate hd hd,
    h.inner_iterate hd hd] at hsq
  rw [h.energy_iterate, h.energy_iterate, h.energy_iterate]
  have hzero : n + n = 2 * n := by omega
  have hone : n + (n + 2) = 2 * (n + 1) := by omega
  have hone' : n + 2 + n = 2 * (n + 1) := by omega
  have htwo : n + 2 + (n + 2) = 2 * (n + 2) := by omega
  rw [hzero, hone, hone', htwo] at hsq
  linarith

/-- **How much the sweep after `n` others moves**, if sweeps only lower the values. -/
theorem Symmetric.mul_energy_le (h : Symmetric interior nbr opp) (hf : Supported interior f)
    (hnonneg : ∀ v, 0 ≤ f v) (hfall : relax interior nbr f ≤ f) (n : Nat) :
    (3 * n + 1) * (3 * n + 2) * energy interior nbr ((relax interior nbr)^[n] f) ≤
      4 * inner interior f f := by
  have hanti : Antitone fun n => (relax interior nbr)^[n] f := antitone_iterate hfall
  let b := fun n => inner interior f ((relax interior nbr)^[n] f)
  have hb : ∀ n, 0 ≤ b n := fun n => Finset.sum_nonneg fun v _ =>
    mul_nonneg (hnonneg v) (const_le_iterate hnonneg n v)
  have hb' : ∀ n, b (n + 1) ≤ b n := fun n => Finset.sum_le_sum fun v _ =>
    mul_le_mul_of_nonneg_left (hanti (Nat.le_succ n) v) (hnonneg v)
  have hsecond : ∀ n, 0 ≤ b n - 2 * b (n + 1) + b (n + 2) := by
    intro n
    have hprod := h.inner_fall hf n
    rw [iterate_fall] at hprod
    rw [← hprod]
    exact Finset.sum_nonneg fun v _ =>
      mul_nonneg (sub_nonneg.mpr (hfall v)) (sub_nonneg.mpr (hanti (Nat.le_succ n) v))
  let r := fun n => energy interior nbr ((relax interior nbr)^[n] f)
  have henergy : ∀ n, r n = b (2 * n) - 2 * b (2 * n + 1) + b (2 * n + 2) := by
    intro n
    exact (h.energy_iterate f n).trans (h.inner_fall hf (2 * n))
  have hless : ∀ n, r (n + 1) ≤ r n := by
    intro n
    show energy interior nbr ((relax interior nbr)^[n + 1] f) ≤ _
    rw [Function.iterate_succ_apply']
    exact h.energy_relax_le _
  have hfirst : ∀ k, ∑ m ∈ Finset.range k, (2 * (m : K) + 1) * r m ≤ b 0 := by
    intro k
    calc ∑ m ∈ Finset.range k, (2 * (m : K) + 1) * r m
        = ∑ m ∈ Finset.range k, (2 * (m : K) + 1)
            * (b (2 * m) - 2 * b (2 * m + 1) + b (2 * m + 2)) :=
          Finset.sum_congr rfl fun m _ => by rw [henergy]
      _ ≤ ∑ j ∈ Finset.range (2 * k), ((j : K) + 1) * (b j - 2 * b (j + 1) + b (j + 2)) :=
          sum_even_le hsecond k
      _ = b 0 - b (2 * k) - (2 * k : Nat) * (b (2 * k) - b (2 * k + 1)) :=
          sum_second_difference b (2 * k)
      _ ≤ b 0 := by
          have hfalls : 0 ≤ ((2 * k : Nat) : K) * (b (2 * k) - b (2 * k + 1)) :=
            mul_nonneg (Nat.cast_nonneg _) (sub_nonneg.mpr (hb' (2 * k)))
          have hlast := hb (2 * k)
          linarith
  obtain ⟨k, c, hc, hle, hbalance, hweight⟩ := exists_balance (K := K) n
  have hsum := mul_le_sum (r := r) (h.energy_fall_le f) hless hc hbalance
  have hlast : c * r k ≤ (2 * (k : K) + 1) * r k :=
    mul_le_mul_of_nonneg_right hle (Finset.sum_nonneg fun v _ => sq_nonneg _)
  have hall := hfirst (k + 1)
  rw [Finset.sum_range_succ] at hall
  show (3 * n + 1) * (3 * n + 2) * r n ≤ 4 * b 0
  rw [← hweight, mul_assoc]
  linarith

end Ordered

end RustyHermit.Relaxation
