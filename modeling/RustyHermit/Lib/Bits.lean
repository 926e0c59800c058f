import Mathlib.Data.Nat.Bitwise
import Mathlib.Order.Monotone.Basic
import Mathlib.Tactic.IntervalCases
import Mathlib.Tactic.Ring

/-!
# Bits at every other position

`splay j` spreads the binary digits of `j` to the even positions, so its base 4
digits are the binary digits of `j`. `zindex i j` interleaves two numbers, the
digits of `i` at the odd positions and those of `j` at the even ones.

- `evenDigits_iff`: the splayed numbers are those with no digit at an odd
  position, and `splay` is strictly increasing.
- `splay_succ`: setting the odd digits makes an addition carry through them, so
  that it counts in the even ones.
- `zindex_lt`, `exists_zindex`: the numbers below `4 ^ k` are the interleavings
  of two numbers below `2 ^ k`, and `zindex_block` says where high digits go.
- `zindex_and_evens`, `zindex_and_odds`, `two_mul_splay_or_splay`: masks take an
  interleaving apart, and an or puts it together.
-/

namespace RustyHermit

/-! ## Base 4 digits -/

/-- The bits of a number in terms of its last base 4 digit. -/
theorem testBit_digit (a : Nat) {c : Nat} (hc : c < 4) (i : Nat) :
    (4 * a + c).testBit i = if i < 2 then c.testBit i else a.testBit (i - 2) :=
  Nat.testBit_two_pow_mul_add a (i := 2) hc i

theorem and_digit (a b : Nat) {c d : Nat} (hc : c < 4) (hd : d < 4) :
    (4 * a + c) &&& (4 * b + d) = 4 * (a &&& b) + (c &&& d) := by
  have hcd : c &&& d < 4 := Nat.lt_of_le_of_lt Nat.and_le_left hc
  refine Nat.eq_of_testBit_eq fun i => ?_
  rw [Nat.testBit_and, testBit_digit a hc, testBit_digit b hd, testBit_digit _ hcd]
  split <;> rw [Nat.testBit_and]

theorem or_digit (a b : Nat) {c d : Nat} (hc : c < 4) (hd : d < 4) :
    (4 * a + c) ||| (4 * b + d) = 4 * (a ||| b) + (c ||| d) := by
  have hcd : c ||| d < 4 := Nat.or_lt_two_pow (n := 2) hc hd
  refine Nat.eq_of_testBit_eq fun i => ?_
  rw [Nat.testBit_or, testBit_digit a hc, testBit_digit b hd, testBit_digit _ hcd]
  split <;> rw [Nat.testBit_or]

/-! ## Splaying -/

/-- The binary digits of `j`, spread to the even positions. -/
def splay (j : Nat) : Nat :=
  if j = 0 then 0 else 4 * splay (j / 2) + j % 2

@[simp] theorem splay_zero : splay 0 = 0 := by
  rw [splay, if_pos rfl]

theorem splay_eq (j : Nat) : splay j = 4 * splay (j / 2) + j % 2 := by
  by_cases hj : j = 0
  · rw [hj, splay_zero]
  · rw [splay, if_neg hj]

theorem splay_bit (j : Nat) {b : Nat} (hb : b < 2) : splay (2 * j + b) = 4 * splay j + b := by
  have hdiv : (2 * j + b) / 2 = j := by omega
  have hmod : (2 * j + b) % 2 = b := by omega
  rw [splay_eq, hdiv, hmod]

/-- A high digit stays the highest. -/
theorem splay_high (k : Nat) {j r : Nat} (hj : j < 2 ^ k) (hr : r < 2) :
    splay (r * 2 ^ k + j) = r * 4 ^ k + splay j := by
  induction k generalizing j with
  | zero =>
    have hj0 : j = 0 := by omega
    have h := splay_bit 0 hr
    rw [hj0]
    simpa using h
  | succ k ih =>
    have hlow : r * 2 ^ (k + 1) + j = 2 * (r * 2 ^ k + j / 2) + j % 2 := by
      rw [Nat.pow_succ]
      have hassoc : r * (2 ^ k * 2) = 2 * (r * 2 ^ k) := by ring
      omega
    have hhalf : j / 2 < 2 ^ k := by
      rw [Nat.pow_succ] at hj
      omega
    have hpow : r * 4 ^ (k + 1) = 4 * (r * 4 ^ k) := by ring
    rw [hlow, splay_bit _ (by omega), ih hhalf, splay_eq j, hpow]
    omega

theorem splay_strictMono : StrictMono splay := by
  have hlt : ∀ j i, i < j → splay i < splay j := by
    intro j
    induction j using Nat.strong_induction_on with
    | _ j ih =>
      intro i hij
      rw [splay_eq i, splay_eq j]
      rcases Nat.lt_or_ge (i / 2) (j / 2) with hdiv | hdiv
      · have hhalf := ih (j / 2) (by omega) (i / 2) hdiv
        omega
      · have hsame : i / 2 = j / 2 := by omega
        rw [hsame]
        omega
  exact fun i j => hlt j i

theorem splay_lt_iff {k j : Nat} : splay j < 4 ^ k ↔ j < 2 ^ k := by
  have hpow : splay (2 ^ k) = 4 ^ k := by
    have h := splay_high k (Nat.two_pow_pos k) (r := 1) (by omega)
    simpa using h
  rw [← hpow]
  exact splay_strictMono.lt_iff_lt

/-- No binary digit of `n` stands at an odd position. -/
def EvenDigits (n : Nat) : Prop :=
  ∀ i, n.testBit (2 * i + 1) = false

/-- The splayed numbers are those. -/
theorem evenDigits_iff {n : Nat} : EvenDigits n ↔ ∃ j, splay j = n := by
  induction n using Nat.strong_induction_on with
  | _ n ih =>
    by_cases hn : n = 0
    · have hzero : EvenDigits n := fun i => by rw [hn, Nat.zero_testBit]
      exact iff_of_true hzero ⟨0, by rw [hn, splay_zero]⟩
    have hdigit : n % 4 < 4 := Nat.mod_lt _ (by omega)
    have hsplit : n = 4 * (n / 4) + n % 4 := by omega
    have hquot := ih (n / 4) (by omega)
    constructor
    · intro h
      have hlow : n % 4 < 2 := by
        have h0 := h 0
        rw [hsplit, testBit_digit _ hdigit, if_pos (by omega)] at h0
        generalize n % 4 = d at h0 hdigit
        revert h0
        interval_cases d <;> decide
      have hhigh : EvenDigits (n / 4) := by
        intro i
        have hi := h (i + 1)
        rw [hsplit, testBit_digit _ hdigit, if_neg (by omega)] at hi
        exact hi
      obtain ⟨j, hj⟩ := hquot.mp hhigh
      refine ⟨2 * j + n % 4, ?_⟩
      rw [splay_bit j hlow, hj]
      omega
    · rintro ⟨j, hj⟩ i
      have hj4 := splay_eq j
      have hmod : n % 4 = j % 2 := by omega
      have hdiv : splay (j / 2) = n / 4 := by omega
      rw [hsplit, testBit_digit _ hdigit]
      cases i with
      | zero =>
        rw [if_pos (by omega), hmod]
        rcases Nat.mod_two_eq_zero_or_one j with h | h <;> rw [h] <;> rfl
      | succ i =>
        rw [if_neg (by omega)]
        exact hquot.mpr ⟨j / 2, hdiv⟩ i

/-! ## The counter

Below `4 ^ k` the even positions are `evens k` and the odd ones `odds k`. -/

/-- `k` ones at the even positions. -/
def evens : Nat → Nat
  | 0 => 0
  | k + 1 => 4 * evens k + 1

/-- `k` ones at the odd positions. -/
def odds : Nat → Nat
  | 0 => 0
  | k + 1 => 4 * odds k + 2

theorem evens_lt (k : Nat) : evens k < 4 ^ k := by
  induction k with
  | zero => decide
  | succ k ih =>
    rw [evens, Nat.pow_succ]
    omega

theorem odds_lt (k : Nat) : odds k < 4 ^ k := by
  induction k with
  | zero => decide
  | succ k ih =>
    rw [odds, Nat.pow_succ]
    omega

/-- The greatest splayed number of `k` digits. -/
theorem splay_two_pow_sub_one (k : Nat) : splay (2 ^ k - 1) = evens k := by
  induction k with
  | zero => exact splay_zero
  | succ k ih =>
    have hpos := Nat.two_pow_pos k
    have hlow : 2 ^ (k + 1) - 1 = 2 * (2 ^ k - 1) + 1 := by
      rw [Nat.pow_succ]
      omega
    rw [hlow, splay_bit _ (by omega), ih, evens]

/-- The even digits of a number with its odd digits set. -/
theorem or_odds_and_evens (k v : Nat) : (v ||| odds k) &&& evens k = v &&& evens k := by
  induction k generalizing v with
  | zero => rw [evens, Nat.and_zero, Nat.and_zero]
  | succ k ih =>
    have hv : v = 4 * (v / 4) + v % 4 := by omega
    have hdigit : v % 4 < 4 := Nat.mod_lt _ (by omega)
    have hor : v % 4 ||| 2 < 4 := Nat.or_lt_two_pow (n := 2) hdigit (by omega)
    have hbit : (v % 4 ||| 2) &&& 1 = v % 4 &&& 1 := by
      generalize v % 4 = d at hdigit
      interval_cases d <;> rfl
    rw [hv, evens, odds, or_digit _ _ hdigit (by omega), and_digit _ _ hor (by omega),
      and_digit _ _ hdigit (by omega), ih, hbit]

/-- **The successor**: adding one to a number whose odd digits are set counts in
the even digits. -/
theorem splay_succ {k j v : Nat} (hv : v &&& evens k = splay j) (hj : j + 1 < 2 ^ k) :
    ((v ||| odds k) + 1) &&& evens k = splay (j + 1) := by
  induction k generalizing j v with
  | zero => omega
  | succ k ih =>
    have hsplit : v = 4 * (v / 4) + v % 4 := by omega
    have hdigit : v % 4 < 4 := Nat.mod_lt _ (by omega)
    have hand : v % 4 &&& 1 = v % 2 := by
      rw [Nat.and_one_is_mod]
      omega
    have hor : v % 4 ||| 2 = 2 + v % 2 := by
      have hmod : v % 2 = v % 4 % 2 := by omega
      rw [hmod]
      generalize v % 4 = d at hdigit
      interval_cases d <;> rfl
    rw [hsplit, evens, and_digit _ _ hdigit (by omega), hand, splay_eq j] at hv
    have hhigh : v / 4 &&& evens k = splay (j / 2) := by omega
    rw [Nat.pow_succ] at hj
    rw [hsplit, evens, odds, or_digit _ _ hdigit (by omega), hor]
    -- the last digit is 2 or 3; only from 3 does the addition carry
    rcases Nat.mod_two_eq_zero_or_one v with h0 | h1
    · have hnext : j + 1 = 2 * (j / 2) + 1 := by omega
      have hadd : 4 * (v / 4 ||| odds k) + (2 + v % 2) + 1 = 4 * (v / 4 ||| odds k) + 3 := by
        omega
      rw [hadd, and_digit _ _ (by omega) (by omega), or_odds_and_evens, hhigh, hnext,
        splay_bit _ (by omega)]
      rfl
    · have hnext : j + 1 = 2 * (j / 2 + 1) + 0 := by omega
      have hadd : 4 * (v / 4 ||| odds k) + (2 + v % 2) + 1
          = 4 * ((v / 4 ||| odds k) + 1) + 0 := by
        omega
      rw [hadd, and_digit _ _ (by omega) (by omega), ih hhigh (by omega), hnext,
        splay_bit _ (by omega), Nat.zero_and]

/-- Counting on stays below `4 ^ k`. -/
theorem or_odds_succ_lt {k j v : Nat} (hv : v &&& evens k = splay j) (hlt : v < 4 ^ k)
    (hj : j + 1 < 2 ^ k) : (v ||| odds k) + 1 < 4 ^ k := by
  have hpow : 4 ^ k = 2 ^ (2 * k) := (Nat.pow_mul 2 2 k).symm
  have hor : v ||| odds k < 4 ^ k := by
    rw [hpow] at hlt ⊢
    exact Nat.or_lt_two_pow hlt (hpow ▸ odds_lt k)
  -- at the greatest value all even digits are set, and `j` would be the last number
  by_contra hge
  have hmax : v ||| odds k = 4 ^ k - 1 := by omega
  have heven := or_odds_and_evens k v
  rw [hv, hmax, hpow, Nat.and_comm, Nat.and_two_pow_sub_one_of_lt_two_pow (hpow ▸ evens_lt k),
    ← splay_two_pow_sub_one] at heven
  have hlast := splay_strictMono.injective heven
  omega

/-! ## Interleaving -/

/-- The digits of `i` at the odd positions and those of `j` at the even ones. -/
def zindex (i j : Nat) : Nat :=
  2 * splay i + splay j

theorem zindex_bit (i j : Nat) {r c : Nat} (hr : r < 2) (hc : c < 2) :
    zindex (2 * i + r) (2 * j + c) = 4 * zindex i j + (2 * r + c) := by
  unfold zindex
  rw [splay_bit i hr, splay_bit j hc]
  omega

theorem zindex_eq (i j : Nat) :
    zindex i j = 4 * zindex (i / 2) (j / 2) + (2 * (i % 2) + j % 2) := by
  have h := zindex_bit (i / 2) (j / 2) (r := i % 2) (c := j % 2) (by omega) (by omega)
  have hi : 2 * (i / 2) + i % 2 = i := by omega
  have hj : 2 * (j / 2) + j % 2 = j := by omega
  rwa [hi, hj] at h

/-- A pair of high digits chooses one of four blocks. -/
theorem zindex_block (k : Nat) {i j r c : Nat} (hi : i < 2 ^ k) (hj : j < 2 ^ k)
    (hr : r < 2) (hc : c < 2) :
    zindex (r * 2 ^ k + i) (c * 2 ^ k + j) = (2 * r + c) * 4 ^ k + zindex i j := by
  unfold zindex
  rw [splay_high k hi hr, splay_high k hj hc]
  ring

theorem zindex_lt {k i j : Nat} (hi : i < 2 ^ k) (hj : j < 2 ^ k) : zindex i j < 4 ^ k := by
  induction k generalizing i j with
  | zero =>
    have hi0 : i = 0 := by omega
    have hj0 : j = 0 := by omega
    rw [hi0, hj0, zindex, splay_zero]
    decide
  | succ k ih =>
    rw [Nat.pow_succ] at hi hj
    have hhalf := ih (i := i / 2) (j := j / 2) (by omega) (by omega)
    have heq := zindex_eq i j
    rw [Nat.pow_succ]
    omega

/-- Every number below `4 ^ k` is an interleaving. -/
theorem exists_zindex {k n : Nat} (hn : n < 4 ^ k) :
    ∃ i j, i < 2 ^ k ∧ j < 2 ^ k ∧ zindex i j = n := by
  induction k generalizing n with
  | zero =>
    have hn0 : n = 0 := by omega
    exact ⟨0, 0, by decide, by decide, by rw [hn0, zindex, splay_zero]⟩
  | succ k ih =>
    rw [Nat.pow_succ] at hn
    obtain ⟨i, j, hi, hj, hij⟩ := ih (n := n / 4) (by omega)
    refine ⟨2 * i + n % 4 / 2, 2 * j + n % 2, ?_, ?_, ?_⟩
    · rw [Nat.pow_succ]
      omega
    · rw [Nat.pow_succ]
      omega
    · rw [zindex_bit i j (by omega) (by omega), hij]
      omega

/-- Masking out the row. -/
theorem zindex_and_evens {k : Nat} (i : Nat) {j : Nat} (hj : j < 2 ^ k) :
    zindex i j &&& evens k = splay j := by
  induction k generalizing i j with
  | zero =>
    have hj0 : j = 0 := by omega
    rw [evens, Nat.and_zero, hj0, splay_zero]
  | succ k ih =>
    rw [Nat.pow_succ] at hj
    have hbit : 2 * (i % 2) + j % 2 &&& 1 = j % 2 := by
      rw [Nat.and_one_is_mod]
      omega
    rw [zindex_eq i j, evens, and_digit _ _ (by omega) (by omega), ih _ (by omega), hbit,
      ← splay_eq]

/-- Masking out the column. -/
theorem zindex_and_odds {k i : Nat} (hi : i < 2 ^ k) (j : Nat) :
    zindex i j &&& odds k = 2 * splay i := by
  induction k generalizing i j with
  | zero =>
    have hi0 : i = 0 := by omega
    rw [odds, Nat.and_zero, hi0, splay_zero]
  | succ k ih =>
    rw [Nat.pow_succ] at hi
    have hbit : 2 * (i % 2) + j % 2 &&& 2 = 2 * (i % 2) := by
      rcases Nat.mod_two_eq_zero_or_one i with h | h <;>
        rcases Nat.mod_two_eq_zero_or_one j with h' | h' <;> rw [h, h'] <;> rfl
    rw [zindex_eq i j, odds, and_digit _ _ (by omega) (by omega), ih (by omega), hbit,
      splay_eq i]
    omega

/-- Putting a row and a column together. -/
theorem two_mul_splay_or_splay (i j : Nat) : 2 * splay i ||| splay j = zindex i j := by
  induction i using Nat.strong_induction_on generalizing j with
  | _ i ih =>
    by_cases hi : i = 0
    · rw [hi, zindex, splay_zero]
      simp
    have hrow : 2 * splay i = 4 * (2 * splay (i / 2)) + 2 * (i % 2) := by
      rw [splay_eq i]
      omega
    have hbit : 2 * (i % 2) ||| j % 2 = 2 * (i % 2) + j % 2 := by
      rcases Nat.mod_two_eq_zero_or_one i with h | h <;>
        rcases Nat.mod_two_eq_zero_or_one j with h' | h' <;> rw [h, h'] <;> rfl
    rw [hrow, splay_eq j, or_digit _ _ (by omega) (by omega), ih _ (by omega), hbit,
      ← zindex_eq]

end RustyHermit
