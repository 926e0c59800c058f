import RustyHermit.Lib.Bits
import RustyHermit.Lib.Iterator

/-!
# `SplayedBitsCounter` (`tests/matmul.rs`)

The counter walks along one axis of a matrix in Z-order: it counts in the bits at
the even positions. Its masks are 32 bits wide, and its values are those of a
`usize`: `enumeratesAxis_iff` says for which `max` it counts to the end. Past
0x5555_5555 it starts again at 0 and never ends (`isSome_call`).
-/

namespace RustyHermit.Demo

/-- `struct SplayedBitsCounter`. -/
structure SplayedBitsCounter where
  value : UInt64
  max : UInt64
deriving DecidableEq, Repr

namespace SplayedBitsCounter

/-- `SplayedBitsCounter::new`. -/
def new (max : UInt64) : SplayedBitsCounter :=
  { value := 0, max }

/-- `Iterator::next`. The addition wraps, as in the release profile; it can do so
only in a run that has started again at 0. -/
def next (self : SplayedBitsCounter) : Option UInt64 × SplayedBitsCounter :=
  let prev := self.value &&& 0x5555_5555
  if prev < self.max then
    (some prev, { self with value := (self.value ||| 0xaaaa_aaaa) + 1 })
  else
    (none, self)

/-- The first `n` numbers of the axis. -/
def axis (n : Nat) : List UInt64 :=
  (List.range n).map fun j => UInt64.ofNat (splay j)

/-- `max` is met by the first numbers of the axis, and by no others. -/
theorem exists_length (max : UInt64) : ∃ n, ∀ j, splay j < max.toNat ↔ j < n := by
  have hex : ∃ n, max.toNat ≤ splay n := ⟨_, splay_strictMono.le_apply⟩
  refine ⟨Nat.find hex, fun j => ?_⟩
  have h := splay_strictMono.lt_iff_lt (a := j) (b := Nat.find hex)
  constructor
  · intro hlt
    have hfind := Nat.find_spec hex
    omega
  · intro hj
    have hmin := Nat.find_min hex hj
    omega

/-! ## The masks are wide enough -/

/-- The state of the counter after `j` elements. -/
structure At (max : UInt64) (j : Nat) (c : SplayedBitsCounter) : Prop where
  max : c.max = max
  value : c.value.toNat &&& evens 16 = splay j
  lt : c.value.toNat < 4 ^ 16

theorem at_new (max : UInt64) : At max 0 (new max) where
  max := rfl
  value := by
    show 0 &&& evens 16 = splay 0
    rw [Nat.zero_and, splay_zero]
  lt := by
    show 0 < 4 ^ 16
    omega

/-- What the counter compares with `max`. -/
theorem At.prev {max : UInt64} {j : Nat} {c : SplayedBitsCounter} (h : At max j c) :
    (c.value &&& 0x5555_5555).toNat = splay j := by
  rw [UInt64.toNat_and]
  exact h.value

/-- One call. The addition does not overflow. -/
theorem At.step {max : UInt64} {j : Nat} {c : SplayedBitsCounter} (h : At max j c)
    (hj : j + 1 < 2 ^ 16) (hlt : splay j < max.toNat) :
    (next c).1 = some (UInt64.ofNat (splay j)) ∧ At max (j + 1) (next c).2 := by
  have hprev : c.value &&& 0x5555_5555 = UInt64.ofNat (splay j) := by
    rw [← h.prev, UInt64.ofNat_toNat]
  have hcmp : c.value &&& 0x5555_5555 < c.max := by
    rw [UInt64.lt_iff_toNat_lt, h.prev, h.max]
    exact hlt
  have hnext : next c = (some (UInt64.ofNat (splay j)),
      { c with value := (c.value ||| 0xaaaa_aaaa) + 1 }) := by
    rw [SplayedBitsCounter.next, if_pos hcmp, hprev]
  have hbound := or_odds_succ_lt h.value h.lt hj
  have hadd : ((c.value ||| 0xaaaa_aaaa) + 1).toNat = (c.value.toNat ||| odds 16) + 1 := by
    have hor : (c.value ||| 0xaaaa_aaaa).toNat = c.value.toNat ||| odds 16 := UInt64.toNat_or ..
    rw [UInt64.toNat_add, hor]
    exact Nat.mod_eq_of_lt (Nat.lt_trans hbound (by decide))
  rw [hnext]
  refine ⟨rfl, h.max, ?_, ?_⟩
  · show ((c.value ||| 0xaaaa_aaaa) + 1).toNat &&& evens 16 = splay (j + 1)
    rw [hadd]
    exact splay_succ h.value hj
  · show ((c.value ||| 0xaaaa_aaaa) + 1).toNat < 4 ^ 16
    rw [hadd]
    exact hbound

/-- The counter stays at the end. -/
theorem At.last {max : UInt64} {j : Nat} {c : SplayedBitsCounter} (h : At max j c)
    (hge : max.toNat ≤ splay j) : (next c).1 = none ∧ At max j (next c).2 := by
  have hcmp : ¬ c.value &&& 0x5555_5555 < c.max := by
    rw [UInt64.lt_iff_toNat_lt, h.prev, h.max]
    omega
  have hnext : next c = (none, c) := by
    rw [SplayedBitsCounter.next, if_neg hcmp]
  rw [hnext]
  exact ⟨rfl, h⟩

/-- **The counter walks the axis** up to a `max` that the masks cover. -/
theorem enumerates {max : UInt64} (hmax : max ≤ 0x5555_5555) {n : Nat}
    (hn : ∀ j, splay j < max.toNat ↔ j < n) :
    Iterator.Enumerates next (new max) (axis n) := by
  -- 0x5555_5555 is number 2 ^ 16 - 1, so `j + 1 < 2 ^ 16` as long as a number follows
  have hlen : n < 2 ^ 16 := by
    have hlast : splay (2 ^ 16 - 1) = 0x5555_5555 := splay_two_pow_sub_one 16
    have hmax' : max.toNat ≤ 0x5555_5555 := UInt64.le_iff_toNat_le.mp hmax
    by_contra hge
    have hlt := (hn (2 ^ 16 - 1)).mpr (by omega)
    omega
  have haxis : (axis n).length = n := by rw [axis, List.length_map, List.length_range]
  refine Iterator.enumerates_of_invariant (I := At max) (at_new max) ?_ ?_
  · intro j c x hx hat
    have hj : j < n := by
      have hlt := (List.getElem?_eq_some_iff.mp hx).1
      rwa [haxis] at hlt
    have hx' : x = UInt64.ofNat (splay j) := by
      rw [axis, List.getElem?_map, List.getElem?_range hj] at hx
      exact (Option.some.inj hx).symm
    rw [hx']
    exact hat.step (by omega) ((hn j).mpr hj)
  · intro c hat
    rw [haxis] at hat ⊢
    have hge : ¬ splay n < max.toNat := fun hlt => Nat.lt_irrefl n ((hn n).mp hlt)
    exact hat.last (by omega)

/-! ## The masks are too short -/

theorem after_max (c : SplayedBitsCounter) (n : Nat) :
    (Iterator.after next c n).max = c.max := by
  induction n with
  | zero => rfl
  | succ n ih =>
    show (next (Iterator.after next c n)).2.max = c.max
    rw [next]
    split <;> exact ih

/-- A `max` past the mask is never reached. -/
theorem isSome_call {max : UInt64} (hmax : 0x5555_5555 < max) (n : Nat) :
    (Iterator.call next (new max) n).isSome := by
  have hprev : ∀ value : UInt64, value &&& 0x5555_5555 < max := by
    intro value
    rw [UInt64.lt_iff_toNat_lt, UInt64.toNat_and] at *
    exact Nat.lt_of_le_of_lt Nat.and_le_right hmax
  have hmax' : (Iterator.after next (new max) n).max = max := after_max ..
  rw [Iterator.call, next, hmax', if_pos (hprev _)]
  rfl

/-! ## What should hold -/

/-- The counter gives the numbers below `max` without a digit at an odd position,
in increasing order, and then `None`; if `max` is a power of four, number `j` of them
is the splayed `j`. -/
structure EnumeratesAxis (max : UInt64) : Prop where
  calls : ∃ l : List UInt64, (∀ n, n ∈ l ↔ n < max ∧ EvenDigits n.toNat) ∧
    l.Pairwise (· < ·) ∧ Iterator.Enumerates next (new max) l
  power : ∀ k, max.toNat = 4 ^ k → ∀ j, Iterator.call next (new max) j =
    if j < 2 ^ k then some (UInt64.ofNat (splay j)) else none

theorem toNat_ofNat_splay {max : UInt64} {j : Nat} (h : splay j < max.toNat) :
    (UInt64.ofNat (splay j)).toNat = splay j :=
  UInt64.toNat_ofNat_of_lt' (Nat.lt_trans h max.toNat_lt)

theorem mem_axis {max : UInt64} {n : Nat} (hn : ∀ j, splay j < max.toNat ↔ j < n) (x : UInt64) :
    x ∈ axis n ↔ x < max ∧ EvenDigits x.toNat := by
  rw [axis, List.mem_map, UInt64.lt_iff_toNat_lt, evenDigits_iff]
  constructor
  · rintro ⟨j, hj, rfl⟩
    have hlt := (hn j).mpr (List.mem_range.mp hj)
    rw [toNat_ofNat_splay hlt]
    exact ⟨hlt, j, rfl⟩
  · rintro ⟨hlt, j, hj⟩
    rw [← hj] at hlt
    exact ⟨j, List.mem_range.mpr ((hn j).mp hlt), by rw [hj, UInt64.ofNat_toNat]⟩

theorem axis_pairwise {max : UInt64} {n : Nat} (hn : ∀ j, splay j < max.toNat ↔ j < n) :
    (axis n).Pairwise (· < ·) := by
  rw [axis, List.pairwise_map]
  refine List.Pairwise.imp_of_mem ?_ (List.pairwise_lt_range (n := n))
  intro i j hi hj hij
  have hi' := (hn i).mpr (List.mem_range.mp hi)
  have hj' := (hn j).mpr (List.mem_range.mp hj)
  rw [UInt64.lt_iff_toNat_lt, toNat_ofNat_splay hi', toNat_ofNat_splay hj']
  exact splay_strictMono hij

/-- **The counter enumerates the axis** exactly for the values of `max` that the
mask covers. -/
theorem enumeratesAxis_iff (max : UInt64) : EnumeratesAxis max ↔ max ≤ 0x5555_5555 := by
  constructor
  · intro h
    obtain ⟨l, -, -, hl⟩ := h.calls
    by_contra hmax
    have hsome := isSome_call (UInt64.not_le.mp hmax) l.length
    rw [hl l.length, List.getElem?_eq_none (Nat.le_refl _)] at hsome
    cases hsome
  · intro hmax
    obtain ⟨n, hn⟩ := exists_length max
    have henum := enumerates hmax hn
    refine ⟨⟨axis n, mem_axis hn, axis_pairwise hn, henum⟩, ?_⟩
    intro k hk j
    have hlt : j < n ↔ j < 2 ^ k := by rw [← hn j, hk, splay_lt_iff]
    rw [henum j, axis, List.getElem?_map]
    by_cases hj : j < 2 ^ k
    · rw [if_pos hj, List.getElem?_range (hlt.mpr hj)]
      rfl
    · have hge : n ≤ j := by omega
      rw [if_neg hj, List.getElem?_eq_none (by rwa [List.length_range])]
      rfl

/-- At 4 ^ 16 the counter should stop after 2 ^ 16 elements. -/
theorem not_enumeratesAxis_four_pow_sixteen : ¬ EnumeratesAxis 0x1_0000_0000 := by
  intro h
  have hnone := h.power 16 rfl (2 ^ 16)
  have hsome : (Iterator.call next (new 0x1_0000_0000) (2 ^ 16)).isSome :=
    isSome_call (by decide) _
  rw [hnone, if_neg (Nat.lt_irrefl _)] at hsome
  cases hsome

end SplayedBitsCounter

end RustyHermit.Demo
