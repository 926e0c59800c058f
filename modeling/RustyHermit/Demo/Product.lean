import Mathlib.LinearAlgebra.Matrix.Notation
import RustyHermit.Lib.Slice
import RustyHermit.Demo.Matmul

/-!
# What `matmulz` and `matmul_strassen` compute

`matmul_correct`: of two matrices in Z-order, both leave their product in Z-order,
whatever `dest` and the scratch space held before.

The proof goes by the functions of the source: one lemma says what each of them does
to a list in terms of the matrix that the list holds. `Multiplies k mul` is the
specification of a product of matrices of `k` digits; `seq_matmulz` meets it as far as
the masks reach (`seqMatmulz_multiplies`), and quartering adds a digit to it.
-/

namespace RustyHermit.Demo

open Matrix

universe u

variable {R : Type u} {k : Nat}

/-! ## Slices -/

theorem zipForEach_eq (f : R → R → R) {src dest : List R} (h : src.length = dest.length) :
    zipForEach f dest src = List.zipWith f dest src := by
  induction dest generalizing src with
  | nil => rw [zipForEach, List.zipWith_nil_left]; simp
  | cons d dest ih =>
    cases src with
    | nil => cases h
    | cons s src =>
      rw [zipForEach, List.zipWith_cons_cons, ih (Nat.succ.inj h)]

theorem zipForEach_append (f : R → R → R) {d₁ s₁ : List R} (d₂ s₂ : List R)
    (h : d₁.length = s₁.length) :
    zipForEach f (d₁ ++ d₂) (s₁ ++ s₂) = zipForEach f d₁ s₁ ++ zipForEach f d₂ s₂ := by
  induction d₁ generalizing s₁ with
  | nil =>
    have hs : s₁ = [] := List.length_eq_zero_iff.mp h.symm
    rw [hs]
    rfl
  | cons d d₁ ih =>
    cases s₁ with
    | nil => cases h
    | cons s s₁ =>
      rw [List.cons_append, List.cons_append, zipForEach, ih (Nat.succ.inj h), zipForEach]
      rfl

theorem rmatsum_zorder [Add R] {src dest : List R} {S D : BinaryMatrix k R}
    (hs : ZOrder k src S) (hd : ZOrder k dest D) : ZOrder k (rmatsum src dest) (D + S) := by
  rw [rmatsum, zipForEach_eq _ (hs.length.trans hd.length.symm)]
  exact hd.zipWith _ hs

theorem rmatsub_zorder [Sub R] {src dest : List R} {S D : BinaryMatrix k R}
    (hs : ZOrder k src S) (hd : ZOrder k dest D) : ZOrder k (rmatsub src dest) (D - S) := by
  rw [rmatsub, zipForEach_eq _ (hs.length.trans hd.length.symm)]
  exact hd.zipWith _ hs

theorem length_rawBuffer (raw : Nat → R) (n : Nat) : (rawBuffer raw n).length = n := by
  rw [rawBuffer, List.length_map, List.length_range]

/-- Copying overwrites everything. -/
theorem rcopy_eq {fuel : Nat} {src dest : List R} (h : src.length = dest.length)
    (hfuel : dest.length ≤ LINEAR_CHUNK * 2 ^ fuel) : rcopy (fuel + 1) src dest = some src := by
  induction fuel generalizing src dest with
  | zero => rw [rcopy, if_pos (by omega), if_pos h]
  | succ fuel ih =>
    rw [rcopy]
    by_cases hle : dest.length ≤ LINEAR_CHUNK
    · rw [if_pos hle, if_pos h]
    · have hbound : dest.length ≤ 2 * (LINEAR_CHUNK * 2 ^ fuel) := by
        rw [Nat.pow_succ, ← Nat.mul_assoc] at hfuel
        omega
      have heven : LINEAR_CHUNK * 2 ^ fuel = 2 * (32 * 1024 * 2 ^ fuel) := by
        unfold LINEAR_CHUNK
        omega
      have hfirst : rcopy (fuel + 1) (src.take (dest.length / 2)) (dest.take (dest.length / 2))
          = some (src.take (dest.length / 2)) := by
        refine ih ?_ ?_
        · rw [List.length_take, List.length_take, h]
        · rw [List.length_take]
          omega
      have hsecond : rcopy (fuel + 1) (src.drop (dest.length / 2)) (dest.drop (dest.length / 2))
          = some (src.drop (dest.length / 2)) := by
        refine ih ?_ ?_
        · rw [List.length_drop, List.length_drop, h]
        · rw [List.length_drop]
          omega
      rw [if_neg hle, if_neg (by omega)]
      simp only [hfirst, hsecond]
      exact congrArg some (List.take_append_drop _ src)

theorem quarterChunks_append {a₁ a₂ a₃ a₄ : List R} {m : Nat} (h₁ : a₁.length = m)
    (h₂ : a₂.length = m) (h₃ : a₃.length = m) (h₄ : a₄.length = m) :
    quarterChunks ((a₁ ++ a₂) ++ (a₃ ++ a₄)) = (a₁, a₂, a₃, a₄) := by
  have hlength : ((a₁ ++ a₂) ++ (a₃ ++ a₄)).length = 4 * m := by
    rw [List.length_append, List.length_append, List.length_append]
    omega
  have hmid : ((a₁ ++ a₂) ++ (a₃ ++ a₄)).length / 2 = (a₁ ++ a₂).length := by
    rw [hlength, List.length_append]
    omega
  have hquarter : (a₁ ++ a₂).length / 2 = m := by
    rw [List.length_append]
    omega
  unfold quarterChunks
  simp only [hmid, hquarter, List.splitAt_eq, List.take_left, List.drop_left]
  rw [List.take_left' h₁, List.drop_left' h₁, List.take_left' h₃, List.drop_left' h₃]

/-- The four parts of a slice have a quarter of its length. -/
theorem exists_quarters {a : List R} {m : Nat} (h : a.length = 4 * m) :
    ∃ a₁ a₂ a₃ a₄ : List R, a₁.length = m ∧ a₂.length = m ∧ a₃.length = m ∧ a₄.length = m ∧
      a = (a₁ ++ a₂) ++ (a₃ ++ a₄) := by
  refine ⟨a.take m, (a.drop m).take m, (a.drop (2 * m)).take m, a.drop (3 * m), ?_, ?_, ?_, ?_, ?_⟩
  · rw [List.length_take]
    omega
  · rw [List.length_take, List.length_drop]
    omega
  · rw [List.length_take, List.length_drop]
    omega
  · rw [List.length_drop]
    omega
  · have hlast : a.drop (3 * m) = (a.drop (2 * m)).drop m := by
      rw [List.drop_drop]
      congr 1
      omega
    have hhalf : a.drop (2 * m) = (a.drop m).drop m := by
      rw [List.drop_drop]
      congr 1
      omega
    rw [hlast, List.take_append_drop, hhalf, List.append_assoc, List.take_append_drop,
      List.take_append_drop]

/-- **The quarters of a matrix in Z-order.** -/
theorem zorder_quarters {a : List R} {A : BinaryMatrix (k + 1) R} (h : ZOrder (k + 1) a A) :
    ∃ a₁ a₂ a₃ a₄ : List R, quarterChunks a = (a₁, a₂, a₃, a₄) ∧
      ∀ r c, ZOrder k (chunk a₁ a₂ a₃ a₄ r c) (quarter A r c) := by
  have hlength : a.length = 4 * 4 ^ k := by
    rw [h.length, Nat.pow_succ]
    omega
  obtain ⟨a₁, a₂, a₃, a₄, h₁, h₂, h₃, h₄, rfl⟩ := exists_quarters hlength
  exact ⟨a₁, a₂, a₃, a₄, quarterChunks_append h₁ h₂ h₃ h₄, (zorder_append h₁ h₂ h₃ h₄).mp h⟩

/-- Putting four quarters together. -/
theorem zorder_of_quarters {a₁ a₂ a₃ a₄ : List R} {A : BinaryMatrix (k + 1) R}
    (h : ∀ r c, ZOrder k (chunk a₁ a₂ a₃ a₄ r c) (quarter A r c)) :
    ZOrder (k + 1) ((a₁ ++ a₂) ++ (a₃ ++ a₄)) A :=
  (zorder_append (h 0 0).length (h 0 1).length (h 1 0).length (h 1 1).length).mpr h

/-! ## `seq_matmulz` -/

/-- A sum over the axis. -/
theorem foldlM_axis [AddCommMonoid R] {body : R → UInt64 → Option R} {g : Nat → R} (n : Nat)
    (h : ∀ t, t < n → ∀ sum, body sum (UInt64.ofNat (splay t)) = some (sum + g t)) :
    (SplayedBitsCounter.axis n).foldlM body 0 = some (∑ t ∈ Finset.range n, g t) := by
  rw [SplayedBitsCounter.axis, List.foldlM_map,
    foldlM_add (fun t ht => h t (List.mem_range.mp ht)) 0, zero_add]
  rfl

/-- Where the masks and shifts of the inner loop lead. -/
theorem seq_index {i j t : Nat} (hk : k ≤ 15) (hi : i < 2 ^ k) (hj : j < 2 ^ k) (ht : t < 2 ^ k) :
    ((UInt64.ofNat (zindex i j) &&& 0xaaaa_aaaa) ||| UInt64.ofNat (splay t)).toNat = zindex i t ∧
    (UInt64.ofNat (splay t) <<< 1 ||| (UInt64.ofNat (zindex i j) &&& 0x5555_5555)).toNat
      = zindex t j := by
  have hpow : 2 ^ k ≤ 2 ^ 15 := Nat.pow_le_pow_right (by omega) hk
  have hij : zindex i j < 4 ^ 15 := zindex_lt (Nat.lt_of_lt_of_le hi hpow) (by omega)
  have hsplay : splay t < 4 ^ 15 := splay_lt_iff.mpr (Nat.lt_of_lt_of_le ht hpow)
  have hijNat : (UInt64.ofNat (zindex i j)).toNat = zindex i j :=
    UInt64.toNat_ofNat_of_lt' (Nat.lt_trans hij (by decide))
  have hsplayNat : (UInt64.ofNat (splay t)).toNat = splay t :=
    UInt64.toNat_ofNat_of_lt' (Nat.lt_trans hsplay (by decide))
  have hrow : zindex i j &&& 0xaaaa_aaaa = 2 * splay i :=
    zindex_and_odds (k := 16) (by omega) j
  have hcolumn : zindex i j &&& 0x5555_5555 = splay j :=
    zindex_and_evens (k := 16) i (by omega)
  have hshift : (UInt64.ofNat (splay t) <<< 1).toNat = 2 * splay t := by
    have hone : (1 : UInt64).toNat % 64 = 1 := rfl
    rw [UInt64.toNat_shiftLeft, hsplayNat, hone, Nat.shiftLeft_eq]
    omega
  constructor
  · rw [UInt64.toNat_or, UInt64.toNat_and, hijNat, hsplayNat]
    exact (congrArg (· ||| splay t) hrow).trans (two_mul_splay_or_splay i t)
  · rw [UInt64.toNat_or, UInt64.toNat_and, hijNat, hshift]
    exact (congrArg (2 * splay t ||| ·) hcolumn).trans (two_mul_splay_or_splay t j)

/-- The counter that the inner loop runs. -/
theorem enumerates_four_pow (hk : k ≤ 15) :
    Iterator.Enumerates SplayedBitsCounter.next (.new (UInt64.ofNat (4 ^ k)))
      (SplayedBitsCounter.axis (2 ^ k)) := by
  have hpow : 4 ^ k ≤ 4 ^ 15 := Nat.pow_le_pow_right (by omega) hk
  have hnat : (UInt64.ofNat (4 ^ k)).toNat = 4 ^ k :=
    UInt64.toNat_ofNat_of_lt' (Nat.lt_of_le_of_lt hpow (by decide))
  refine SplayedBitsCounter.enumerates ?_ fun j => ?_
  · rw [UInt64.le_iff_toNat_le, hnat]
    exact Nat.le_trans hpow (by decide)
  · rw [hnat]
    exact splay_lt_iff

section Ring

variable [Ring R]

/-- **The inner loop** computes an entry of the product. -/
theorem seqEntry_eq {a b : List R} {A B : BinaryMatrix k R} {fuel : Nat} (hk : k ≤ 15)
    (ha : ZOrder k a A) (hb : ZOrder k b B) (hfuel : 2 ^ k < fuel) (i j : Fin (2 ^ k)) :
    seqEntry fuel a b (UInt64.ofNat (4 ^ k)) (UInt64.ofNat (zindex i j)) = some ((A * B) i j) := by
  -- the products that the loop adds up, and 0 where there are none
  let g : Nat → R := fun t => if ht : t < 2 ^ k then A i ⟨t, ht⟩ * B ⟨t, ht⟩ j else 0
  have hlength : (SplayedBitsCounter.axis (2 ^ k)).length < fuel := by
    rw [SplayedBitsCounter.axis, List.length_map, List.length_range]
    exact hfuel
  have hsum : ∑ t ∈ Finset.range (2 ^ k), g t = (A * B) i j := by
    rw [Matrix.mul_apply, Finset.sum_range]
    refine Finset.sum_congr rfl fun t _ => ?_
    exact dif_pos t.isLt
  unfold seqEntry
  rw [(enumerates_four_pow hk).forLoop _ hlength, ← hsum]
  refine foldlM_axis (2 ^ k) fun t ht acc => ?_
  obtain ⟨hrow, hcolumn⟩ := seq_index hk i.isLt j.isLt ht
  have hx := ha.entry i ⟨t, ht⟩
  have hy := hb.entry ⟨t, ht⟩ j
  have hg : g t = A i ⟨t, ht⟩ * B ⟨t, ht⟩ j := dif_pos ht
  rw [hrow, hcolumn, hx, hy, hg]
  rfl

/-- The assertion of `seq_matmulz`: the length is a power of four. -/
theorem four_pow_asserted (hk : k ≤ 15) :
    countOnes (UInt64.ofNat (4 ^ k)) = 1 ∧ trailingZeros (UInt64.ofNat (4 ^ k)) % 2 = 0 := by
  interval_cases k <;> decide

/-- What a product of matrices with `k` digits has to do: the result does not depend on
`dest`. -/
def Multiplies (k : Nat) (mul : Multiply R) : Prop :=
  ∀ (call : List Nat) (a b dest : List R) (A B : BinaryMatrix k R),
    ZOrder k a A → ZOrder k b B → dest.length = 4 ^ k →
    ∃ c, mul call a b dest = some c ∧ ZOrder k c (A * B)

/-- **`seq_matmulz`**, as far as its masks reach. -/
theorem seqMatmulz_multiplies {fuel : Nat} (hk : k ≤ 15) (hfuel : 2 ^ k < fuel) :
    Multiplies k fun _ a b (dest : List R) => seqMatmulz fuel a b dest := by
  intro call a b dest A B ha hb hdest
  let dest' := dest.map fun _ => (0 : R)
  let entry : R × Nat → Option R := fun d =>
    seqEntry fuel a b (UInt64.ofNat dest'.length) (UInt64.ofNat d.2)
  have hdest' : dest'.length = 4 ^ k := by rw [List.length_map, hdest]
  have hentry : ∀ (d : R) (i j : Fin (2 ^ k)), entry (d, zindex i j) = some ((A * B) i j) := by
    intro d i j
    show seqEntry fuel a b (UInt64.ofNat dest'.length) (UInt64.ofNat (zindex i j)) = _
    rw [hdest']
    exact seqEntry_eq hk ha hb hfuel i j
  have hall : ∀ d ∈ dest'.zipIdx, entry d = some ((entry d).getD 0) := by
    intro d hd
    have hlt : d.2 < 4 ^ k := by
      have hmem := List.snd_lt_of_mem_zipIdx hd
      rwa [hdest'] at hmem
    obtain ⟨i, j, hi, hj, hij⟩ := exists_zindex hlt
    have hd' := hentry d.1 ⟨i, hi⟩ ⟨j, hj⟩
    rw [hij] at hd'
    rw [hd']
    rfl
  refine ⟨dest'.zipIdx.map fun d => (entry d).getD 0, ?_, ?_, fun i j => ?_⟩
  · have hlengths : a.length = b.length ∧ a.length = dest.length := by
      rw [ha.length, hb.length, hdest]
      exact ⟨rfl, rfl⟩
    have hassert := four_pow_asserted hk
    rw [← ha.length] at hassert
    show seqMatmulz fuel a b dest = _
    rw [seqMatmulz, if_neg (not_not.mpr hlengths), if_neg (not_not.mpr hassert)]
    exact mapM_eq_some_map hall
  · rw [List.length_map, List.length_zipIdx, hdest']
  · have hlt : zindex i j < dest'.length := by
      rw [hdest']
      exact zindex_lt i.isLt j.isLt
    rw [List.getElem?_map, List.getElem?_zipIdx, List.getElem?_eq_getElem hlt]
    show some ((entry (dest'[zindex i j], 0 + zindex i j)).getD 0) = _
    rw [Nat.zero_add, hentry]
    rfl

/-! ## `matmulz` -/

/-- The switch to `seq_matmulz` comes while its masks reach. -/
theorem le_five_of_le_mult_chunk (h : 4 ^ k ≤ MULT_CHUNK) : k ≤ 5 := by
  by_contra hk
  have hpow : 4 ^ 6 ≤ 4 ^ k := Nat.pow_le_pow_right (by omega) (by omega)
  exact absurd (Nat.le_trans hpow h) (by decide)

/-- Below the switch. -/
theorem small_multiplies {fuel : Nat} (h : 4 ^ k ≤ MULT_CHUNK) (hfuel : 32 < fuel) :
    Multiplies k fun _ a b (dest : List R) => seqMatmulz fuel a b dest := by
  have hk := le_five_of_le_mult_chunk h
  have hpow : 2 ^ k ≤ 2 ^ 5 := Nat.pow_le_pow_right (by omega) hk
  exact seqMatmulz_multiplies (by omega) (by omega)

/-- What `matmulz` and `matmul_strassen` have in common: up to `MULT_CHUNK` entries they
are `seq_matmulz`, and above a product of quarters adds a digit. -/
theorem multiplies_of_quarters {mul : Nat → Multiply R} {cost : Nat} (hcost : 0 < cost)
    (hsmall : ∀ fuel call (a b dest : List R), a.length ≤ MULT_CHUNK →
      mul (fuel + 1) call a b dest = seqMatmulz (fuel + 1) a b dest)
    (hquarters : ∀ k fuel, ¬ 4 ^ (k + 1) ≤ MULT_CHUNK → cost * k + 33 ≤ fuel →
      Multiplies k (mul fuel) → Multiplies (k + 1) (mul (fuel + 1)))
    {fuel : Nat} (hfuel : cost * k + 33 ≤ fuel) : Multiplies k (mul fuel) := by
  have hseq : ∀ k fuel, 4 ^ k ≤ MULT_CHUNK → 32 ≤ fuel → Multiplies k (mul (fuel + 1)) := by
    intro k fuel hle hfuel call a b dest A B ha hb hdest
    rw [hsmall fuel call a b dest (ha.length.trans_le hle)]
    exact small_multiplies hle (by omega) call a b dest A B ha hb hdest
  induction k generalizing fuel with
  | zero =>
    obtain ⟨fuel, rfl⟩ := Nat.exists_eq_add_one.mpr (show 0 < fuel by omega)
    exact hseq 0 fuel (by decide) (by omega)
  | succ k ih =>
    obtain ⟨fuel, rfl⟩ := Nat.exists_eq_add_one.mpr (show 0 < fuel by omega)
    rw [Nat.mul_succ] at hfuel
    by_cases hle : 4 ^ (k + 1) ≤ MULT_CHUNK
    · exact hseq (k + 1) fuel hle (by omega)
    · exact hquarters k fuel hle (by omega) (ih (by omega))

theorem matmulz_multiplies (raw : Scratch R) {fuel : Nat} (hfuel : k + 33 ≤ fuel) :
    Multiplies k (matmulz raw fuel) := by
  refine multiplies_of_quarters Nat.one_pos
    (fun fuel call a b dest hle => ?_) (fun k fuel hle _ mul => ?_) (by omega)
  · rw [matmulz, if_pos hle]
  · intro call a b dest A B ha hb hdest
    rw [matmulz, ha.length]
    have hdest' : dest.length = 4 * 4 ^ k := by
      rw [hdest, Nat.pow_succ]
      omega
    obtain ⟨a₁, a₂, a₃, a₄, haq, ha'⟩ := zorder_quarters ha
    obtain ⟨b₁, b₂, b₃, b₄, hbq, hb'⟩ := zorder_quarters hb
    obtain ⟨d₁, d₂, d₃, d₄, hd₁, hd₂, hd₃, hd₄, rfl⟩ := exists_quarters hdest'
    obtain ⟨t₁, t₂, t₃, t₄, ht₁, ht₂, ht₃, ht₄, htmp⟩ :=
      exists_quarters ((length_rawBuffer (raw call) _).trans hdest')
    -- the eight products of quarters
    obtain ⟨p₁, hp₁, hP₁⟩ := mul (1 :: call) _ _ d₁ _ _ (ha' 0 0) (hb' 0 0) hd₁
    obtain ⟨p₂, hp₂, hP₂⟩ := mul (2 :: call) _ _ d₂ _ _ (ha' 0 0) (hb' 0 1) hd₂
    obtain ⟨p₃, hp₃, hP₃⟩ := mul (3 :: call) _ _ d₃ _ _ (ha' 1 0) (hb' 0 0) hd₃
    obtain ⟨p₄, hp₄, hP₄⟩ := mul (4 :: call) _ _ d₄ _ _ (ha' 1 0) (hb' 0 1) hd₄
    obtain ⟨q₁, hq₁, hQ₁⟩ := mul (5 :: call) _ _ t₁ _ _ (ha' 0 1) (hb' 1 0) ht₁
    obtain ⟨q₂, hq₂, hQ₂⟩ := mul (6 :: call) _ _ t₂ _ _ (ha' 0 1) (hb' 1 1) ht₂
    obtain ⟨q₃, hq₃, hQ₃⟩ := mul (7 :: call) _ _ t₃ _ _ (ha' 1 1) (hb' 1 0) ht₃
    obtain ⟨q₄, hq₄, hQ₄⟩ := mul (8 :: call) _ _ t₄ _ _ (ha' 1 1) (hb' 1 1) ht₄
    dsimp only [chunk] at hp₁ hp₂ hp₃ hp₄ hq₁ hq₂ hq₃ hq₄
    refine ⟨rmatsum ((q₁ ++ q₂) ++ (q₃ ++ q₄)) ((p₁ ++ p₂) ++ (p₃ ++ p₄)), ?_, ?_⟩
    · rw [if_neg hle]
      simp only [haq, hbq, htmp, quarterChunks_append hd₁ hd₂ hd₃ hd₄,
        quarterChunks_append ht₁ ht₂ ht₃ ht₄, hp₁, hp₂, hp₃, hp₄, hq₁, hq₂, hq₃, hq₄]
      rfl
    · have h₁ := hP₁.length.trans hQ₁.length.symm
      have h₃ := hP₃.length.trans hQ₃.length.symm
      have hhalf : (p₁ ++ p₂).length = (q₁ ++ q₂).length := by
        rw [List.length_append, List.length_append, h₁, hP₂.length, hQ₂.length]
      rw [rmatsum, zipForEach_append _ _ _ hhalf, zipForEach_append _ _ _ h₁,
        zipForEach_append _ _ _ h₃]
      refine zorder_of_quarters fun r c => ?_
      rw [quarter_mul]
      match r, c with
      | 0, 0 => exact rmatsum_zorder hQ₁ hP₁
      | 0, 1 => exact rmatsum_zorder hQ₂ hP₂
      | 1, 0 => exact rmatsum_zorder hQ₃ hP₃
      | 1, 1 => exact rmatsum_zorder hQ₄ hP₄

/-! ## `matmul_strassen` -/

section Strassen

variable (raw : Scratch R) {fuel : Nat} (call : List Nat)

omit [Ring R] in
theorem rcopy_zorder {src dest : List R} {S : BinaryMatrix k R} (hfuel : 2 * k < fuel)
    (hs : ZOrder k src S) (hdest : dest.length = 4 ^ k) : rcopy fuel src dest = some src := by
  obtain ⟨fuel, rfl⟩ := Nat.exists_eq_add_one.mpr (Nat.zero_lt_of_lt hfuel)
  have hpow : 4 ^ k = 2 ^ (2 * k) := (Nat.pow_mul 2 2 k).symm
  have hmono : 2 ^ (2 * k) ≤ 2 ^ fuel := Nat.pow_le_pow_right (by omega) (by omega)
  refine rcopy_eq (hs.length.trans hdest.symm) ?_
  unfold LINEAR_CHUNK
  omega

theorem rtmpSum_zorder {a b : List R} {A B : BinaryMatrix k R} (hfuel : 2 * k < fuel)
    (ha : ZOrder k a A) (hb : ZOrder k b B) :
    ∃ c, rtmpSum raw fuel call a b = some c ∧ ZOrder k c (A + B) := by
  have hraw := (length_rawBuffer (raw call) a.length).trans ha.length
  refine ⟨rmatsum b a, ?_, rmatsum_zorder hb ha⟩
  rw [rtmpSum, rcopy_zorder hfuel ha hraw]
  rfl

theorem rtmpSub_zorder {a b : List R} {A B : BinaryMatrix k R} (hfuel : 2 * k < fuel)
    (ha : ZOrder k a A) (hb : ZOrder k b B) :
    ∃ c, rtmpSub raw fuel call a b = some c ∧ ZOrder k c (A - B) := by
  have hraw := (length_rawBuffer (raw call) a.length).trans ha.length
  refine ⟨rmatsub b a, ?_, rmatsub_zorder hb ha⟩
  rw [rtmpSub, rcopy_zorder hfuel ha hraw]
  rfl

theorem strassenSumSub_zorder {a b c s dest : List R} {A B C S : BinaryMatrix k R}
    (hfuel : 2 * k < fuel) (ha : ZOrder k a A) (hb : ZOrder k b B) (hc : ZOrder k c C)
    (hs : ZOrder k s S) (hdest : dest.length = 4 ^ k) :
    ∃ e, strassenSumSub fuel a b c s dest = some e ∧ ZOrder k e (A + B + C - S) := by
  refine ⟨rmatsub s (rmatsum c (rmatsum b a)), ?_,
    rmatsub_zorder hs (rmatsum_zorder hc (rmatsum_zorder hb ha))⟩
  rw [strassenSumSub, rcopy_zorder hfuel ha hdest]
  rfl

theorem strassenSum_zorder {a b dest : List R} {A B : BinaryMatrix k R}
    (hfuel : 2 * k < fuel) (ha : ZOrder k a A) (hb : ZOrder k b B)
    (hdest : dest.length = 4 ^ k) :
    ∃ e, strassenSum fuel a b dest = some e ∧ ZOrder k e (A + B) := by
  refine ⟨rmatsum b a, ?_, rmatsum_zorder hb ha⟩
  rw [strassenSum, rcopy_zorder hfuel ha hdest]
  rfl

variable {mul : Multiply R}

theorem strassenAdd2Mul_zorder {a1 a2 b1 b2 : List R} {A₁ A₂ B₁ B₂ : BinaryMatrix k R}
    (hmul : Multiplies k mul) (hfuel : 2 * k < fuel) (ha1 : ZOrder k a1 A₁)
    (ha2 : ZOrder k a2 A₂) (hb1 : ZOrder k b1 B₁) (hb2 : ZOrder k b2 B₂) :
    ∃ c, strassenAdd2Mul raw fuel mul call a1 a2 b1 b2 = some c ∧
      ZOrder k c ((A₁ + A₂) * (B₁ + B₂)) := by
  obtain ⟨a, ha, hA⟩ := rtmpSum_zorder raw (1 :: call) hfuel ha1 ha2
  obtain ⟨b, hb, hB⟩ := rtmpSum_zorder raw (2 :: call) hfuel hb1 hb2
  obtain ⟨c, hc, hC⟩ := hmul (3 :: call) a b _ _ _ hA hB
    ((length_rawBuffer (raw (0 :: call)) _).trans ha1.length)
  refine ⟨c, ?_, hC⟩
  rw [strassenAdd2Mul, ha, hb]
  exact hc

theorem strassenSubAddMul_zorder {a1 a2 b1 b2 : List R} {A₁ A₂ B₁ B₂ : BinaryMatrix k R}
    (hmul : Multiplies k mul) (hfuel : 2 * k < fuel) (ha1 : ZOrder k a1 A₁)
    (ha2 : ZOrder k a2 A₂) (hb1 : ZOrder k b1 B₁) (hb2 : ZOrder k b2 B₂) :
    ∃ c, strassenSubAddMul raw fuel mul call a1 a2 b1 b2 = some c ∧
      ZOrder k c ((A₁ - A₂) * (B₁ + B₂)) := by
  obtain ⟨a, ha, hA⟩ := rtmpSub_zorder raw (1 :: call) hfuel ha1 ha2
  obtain ⟨b, hb, hB⟩ := rtmpSum_zorder raw (2 :: call) hfuel hb1 hb2
  obtain ⟨c, hc, hC⟩ := hmul (3 :: call) a b _ _ _ hA hB
    ((length_rawBuffer (raw (0 :: call)) _).trans ha1.length)
  refine ⟨c, ?_, hC⟩
  rw [strassenSubAddMul, ha, hb]
  exact hc

theorem strassenAddMul_zorder {a1 a2 b : List R} {A₁ A₂ B : BinaryMatrix k R}
    (hmul : Multiplies k mul) (hfuel : 2 * k < fuel) (ha1 : ZOrder k a1 A₁)
    (ha2 : ZOrder k a2 A₂) (hb : ZOrder k b B) :
    ∃ c, strassenAddMul raw fuel mul call a1 a2 b = some c ∧
      ZOrder k c ((A₁ + A₂) * B) := by
  obtain ⟨a, ha, hA⟩ := rtmpSum_zorder raw (1 :: call) hfuel ha1 ha2
  obtain ⟨c, hc, hC⟩ := hmul (3 :: call) a b _ _ _ hA hb
    ((length_rawBuffer (raw (0 :: call)) _).trans ha1.length)
  refine ⟨c, ?_, hC⟩
  rw [strassenAddMul, ha]
  exact hc

theorem strassenSubMul_zorder {b1 b2 a : List R} {B₁ B₂ A : BinaryMatrix k R}
    (hmul : Multiplies k mul) (hfuel : 2 * k < fuel) (hb1 : ZOrder k b1 B₁)
    (hb2 : ZOrder k b2 B₂) (ha : ZOrder k a A) :
    ∃ c, strassenSubMul raw fuel mul call b1 b2 a = some c ∧
      ZOrder k c (A * (B₁ - B₂)) := by
  obtain ⟨b, hb, hB⟩ := rtmpSub_zorder raw (1 :: call) hfuel hb1 hb2
  obtain ⟨c, hc, hC⟩ := hmul (3 :: call) a b _ _ _ ha hB
    ((length_rawBuffer (raw (0 :: call)) _).trans ha.length)
  refine ⟨c, ?_, hC⟩
  rw [strassenSubMul, hb]
  exact hc

theorem matmulStrassen_multiplies (hfuel : 2 * k + 33 ≤ fuel) :
    Multiplies k (matmulStrassen raw fuel) := by
  refine multiplies_of_quarters Nat.two_pos
    (fun fuel call a b dest hle => ?_) (fun k fuel hle hfuel mul => ?_) hfuel
  · rw [matmulStrassen, if_pos hle]
  · intro call a b dest A B ha hb hdest
    rw [matmulStrassen, ha.length]
    have hf : 2 * k < fuel := by omega
    have hdest' : dest.length = 4 * 4 ^ k := by
      rw [hdest, Nat.pow_succ]
      omega
    obtain ⟨a₁, a₂, a₃, a₄, haq, ha'⟩ := zorder_quarters ha
    obtain ⟨b₁, b₂, b₃, b₄, hbq, hb'⟩ := zorder_quarters hb
    obtain ⟨d₁, d₂, d₃, d₄, hd₁, hd₂, hd₃, hd₄, rfl⟩ := exists_quarters hdest'
    have a11 : ZOrder k a₁ (quarter A 0 0) := ha' 0 0
    have a12 : ZOrder k a₂ (quarter A 0 1) := ha' 0 1
    have a21 : ZOrder k a₃ (quarter A 1 0) := ha' 1 0
    have a22 : ZOrder k a₄ (quarter A 1 1) := ha' 1 1
    have b11 : ZOrder k b₁ (quarter B 0 0) := hb' 0 0
    have b12 : ZOrder k b₂ (quarter B 0 1) := hb' 0 1
    have b21 : ZOrder k b₃ (quarter B 1 0) := hb' 1 0
    have b22 : ZOrder k b₄ (quarter B 1 1) := hb' 1 1
    -- the seven products
    obtain ⟨m₁, hm₁, hM₁⟩ := strassenAdd2Mul_zorder raw (1 :: call) mul hf a11 a22 b11 b22
    obtain ⟨m₂, hm₂, hM₂⟩ := strassenAddMul_zorder raw (2 :: call) mul hf a21 a22 b11
    obtain ⟨m₃, hm₃, hM₃⟩ := strassenSubMul_zorder raw (3 :: call) mul hf b12 b22 a11
    obtain ⟨m₄, hm₄, hM₄⟩ := strassenSubMul_zorder raw (4 :: call) mul hf b21 b11 a22
    obtain ⟨m₅, hm₅, hM₅⟩ := strassenAddMul_zorder raw (5 :: call) mul hf a11 a12 b22
    obtain ⟨m₆, hm₆, hM₆⟩ := strassenSubAddMul_zorder raw (6 :: call) mul hf a21 a11 b11 b12
    obtain ⟨m₇, hm₇, hM₇⟩ := strassenSubAddMul_zorder raw (7 :: call) mul hf a12 a22 b21 b22
    -- and their sums
    obtain ⟨c₁, hc₁, hC₁⟩ := strassenSumSub_zorder hf hM₁ hM₄ hM₇ hM₅ hd₁
    obtain ⟨c₂, hc₂, hC₂⟩ := strassenSum_zorder hf hM₃ hM₅ hd₂
    obtain ⟨c₃, hc₃, hC₃⟩ := strassenSum_zorder hf hM₂ hM₄ hd₃
    obtain ⟨c₄, hc₄, hC₄⟩ := strassenSumSub_zorder hf hM₁ hM₃ hM₆ hM₂ hd₄
    rw [strassen₁₁] at hC₁
    rw [strassen₁₂] at hC₂
    rw [strassen₂₁] at hC₃
    rw [strassen₂₂] at hC₄
    refine ⟨(c₁ ++ c₂) ++ (c₃ ++ c₄), ?_, zorder_of_quarters fun r c => ?_⟩
    · rw [if_neg hle]
      simp only [haq, hbq, quarterChunks_append hd₁ hd₂ hd₃ hd₄, hm₁, hm₂, hm₃, hm₄, hm₅, hm₆, hm₇]
      simp only [Option.bind_eq_bind, Option.bind_some, hc₁, hc₂, hc₃, hc₄]
    · rw [quarter_mul]
      match r, c with
      | 0, 0 => exact hC₁
      | 0, 1 => exact hC₂
      | 1, 0 => exact hC₃
      | 1, 1 => exact hC₄

end Strassen

end Ring

/-! ## The product -/

/-- **Both compute the product**: from some fuel on, `matmulz` and `matmul_strassen`
leave the matrix product of `a` and `b` in `dest`. -/
theorem matmul_correct [CommRing R] (k : Nat) {a b : List R} {A B : BinaryMatrix k R}
    (ha : ZOrder k a A) (hb : ZOrder k b B) {dest : List R} (hdest : dest.length = 4 ^ k)
    (raw : Scratch R) :
    ∃ c, ZOrder k c (A * B) ∧ ∃ N, ∀ fuel, N ≤ fuel →
      matmulz raw fuel [] a b dest = some c ∧ matmulStrassen raw fuel [] a b dest = some c := by
  obtain ⟨c, -, hc⟩ := matmulz_multiplies raw (Nat.le_refl _) [] a b dest A B ha hb hdest
  refine ⟨c, hc, 2 * k + 33, fun fuel hfuel => ⟨?_, ?_⟩⟩
  · have mul : Multiplies k (matmulz raw fuel) := matmulz_multiplies raw (by omega)
    obtain ⟨c', hc', hz⟩ := mul [] a b dest A B ha hb hdest
    rwa [hz.unique hc] at hc'
  · have mul : Multiplies k (matmulStrassen raw fuel) := matmulStrassen_multiplies raw hfuel
    obtain ⟨c', hc', hs⟩ := mul [] a b dest A B ha hb hdest
    rwa [hs.unique hc] at hc'

/-- Two rows and two columns. -/
theorem zorder_one (w x y z : R) : ZOrder 1 [w, x, y, z] !![w, x; y, z] where
  length := rfl
  entry i j := by
    have hone : splay 1 = 1 := by rw [splay_eq, splay_zero]
    fin_cases i <;> fin_cases j <;> simp [zindex, hone]

/-- The small matrices of `test_matmul`. -/
theorem matmul_correct_test : ∃ N, ∀ fuel, N ≤ fuel →
    matmulz (fun _ _ => (0 : Int)) fuel [] [1, 2, 3, 4] [5, 6, 7, 8] [0, 0, 0, 0]
      = some [19, 22, 43, 50] ∧
    matmulStrassen (fun _ _ => (0 : Int)) fuel [] [1, 2, 3, 4] [5, 6, 7, 8] [0, 0, 0, 0]
      = some [19, 22, 43, 50] := by
  have hdest : ([0, 0, 0, 0] : List Int).length = 4 ^ 1 := rfl
  obtain ⟨c, hc, N, hN⟩ := matmul_correct 1 (zorder_one (1 : Int) 2 3 4) (zorder_one 5 6 7 8)
    hdest fun _ _ => 0
  have hproduct : !![(1 : Int), 2; 3, 4] * !![5, 6; 7, 8] = !![19, 22; 43, 50] := by decide
  have hc' : c = [19, 22, 43, 50] := hc.unique (hproduct ▸ zorder_one 19 22 43 50)
  rw [hc'] at hN
  exact ⟨N, hN⟩

end RustyHermit.Demo
