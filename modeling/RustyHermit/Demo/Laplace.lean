import Mathlib.Algebra.Order.Field.Rat
import Mathlib.Tactic.Linarith
import RustyHermit.Lib.Slice

/-!
# The Laplace solver (`tests/laplace.rs`, `tests/mod.rs`)

`compute` sweeps over a grid with two buffers: a sweep sets the interior cells of one to
the means of their neighbours in the other, and then the two change places. The entries
are rational numbers and an access past the end of a slice is `none`. The sizes are at
least 2, so their predecessors are those of `Nat`.

The grid is flat with rows of `size_x` cells, but `iteration` cuts it into chunks of
`size_y` cells and takes a chunk for a row. `solves_iff`: the sweeps are right if the two
sizes agree, or if there are no interior cells.
-/

namespace RustyHermit.Demo.Laplace

open Slice

/-- The new value of a cell: `offset_base` is where its row begins. -/
def mean (cur : List Rat) (offsetBase sizeX x : Nat) : Option Rat := do
  let left ← cur[offsetBase + x - 1]?
  let right ← cur[offsetBase + x + 1]?
  let below ← cur[offsetBase + sizeX + x]?
  let above ← cur[offsetBase - sizeX + x]?
  some ((left + right + below + above) * (1 / 4))

/-- The body of the loop over the chunks. -/
def sweepChunk (cur : List Rat) (sizeX sizeY chunkIndex : Nat) (slice : List Rat) :
    Option (List Rat) :=
  if chunkIndex > 0 ∧ chunkIndex < sizeY - 1 then
    let offsetBase := chunkIndex * sizeX
    forStore (fun x => x) (mean cur offsetBase sizeX) (List.range' 1 (sizeX - 1 - 1)) slice
  else some slice

/-- `iteration`: what it leaves in `next`. `par_chunks_mut` has a last chunk that may
be shorter than the others. -/
def iteration (cur next : List Rat) (sizeX sizeY : Nat) : Option (List Rat) :=
  forChunks sizeY (sweepChunk cur sizeX sizeY) ((next.length + sizeY - 1) / sizeY) 0 next

/-- `matrix_setup`, for one of the two matrices: they are filled alike. -/
def matrixSetup (sizeX sizeY : Nat) : Option (List Rat) := do
  let one : Nat → Option Rat := fun _ => some 1
  let matrix := List.replicate (sizeX * sizeY) (0 : Rat)
  let matrix ← forStore (fun x => x) one (List.range sizeX) matrix
  let matrix ← forStore (fun x => (sizeY - 1) * sizeX + x) one (List.range sizeX) matrix
  let matrix ← forStore (fun y => y * sizeX) one (List.range sizeY) matrix
  forStore (fun y => y * sizeX + sizeX - 1) one (List.range sizeY) matrix

/-- The loop of `compute`: both matrices after `n` sweeps, each followed by the swap. -/
def sweeps (sizeX sizeY : Nat) (matrix : List Rat × List Rat) : Nat → Option (List Rat × List Rat)
  | 0 => some matrix
  | n + 1 => do
    let (current, next) ← sweeps sizeX sizeY matrix n
    let next ← iteration current next sizeX sizeY
    some (next, current)

/-- `get_residual`. -/
def getResidual (matrix : List Rat) (sizeX sizeY : Nat) : Option Rat := do
  let rows ← (List.range' 1 (sizeY - 1 - 1)).mapM fun y =>
    (List.range' 1 (sizeX - 1 - 1)).foldlM (fun localSum x => do
      let new ← mean matrix (y * sizeX) sizeX x
      let old ← matrix[y * sizeX + x]?
      let diff := new - old
      some (localSum + diff * diff)) 0
  some rows.sum

/-- `compute`. -/
def compute (matrix : List Rat × List Rat) (sizeX sizeY : Nat) : Option (Nat × Rat) := do
  let (current, _) ← sweeps sizeX sizeY matrix 1000
  let residual ← getResidual current sizeX sizeY
  some (1000, residual)

/-! ## What should hold -/

/-- The cell `(x, y)` is not on the boundary. -/
def Interior (sizeX sizeY x y : Nat) : Prop :=
  0 < x ∧ x + 1 < sizeX ∧ 0 < y ∧ y + 1 < sizeY

instance (sizeX sizeY x y : Nat) : Decidable (Interior sizeX sizeY x y) :=
  inferInstanceAs (Decidable (_ ∧ _))

/-- The cell `(x, y)` of a matrix. -/
def cell (sizeX : Nat) (m : List Rat) (x y : Nat) : Rat :=
  m.getD (y * sizeX + x) 0

/-- The mean of the four neighbours of `(x, y)`. -/
def neighbours (f : Nat → Nat → Rat) (x y : Nat) : Rat :=
  (f (x - 1) y + f (x + 1) y + f x (y + 1) + f x (y - 1)) / 4

/-- One sweep from `cur` to `next` leaves `next'`. -/
structure Swept (sizeX sizeY : Nat) (cur next next' : List Rat) : Prop where
  length : next'.length = next.length
  interior : ∀ x y, Interior sizeX sizeY x y →
    cell sizeX next' x y = neighbours (cell sizeX cur) x y
  boundary : ∀ x y, x < sizeX → y < sizeY → ¬ Interior sizeX sizeY x y →
    cell sizeX next' x y = cell sizeX next x y

/-- `n` steps of the mathematical iteration, from 1 on the boundary and 0 inside. -/
def jacobi (sizeX sizeY : Nat) : Nat → Nat → Nat → Rat
  | 0, x, y => if Interior sizeX sizeY x y then 0 else 1
  | n + 1, x, y =>
    if Interior sizeX sizeY x y then neighbours (jacobi sizeX sizeY n) x y else 1

/-- The matrix holds the values of `f`. -/
structure Holds (sizeX sizeY : Nat) (m : List Rat) (f : Nat → Nat → Rat) : Prop where
  length : m.length = sizeX * sizeY
  cell : ∀ x y, x < sizeX → y < sizeY → cell sizeX m x y = f x y

/-- After any number of sweeps the first matrix holds as many steps of the
iteration, and the next call of `iteration` panics nowhere and sweeps as it should. -/
def Solves (sizeX sizeY : Nat) : Prop :=
  ∀ n, ∃ matrix cur next next', matrixSetup sizeX sizeY = some matrix ∧
    sweeps sizeX sizeY (matrix, matrix) n = some (cur, next) ∧
    Holds sizeX sizeY cur (jacobi sizeX sizeY n) ∧
    iteration cur next sizeX sizeY = some next' ∧ Swept sizeX sizeY cur next next'

/-! ## Cells -/

variable {sizeX sizeY x y : Nat} {cur next next' m : List Rat} {f : Nat → Nat → Rat}

theorem index_lt (hx : x < sizeX) (hy : y < sizeY) : y * sizeX + x < sizeX * sizeY := by
  have hrow : (y + 1) * sizeX ≤ sizeY * sizeX := Nat.mul_le_mul_right sizeX hy
  rw [Nat.succ_mul, Nat.mul_comm sizeY] at hrow
  omega

theorem index_div (hx : x < sizeX) : (y * sizeX + x) / sizeX = y := by
  rw [Nat.mul_comm, Nat.mul_add_div (by omega), Nat.div_eq_of_lt hx, Nat.add_zero]

theorem index_mod (hx : x < sizeX) : (y * sizeX + x) % sizeX = x := by
  rw [Nat.mul_comm, Nat.mul_add_mod, Nat.mod_eq_of_lt hx]

/-- A place in the slice is one cell. -/
theorem index_inj {x' y' : Nat} (hx : x < sizeX) (hx' : x' < sizeX)
    (h : y * sizeX + x = y' * sizeX + x') : y = y' ∧ x = x' := by
  have hdiv := index_div (y := y) hx
  have hmod := index_mod (y := y) hx
  rw [h, index_div hx'] at hdiv
  rw [h, index_mod hx'] at hmod
  exact ⟨hdiv.symm, hmod.symm⟩

theorem getElem?_cell (hm : m.length = sizeX * sizeY) (hx : x < sizeX) (hy : y < sizeY) :
    m[y * sizeX + x]? = some (cell sizeX m x y) := by
  have hlt : y * sizeX + x < m.length := by
    rw [hm]
    exact index_lt hx hy
  rw [cell, List.getD_eq_getElem?_getD, List.getElem?_eq_getElem hlt, Option.getD_some]

theorem cell_of_getElem? {v : Rat} (h : m[y * sizeX + x]? = some v) : cell sizeX m x y = v := by
  rw [cell, List.getD_eq_getElem?_getD, h, Option.getD_some]

/-- In its own row, a cell gets the mean of its neighbours. -/
theorem mean_eq (hcur : cur.length = sizeX * sizeY) (h : Interior sizeX sizeY x y) :
    mean cur (y * sizeX) sizeX x = some (neighbours (cell sizeX cur) x y) := by
  obtain ⟨hx, hx', hy, hy'⟩ := h
  have hleft : y * sizeX + x - 1 = y * sizeX + (x - 1) := by omega
  have hbelow : y * sizeX + sizeX + x = (y + 1) * sizeX + x := by rw [Nat.succ_mul]
  have habove : y * sizeX - sizeX + x = (y - 1) * sizeX + x := by rw [Nat.sub_one_mul]
  rw [mean, hleft, hbelow, habove, Nat.add_assoc (y * sizeX) x 1,
    getElem?_cell hcur (by omega) (by omega), getElem?_cell hcur (by omega) (by omega),
    getElem?_cell hcur (by omega) (by omega), getElem?_cell hcur (by omega) (by omega)]
  exact congrArg some (mul_one_div _ _)

/-! ## `matrix_setup` -/

/-- A loop that stores ones: what it stores, what is one already, and what stays. -/
theorem forStore_one (m : List Rat) (place : Nat → Nat) (xs : List Nat)
    (h : ∀ x ∈ xs, place x < m.length) :
    ∃ m', forStore place (fun _ => some 1) xs m = some m' ∧ m'.length = m.length ∧
      (∀ x ∈ xs, m'[place x]? = some 1) ∧ (∀ i : Nat, m[i]? = some 1 → m'[i]? = some 1) ∧
      ∀ i, (∀ x ∈ xs, place x ≠ i) → m'[i]? = m[i]? := by
  have hrun : ∃ m', forStore place (fun _ => some 1) xs m = some m' :=
    exists_forStore fun x hx => ⟨rfl, h x hx⟩
  obtain ⟨m', hm'⟩ := hrun
  have hsame : ∀ i, ∀ x ∈ xs, place x = i → some (1 : Rat) = some 1 := fun _ _ _ _ => rfl
  refine ⟨m', hm', length_forStore hm', fun x hx => ?_, fun i hi => ?_, fun i hi => ?_⟩
  · exact forStore_stored hm' (hsame _) (.inr ⟨x, hx, rfl⟩)
  · exact forStore_stored hm' (hsame i) (.inl hi)
  · exact forStore_same hm' hi

/-- `matrix_setup` gives the start of the iteration. -/
theorem matrixSetup_holds (hX : 2 ≤ sizeX) (hY : 2 ≤ sizeY) :
    ∃ m, matrixSetup sizeX sizeY = some m ∧ Holds sizeX sizeY m (jacobi sizeX sizeY 0) := by
  let m₀ := List.replicate (sizeX * sizeY) (0 : Rat)
  have h₀ : m₀.length = sizeX * sizeY := List.length_replicate
  have hright : ∀ y, y * sizeX + sizeX - 1 = y * sizeX + (sizeX - 1) := by
    intro y
    omega
  have hrow : ∀ y, y < sizeY → ∀ x ∈ List.range sizeX, y * sizeX + x < sizeX * sizeY :=
    fun y hy x hx => index_lt (List.mem_range.mp hx) hy
  have hcolumn : ∀ x, x < sizeX → ∀ y ∈ List.range sizeY, y * sizeX + x < sizeX * sizeY :=
    fun x hx y hy => index_lt hx (List.mem_range.mp hy)
  -- the four loops
  obtain ⟨m₁, hm₁, hlen₁, htop, -, hsame₁⟩ :=
    forStore_one m₀ (fun x => x) (List.range sizeX) fun x hx => by
      have hlt := hrow 0 (by omega) x hx
      rw [Nat.zero_mul, Nat.zero_add] at hlt
      rwa [h₀]
  obtain ⟨m₂, hm₂, hlen₂, hbottom, hkeep₂, hsame₂⟩ :=
    forStore_one m₁ (fun x => (sizeY - 1) * sizeX + x) (List.range sizeX) fun x hx => by
      rw [hlen₁, h₀]
      exact hrow (sizeY - 1) (by omega) x hx
  obtain ⟨m₃, hm₃, hlen₃, hleft, hkeep₃, hsame₃⟩ :=
    forStore_one m₂ (fun y => y * sizeX) (List.range sizeY) fun y hy => by
      rw [hlen₂, hlen₁, h₀]
      exact hcolumn 0 (by omega) y hy
  obtain ⟨m₄, hm₄, hlen₄, hlast, hkeep₄, hsame₄⟩ :=
    forStore_one m₃ (fun y => y * sizeX + sizeX - 1) (List.range sizeY) fun y hy => by
      rw [hlen₃, hlen₂, hlen₁, h₀, hright y]
      exact hcolumn (sizeX - 1) (by omega) y hy
  refine ⟨m₄, ?_, by rw [hlen₄, hlen₃, hlen₂, hlen₁, h₀], fun x y hx hy => ?_⟩
  · rw [matrixSetup]
    simp only [Option.bind_eq_bind]
    rw [hm₁, Option.bind_some, hm₂, Option.bind_some, hm₃, Option.bind_some, hm₄]
  rw [jacobi]
  by_cases hin : Interior sizeX sizeY x y
  · rw [if_pos hin]
    obtain ⟨hx0, hx1, hy0, hy1⟩ := hin
    refine cell_of_getElem? ?_
    -- no loop comes to an interior cell
    rw [hsame₄, hsame₃, hsame₂, hsame₁, List.getElem?_replicate, if_pos (index_lt hx hy)]
    · intro x' hx' heq
      have hzero : 0 * sizeX + x' = y * sizeX + x := by rwa [Nat.zero_mul, Nat.zero_add]
      have hy' := (index_inj (List.mem_range.mp hx') hx hzero).1
      omega
    · intro x' hx' heq
      have hy' := (index_inj (List.mem_range.mp hx') hx heq).1
      omega
    · intro y' _ heq
      have hx' := (index_inj (show 0 < sizeX by omega) hx heq).2
      omega
    · intro y' _ heq
      have hx' := (index_inj (show sizeX - 1 < sizeX by omega) hx ((hright y').symm.trans heq)).2
      omega
  · rw [if_neg hin]
    refine cell_of_getElem? ?_
    have hxmem : x ∈ List.range sizeX := List.mem_range.mpr hx
    have hymem : y ∈ List.range sizeY := List.mem_range.mpr hy
    have hcases : y = 0 ∨ y = sizeY - 1 ∨ x = 0 ∨ x = sizeX - 1 := by
      unfold Interior at hin
      omega
    rcases hcases with hy0 | hy0 | hx0 | hx0
    · have hstored := htop x hxmem
      rw [hy0, Nat.zero_mul, Nat.zero_add]
      exact hkeep₄ _ (hkeep₃ _ (hkeep₂ _ hstored))
    · have hstored := hbottom x hxmem
      rw [hy0]
      exact hkeep₄ _ (hkeep₃ _ hstored)
    · have hstored := hleft y hymem
      rw [hx0, Nat.add_zero]
      exact hkeep₄ _ hstored
    · have hstored := hlast y hymem
      rw [hx0, ← hright y]
      exact hstored

/-! ## `iteration` -/

theorem length_sweepChunk {c : Nat} {slice slice' : List Rat}
    (h : sweepChunk cur sizeX sizeY c slice = some slice') : slice'.length = slice.length := by
  rw [sweepChunk] at h
  split at h
  · exact length_forStore h
  · rw [Option.some.inj h]

/-- The place `x` of the chunk `c` is one that the loop over the chunk comes to. -/
def Written (sizeX sizeY c x : Nat) : Prop :=
  0 < c ∧ c + 1 < sizeY ∧ 0 < x ∧ x + 1 < sizeX

theorem mem_inner (hx : 0 < x) (hx' : x + 1 < sizeX) : x ∈ List.range' 1 (sizeX - 1 - 1) := by
  rw [List.mem_range'_1]
  omega

/-- What becomes of a place of a chunk. -/
theorem sweepChunk_getElem? {c : Nat} {slice slice' : List Rat}
    (h : sweepChunk cur sizeX sizeY c slice = some slice') (x : Nat) :
    (Written sizeX sizeY c x → slice'[x]? = mean cur (c * sizeX) sizeX x) ∧
    (¬ Written sizeX sizeY c x → slice'[x]? = slice[x]?) := by
  rw [sweepChunk] at h
  by_cases hrow : c > 0 ∧ c < sizeY - 1
  · rw [if_pos hrow] at h
    refine ⟨fun hw => ?_, fun hw => ?_⟩
    · have hx := mem_inner hw.2.2.1 hw.2.2.2
      obtain ⟨v, hv⟩ := value_of_forStore h hx
      rw [hv]
      exact forStore_stored h (fun y _ hy => hy ▸ hv) (.inr ⟨x, hx, rfl⟩)
    · refine forStore_same h fun x' hx' heq => ?_
      rw [List.mem_range'_1] at hx'
      exact hw ⟨by omega, by omega, by omega, by omega⟩
  · rw [if_neg hrow] at h
    refine ⟨fun hw => ?_, fun _ => by rw [Option.some.inj h]⟩
    obtain ⟨hc, hc', -, -⟩ := hw
    omega

/-- What becomes of a place of the slice: its chunk is the quotient by `size_y`. -/
theorem iteration_getElem? (h : iteration cur next sizeX sizeY = some next') {p : Nat}
    (hp : p < next.length) (hY : 0 < sizeY) :
    (Written sizeX sizeY (p / sizeY) (p % sizeY) →
      next'[p]? = mean cur (p / sizeY * sizeX) sizeX (p % sizeY)) ∧
    (¬ Written sizeX sizeY (p / sizeY) (p % sizeY) → next'[p]? = next[p]?) := by
  have hmod : p % sizeY < sizeY := Nat.mod_lt p hY
  have hsplit : p / sizeY * sizeY + p % sizeY = p := Nat.div_add_mod' p sizeY
  have hchunk : p / sizeY < (next.length + sizeY - 1) / sizeY := by
    rw [Nat.lt_iff_add_one_le, Nat.le_div_iff_mul_le hY, Nat.succ_mul]
    omega
  obtain ⟨chunk, hbody, hget⟩ := forChunks_getElem? (fun _ _ _ => length_sweepChunk) h hchunk hmod
    (by rwa [hsplit])
  rw [hsplit] at hget
  rw [Nat.zero_add] at hbody
  have hold : ((next.drop (p / sizeY * sizeY)).take sizeY)[p % sizeY]? = next[p]? := by
    rw [List.getElem?_take_of_lt hmod, List.getElem?_drop, hsplit]
  rw [hget, ← hold]
  exact sweepChunk_getElem? hbody _

theorem length_iteration (h : iteration cur next sizeX sizeY = some next') :
    next'.length = next.length :=
  length_forChunks (fun _ _ _ => length_sweepChunk) h

/-! ## Where chunks are rows -/

/-- The chunks of interior rows are those rows, or there are no interior cells. -/
def ChunksAreRows (sizeX sizeY : Nat) : Prop :=
  sizeX = sizeY ∨ sizeX = 2 ∨ sizeY = 2

/-- No access is out of range. -/
theorem exists_iteration (hX : 2 ≤ sizeX) (hY : 2 ≤ sizeY) (hrows : ChunksAreRows sizeX sizeY)
    (hcur : cur.length = sizeX * sizeY) (hnext : next.length = sizeX * sizeY) :
    ∃ next', iteration cur next sizeX sizeY = some next' := by
  have hcount : (next.length + sizeY - 1) / sizeY = sizeX := by
    have hmul : next.length + sizeY - 1 = sizeY * sizeX + (sizeY - 1) := by
      rw [hnext, Nat.mul_comm sizeX]
      omega
    rw [hmul, Nat.mul_add_div (by omega), Nat.div_eq_of_lt (by omega), Nat.add_zero]
  refine exists_forChunks fun c hc => ?_
  rw [hcount] at hc
  rw [Nat.zero_add, sweepChunk]
  by_cases hrow : c > 0 ∧ c < sizeY - 1
  · rw [if_pos hrow]
    refine Option.isSome_iff_exists.mpr (exists_forStore fun x hx => ?_)
    rw [List.mem_range'_1] at hx
    -- there is an interior cell, so the sizes agree
    have hsquare : sizeX = sizeY := by
      rcases hrows with h | h | h <;> omega
    have hin : Interior sizeX sizeY x c := ⟨by omega, by omega, hrow.1, by omega⟩
    rw [mean_eq hcur hin]
    have hlast : c * sizeY + sizeY ≤ sizeX * sizeY := by
      rw [← Nat.succ_mul]
      exact Nat.mul_le_mul_right sizeY hc
    refine ⟨rfl, ?_⟩
    rw [List.length_take, List.length_drop, hnext]
    omega
  · rw [if_neg hrow]
    rfl

theorem swept_of_iteration (hX : 2 ≤ sizeX) (hY : 2 ≤ sizeY) (hrows : ChunksAreRows sizeX sizeY)
    (hcur : cur.length = sizeX * sizeY) (hnext : next.length = sizeX * sizeY)
    (h : iteration cur next sizeX sizeY = some next') : Swept sizeX sizeY cur next next' where
  length := length_iteration h
  interior x y hin := by
    obtain ⟨hx0, hx1, hy0, hy1⟩ := hin
    have hsquare : sizeX = sizeY := by
      rcases hrows with h | h | h <;> omega
    subst hsquare
    have hp : y * sizeX + x < next.length := by
      rw [hnext]
      exact index_lt (by omega) (by omega)
    have hget := (iteration_getElem? h hp (by omega)).1
    rw [index_div (by omega), index_mod (by omega), mean_eq hcur ⟨hx0, hx1, hy0, hy1⟩] at hget
    exact cell_of_getElem? (hget ⟨hy0, hy1, hx0, hx1⟩)
  boundary x y hx hy hout := by
    have hp : y * sizeX + x < next.length := by
      rw [hnext]
      exact index_lt hx hy
    have hsame := (iteration_getElem? h hp (by omega)).2 fun hw => ?_
    · rw [getElem?_cell hnext hx hy] at hsame
      exact cell_of_getElem? hsame
    · obtain ⟨hc0, hc1, hx0, hx1⟩ := hw
      rcases hrows with hsquare | htwo | htwo
      · subst hsquare
        rw [index_div hx] at hc0 hc1
        rw [index_mod hx] at hx0 hx1
        exact hout ⟨hx0, hx1, hc0, hc1⟩
      · omega
      · omega

/-! ## The sweeps -/

/-- The matrix has the boundary of the start. -/
def Bounded (sizeX sizeY : Nat) (m : List Rat) : Prop :=
  m.length = sizeX * sizeY ∧
    ∀ x y, x < sizeX → y < sizeY → ¬ Interior sizeX sizeY x y → cell sizeX m x y = 1

theorem jacobi_boundary (n : Nat) (h : ¬ Interior sizeX sizeY x y) :
    jacobi sizeX sizeY n x y = 1 := by
  cases n with
  | zero => exact if_neg h
  | succ n => exact if_neg h

theorem Holds.bounded {n : Nat} (h : Holds sizeX sizeY m (jacobi sizeX sizeY n)) :
    Bounded sizeX sizeY m := by
  refine ⟨h.length, fun x y hx hy hout => ?_⟩
  rw [h.cell x y hx hy, jacobi_boundary n hout]

/-- The neighbours of an interior cell are cells. -/
theorem Holds.neighbours (h : Holds sizeX sizeY m f) (hin : Interior sizeX sizeY x y) :
    neighbours (Laplace.cell sizeX m) x y = Laplace.neighbours f x y := by
  obtain ⟨hx0, hx1, hy0, hy1⟩ := hin
  rw [Laplace.neighbours, Laplace.neighbours, h.cell _ _ (by omega) (by omega),
    h.cell _ _ (by omega) (by omega), h.cell _ _ (by omega) (by omega),
    h.cell _ _ (by omega) (by omega)]

/-- A sweep is one step of the iteration. -/
theorem Swept.holds {n : Nat} (h : Swept sizeX sizeY cur next next')
    (hcur : Holds sizeX sizeY cur (jacobi sizeX sizeY n)) (hnext : Bounded sizeX sizeY next) :
    Holds sizeX sizeY next' (jacobi sizeX sizeY (n + 1)) where
  length := h.length.trans hnext.1
  cell x y hx hy := by
    rw [jacobi]
    by_cases hin : Interior sizeX sizeY x y
    · rw [if_pos hin, h.interior x y hin, hcur.neighbours hin]
    · rw [if_neg hin, h.boundary x y hx hy hin]
      exact hnext.2 x y hx hy hin

/-- **After `n` sweeps**: one matrix holds `n` steps, the other has the boundary. -/
theorem sweeps_hold (hX : 2 ≤ sizeX) (hY : 2 ≤ sizeY) (hrows : ChunksAreRows sizeX sizeY)
    (hm : Holds sizeX sizeY m (jacobi sizeX sizeY 0)) (n : Nat) :
    ∃ cur next, sweeps sizeX sizeY (m, m) n = some (cur, next) ∧
      Holds sizeX sizeY cur (jacobi sizeX sizeY n) ∧ Bounded sizeX sizeY next := by
  induction n with
  | zero => exact ⟨m, m, rfl, hm, hm.bounded⟩
  | succ n ih =>
    obtain ⟨cur, next, hrun, hcur, hnext⟩ := ih
    obtain ⟨next', hnext'⟩ := exists_iteration hX hY hrows hcur.length hnext.1
    have hswept := swept_of_iteration hX hY hrows hcur.length hnext.1 hnext'
    refine ⟨next', cur, ?_, hswept.holds hcur hnext, hcur.bounded⟩
    rw [sweeps, hrun, Option.bind_eq_bind, Option.bind_some]
    simp only [hnext']
    rfl

/-! ## `get_residual` -/

/-- How far one more sweep would move the interior cells: the sum of the squares. -/
def residual (sizeX sizeY n : Nat) : Rat :=
  ((List.range' 1 (sizeY - 1 - 1)).map fun y =>
    ((List.range' 1 (sizeX - 1 - 1)).map fun x =>
      (jacobi sizeX sizeY (n + 1) x y - jacobi sizeX sizeY n x y) ^ 2).sum).sum

theorem getResidual_eq {n : Nat} (hm : Holds sizeX sizeY m (jacobi sizeX sizeY n)) :
    getResidual m sizeX sizeY = some (residual sizeX sizeY n) := by
  rw [getResidual, mapM_eq_some_map (g := fun y => ((List.range' 1 (sizeX - 1 - 1)).map fun x =>
    (jacobi sizeX sizeY (n + 1) x y - jacobi sizeX sizeY n x y) ^ 2).sum)]
  · rfl
  intro y hy
  rw [← zero_add (List.sum _)]
  refine foldlM_add (fun x hx sum => ?_) 0
  rw [List.mem_range'_1] at hx hy
  have hin : Interior sizeX sizeY x y := ⟨by omega, by omega, by omega, by omega⟩
  rw [mean_eq hm.length hin, getElem?_cell hm.length (by omega) (by omega), hm.neighbours hin,
    hm.cell x y (by omega) (by omega)]
  show some _ = some _
  rw [jacobi, if_pos hin, pow_two]

/-- **`compute`** makes its 1000 sweeps and returns what the next would change. -/
theorem compute_eq (hX : 2 ≤ sizeX) (hY : 2 ≤ sizeY) (hrows : ChunksAreRows sizeX sizeY)
    (hm : Holds sizeX sizeY m (jacobi sizeX sizeY 0)) :
    compute (m, m) sizeX sizeY = some (1000, residual sizeX sizeY 1000) := by
  obtain ⟨cur, next, hrun, hcur, -⟩ := sweeps_hold hX hY hrows hm 1000
  rw [compute, hrun, Option.bind_eq_bind, Option.bind_some]
  simp only [getResidual_eq hcur]
  rfl

/-! ## Where they are not -/

theorem jacobi_zero_nonneg (x y : Nat) : 0 ≤ jacobi sizeX sizeY 0 x y := by
  rw [jacobi]
  split
  · exact le_refl 0
  · exact zero_le_one

/-- The first step raises the cells next to the left or the right side. -/
theorem neighbours_pos (hside : x = 1 ∨ x + 2 = sizeX) :
    0 < neighbours (jacobi sizeX sizeY 0) x y := by
  have hnonneg : ∀ x y, 0 ≤ jacobi sizeX sizeY 0 x y := jacobi_zero_nonneg
  have hleft := hnonneg (x - 1) y
  have hright := hnonneg (x + 1) y
  have hbelow := hnonneg x (y + 1)
  have habove := hnonneg x (y - 1)
  have hone : jacobi sizeX sizeY 0 (x - 1) y = 1 ∨ jacobi sizeX sizeY 0 (x + 1) y = 1 := by
    rcases hside with hx | hx
    · refine .inl (jacobi_boundary 0 fun hin => ?_)
      have hpos := hin.1
      omega
    · refine .inr (jacobi_boundary 0 fun hin => ?_)
      have hlt := hin.2.1
      omega
  rw [neighbours]
  rcases hone with hone | hone <;> linarith

/-- A cell that the first sweep does not come to keeps its 0. -/
theorem not_solves_of_not_written (hY : 2 ≤ sizeY) (hin : Interior sizeX sizeY x y)
    (hside : x = 1 ∨ x + 2 = sizeX)
    (hp : ¬ Written sizeX sizeY ((y * sizeX + x) / sizeY) ((y * sizeX + x) % sizeY)) :
    ¬ Solves sizeX sizeY := by
  intro h
  obtain ⟨matrix, cur, next, next', -, hrun, hcur, hnext', hswept⟩ := h 0
  cases hrun
  obtain ⟨hx0, hx1, hy0, hy1⟩ := hin
  have hlt : y * sizeX + x < matrix.length := by
    rw [hcur.length]
    exact index_lt (by omega) (by omega)
  have hsame := (iteration_getElem? hnext' hlt (by omega)).2 hp
  rw [getElem?_cell hcur.length (by omega) (by omega)] at hsame
  have hzero : cell sizeX next' x y = 0 := by
    rw [cell_of_getElem? hsame, hcur.cell x y (by omega) (by omega), jacobi,
      if_pos ⟨hx0, hx1, hy0, hy1⟩]
  have hmean := hswept.interior x y ⟨hx0, hx1, hy0, hy1⟩
  rw [hzero, hcur.neighbours ⟨hx0, hx1, hy0, hy1⟩] at hmean
  exact absurd hmean (neighbours_pos hside).ne

/-- The first cell inside is before the first place that the loop comes to. -/
theorem not_solves_of_lt (hX : 3 ≤ sizeX) (h : sizeX < sizeY) : ¬ Solves sizeX sizeY := by
  have hin : Interior sizeX sizeY 1 1 := ⟨by omega, by omega, by omega, by omega⟩
  refine not_solves_of_not_written (by omega) hin (.inl rfl) ?_
  rintro ⟨hc, -, hx, -⟩
  have hsplit := Nat.div_add_mod' (1 * sizeX + 1) sizeY
  have hmul : 1 * sizeY ≤ (1 * sizeX + 1) / sizeY * sizeY := Nat.mul_le_mul_right sizeY hc
  omega

/-- The last cell inside is after the last chunk that the loop comes to. -/
theorem not_solves_of_gt (hY : 3 ≤ sizeY) (h : sizeY < sizeX) : ¬ Solves sizeX sizeY := by
  have hin : Interior sizeX sizeY (sizeX - 2) (sizeY - 2) :=
    ⟨by omega, by omega, by omega, by omega⟩
  refine not_solves_of_not_written (by omega) hin (.inr (by omega)) ?_
  rintro ⟨-, hc, -, -⟩
  have hrow : (sizeY - 1) * (sizeY + 1) ≤ (sizeY - 1) * sizeX := Nat.mul_le_mul_left _ h
  have hlast : (sizeY - 2) * sizeX + (sizeX - 2) + 2 = (sizeY - 1) * sizeX := by
    have hsucc : sizeY - 1 = sizeY - 2 + 1 := by omega
    rw [hsucc, Nat.succ_mul]
    omega
  rw [Nat.mul_succ] at hrow
  have hchunk : sizeY - 1 ≤ ((sizeY - 2) * sizeX + (sizeX - 2)) / sizeY := by
    rw [Nat.le_div_iff_mul_le (by omega)]
    omega
  omega

/-- **The solver is right** exactly if the chunks are rows. -/
theorem solves_iff (hX : 2 ≤ sizeX) (hY : 2 ≤ sizeY) :
    Solves sizeX sizeY ↔ sizeX = sizeY ∨ sizeX = 2 ∨ sizeY = 2 := by
  constructor
  · intro h
    by_contra hrows
    rcases Nat.lt_or_ge sizeX sizeY with hlt | hge
    · exact not_solves_of_lt (by omega) hlt h
    · exact not_solves_of_gt (by omega) (by omega) h
  · intro hrows n
    obtain ⟨m, hm, hstart⟩ := matrixSetup_holds hX hY
    obtain ⟨cur, next, hrun, hcur, hnext⟩ := sweeps_hold hX hY hrows hstart n
    obtain ⟨next', hnext'⟩ := exists_iteration hX hY hrows hcur.length hnext.1
    exact ⟨m, cur, next, next', hm, hrun, hcur, hnext',
      swept_of_iteration hX hY hrows hcur.length hnext.1 hnext'⟩

/-- The grid of the demo. -/
theorem solves_demo : Solves 128 128 :=
  (solves_iff (by omega) (by omega)).mpr (.inl rfl)

/-- Three columns and four rows. -/
theorem not_solves_three_four : ¬ Solves 3 4 :=
  not_solves_of_lt (by omega) (by omega)

end RustyHermit.Demo.Laplace
