import RustyHermit.Lib.ZOrder
import RustyHermit.Demo.Splayed

/-!
# `matmulz` and `matmul_strassen` (`tests/matmul.rs`)

Both multiply matrices in Z-order: they divide them into quarters down to
`MULT_CHUNK` entries, and leave those to `seq_matmulz`. The entries are taken from
a ring, and the lengths from `Nat`; masks and counters are those of a `usize`.

Whatever `raw_buffer` returns is unspecified, and so is what it finds there: the
functions take a `Scratch`, which has a content for every call of it. The parts of a
`join` have no order, so a call is named by its place in the tree of calls.

`none` stands for a panic and for a lack of fuel, so that the results below say that
neither comes up: `matmul_correct` is the product, from some fuel on.
-/

namespace RustyHermit.Demo

universe u

/-- `const MULT_CHUNK`. -/
def MULT_CHUNK : Nat := 1024

/-- `const LINEAR_CHUNK`. -/
def LINEAR_CHUNK : Nat := 64 * 1024

/-- `usize::count_ones`. -/
def countOnes (n : UInt64) : Nat :=
  (List.range 64).countP n.toNat.testBit

/-- `usize::trailing_zeros`. -/
def trailingZeros (n : UInt64) : Nat :=
  ((List.range 64).takeWhile fun i => !n.toNat.testBit i).length

/-- What is in memory before it is written, for every call of `raw_buffer`. -/
abbrev Scratch (R : Type u) : Type u :=
  List Nat → Nat → R

variable {R : Type u}

/-- `raw_buffer`, of a call that finds `raw` in memory. -/
def rawBuffer (raw : Nat → R) (n : Nat) : List R :=
  (List.range n).map raw

/-- `quarter_chunks` and `quarter_chunks_mut`: the four parts, of which the
caller puts those of `dest` together again. -/
def quarterChunks (v : List R) : List R × List R × List R × List R :=
  let mid := v.length / 2
  let quarter := mid / 2
  let (left, right) := v.splitAt mid
  let (a, b) := left.splitAt quarter
  let (c, d) := right.splitAt quarter
  (a, b, c, d)

/-- `dest.par_iter_mut().zip(src.par_iter()).for_each(|(d, s)| *d = f(*d, *s))`. -/
def zipForEach (f : R → R → R) : List R → List R → List R
  | d :: dest, s :: src => f d s :: zipForEach f dest src
  | dest, _ => dest

/-- `rmatsum`. -/
def rmatsum [Add R] (src dest : List R) : List R :=
  zipForEach (fun d s => d + s) dest src

/-- `rmatsub`. -/
def rmatsub [Sub R] (src dest : List R) : List R :=
  zipForEach (fun d s => d - s) dest src

/-- `rcopy`: `copy_from_slice` panics unless the lengths agree, and `split_at` does
past the end. -/
def rcopy : Nat → List R → List R → Option (List R)
  | 0, _, _ => none
  | fuel + 1, src, dest =>
    if dest.length ≤ LINEAR_CHUNK then
      if src.length = dest.length then some src else none
    else if src.length < dest.length / 2 then none
    else do
      let mid := dest.length / 2
      let d1 ← rcopy fuel (src.take mid) (dest.take mid)
      let d2 ← rcopy fuel (src.drop mid) (dest.drop mid)
      some (d1 ++ d2)

section Multiply

variable [Zero R] [Add R] [Mul R]

/-- The inner loop of `seq_matmulz`: one entry of the product. An index outside of
the slice has no defined result. -/
def seqEntry (fuel : Nat) (a b : List R) (n ij : UInt64) : Option R :=
  let i := ij &&& 0xaaaa_aaaa
  let j := ij &&& 0x5555_5555
  let add := fun (sum : R) (k : UInt64) => do
    let x ← a[(i ||| k).toNat]?
    let y ← b[(k <<< 1 ||| j).toNat]?
    some (sum + x * y)
  Iterator.forLoop SplayedBitsCounter.next add fuel (.new n) 0

/-- `seq_matmulz`. -/
def seqMatmulz (fuel : Nat) (a b dest : List R) : Option (List R) :=
  let len := UInt64.ofNat a.length
  if ¬ (a.length = b.length ∧ a.length = dest.length) then none
  else if ¬ (countOnes len = 1 ∧ trailingZeros len % 2 = 0) then none
  else
    let dest := dest.map fun _ => (0 : R)
    let n := UInt64.ofNat dest.length
    dest.zipIdx.mapM fun d => seqEntry fuel a b n (UInt64.ofNat d.2)

/-- `matmulz`. -/
def matmulz (raw : Scratch R) : Nat → List Nat → List R → List R → List R → Option (List R)
  | 0, _, _, _, _ => none
  | fuel + 1, call, a, b, dest =>
    if a.length ≤ MULT_CHUNK then seqMatmulz (fuel + 1) a b dest
    else do
      let tmp := rawBuffer (raw call) dest.length
      let (a1, a2, a3, a4) := quarterChunks a
      let (b1, b2, b3, b4) := quarterChunks b
      let (d1, d2, d3, d4) := quarterChunks dest
      let (t1, t2, t3, t4) := quarterChunks tmp
      let d1 ← matmulz raw fuel (1 :: call) a1 b1 d1
      let d2 ← matmulz raw fuel (2 :: call) a1 b2 d2
      let d3 ← matmulz raw fuel (3 :: call) a3 b1 d3
      let d4 ← matmulz raw fuel (4 :: call) a3 b2 d4
      let t1 ← matmulz raw fuel (5 :: call) a2 b3 t1
      let t2 ← matmulz raw fuel (6 :: call) a2 b4 t2
      let t3 ← matmulz raw fuel (7 :: call) a4 b3 t3
      let t4 ← matmulz raw fuel (8 :: call) a4 b4 t4
      some (rmatsum ((t1 ++ t2) ++ (t3 ++ t4)) ((d1 ++ d2) ++ (d3 ++ d4)))

end Multiply

/-- `rtmp_sum`. -/
def rtmpSum [Add R] (raw : Scratch R) (fuel : Nat) (call : List Nat) (a b : List R) :
    Option (List R) := do
  let tmp ← rcopy fuel a (rawBuffer (raw call) a.length)
  some (rmatsum b tmp)

/-- `rtmp_sub`. -/
def rtmpSub [Sub R] (raw : Scratch R) (fuel : Nat) (call : List Nat) (a b : List R) :
    Option (List R) := do
  let tmp ← rcopy fuel a (rawBuffer (raw call) a.length)
  some (rmatsub b tmp)

/-- The type of `matmul_strassen`, which the following functions call and are
called by; they take it as an argument. -/
abbrev Multiply (R : Type u) : Type u :=
  List Nat → List R → List R → List R → Option (List R)

section Strassen

variable (raw : Scratch R) (fuel : Nat) (matmulStrassen : Multiply R) (call : List Nat)

/-- `strassen_add2_mul`. -/
def strassenAdd2Mul [Add R] (a1 a2 b1 b2 : List R) : Option (List R) := do
  let dest := rawBuffer (raw (0 :: call)) a1.length
  let a ← rtmpSum raw fuel (1 :: call) a1 a2
  let b ← rtmpSum raw fuel (2 :: call) b1 b2
  matmulStrassen (3 :: call) a b dest

/-- `strassen_sub_add_mul`. -/
def strassenSubAddMul [Add R] [Sub R] (a1 a2 b1 b2 : List R) : Option (List R) := do
  let dest := rawBuffer (raw (0 :: call)) a1.length
  let a ← rtmpSub raw fuel (1 :: call) a1 a2
  let b ← rtmpSum raw fuel (2 :: call) b1 b2
  matmulStrassen (3 :: call) a b dest

/-- `strassen_add_mul`. -/
def strassenAddMul [Add R] (a1 a2 b : List R) : Option (List R) := do
  let dest := rawBuffer (raw (0 :: call)) a1.length
  let a ← rtmpSum raw fuel (1 :: call) a1 a2
  matmulStrassen (3 :: call) a b dest

/-- `strassen_sub_mul`. -/
def strassenSubMul [Sub R] (b1 b2 a : List R) : Option (List R) := do
  let dest := rawBuffer (raw (0 :: call)) a.length
  let b ← rtmpSub raw fuel (1 :: call) b1 b2
  matmulStrassen (3 :: call) a b dest

/-- `strassen_sum_sub`. -/
def strassenSumSub [Add R] [Sub R] (a b c s dest : List R) : Option (List R) := do
  let dest ← rcopy fuel a dest
  let dest := rmatsum b dest
  let dest := rmatsum c dest
  some (rmatsub s dest)

/-- `strassen_sum`. -/
def strassenSum [Add R] (a b dest : List R) : Option (List R) := do
  let dest ← rcopy fuel a dest
  some (rmatsum b dest)

end Strassen

/-- `matmul_strassen`. -/
def matmulStrassen [Zero R] [Add R] [Sub R] [Mul R] (raw : Scratch R) : Nat → Multiply R
  | 0, _, _, _, _ => none
  | fuel + 1, call, a, b, dest =>
    if a.length ≤ MULT_CHUNK then seqMatmulz (fuel + 1) a b dest
    else do
      let mul := matmulStrassen raw fuel
      let (a11, a12, a21, a22) := quarterChunks a
      let (b11, b12, b21, b22) := quarterChunks b
      let m1 ← strassenAdd2Mul raw fuel mul (1 :: call) a11 a22 b11 b22
      let m2 ← strassenAddMul raw fuel mul (2 :: call) a21 a22 b11
      let m3 ← strassenSubMul raw fuel mul (3 :: call) b12 b22 a11
      let m4 ← strassenSubMul raw fuel mul (4 :: call) b21 b11 a22
      let m5 ← strassenAddMul raw fuel mul (5 :: call) a11 a12 b22
      let m6 ← strassenSubAddMul raw fuel mul (6 :: call) a21 a11 b11 b12
      let m7 ← strassenSubAddMul raw fuel mul (7 :: call) a12 a22 b21 b22
      let (c11, c12, c21, c22) := quarterChunks dest
      let c11 ← strassenSumSub fuel m1 m4 m7 m5 c11
      let c12 ← strassenSum fuel m3 m5 c12
      let c21 ← strassenSum fuel m2 m4 c21
      let c22 ← strassenSumSub fuel m1 m3 m6 m2 c22
      some ((c11 ++ c12) ++ (c21 ++ c22))

end RustyHermit.Demo
