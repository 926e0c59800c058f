import Mathlib.Algebra.Order.Ring.Int
import RustyHermit.Lib.SignMagnitude

/-!
# The C math library (`cmath.rs`)

The symbols of the C math library are exported from here. Each hands its arguments to a
function of the crate `libm` and returns what that returns, or stores part of it where the
caller's pointers point.

Most come in pairs, `acos` for `f64` and `acosf` for `f32`, and so do the functions of
`libm`: `Libm` has a pair for each mathematical function (`floor` is only exported for
`f32`). `Correct` says that a symbol computes what its own name says. It does, except for
`fabsf`, which is `expm1f` (`correct_iff`).
-/

namespace RustyHermit.Cmath

open SignMagnitude

/-! ## libm -/

inductive Precision where
  | single
  | double
deriving DecidableEq, Repr

/-- How many bits there are below the sign. -/
abbrev Precision.magnitudeBits : Precision → Nat
  | .single => 31
  | .double => 63

/-- A floating-point number, by its bits. -/
abbrev Precision.Bits (p : Precision) : Type :=
  BitVec (p.magnitudeBits + 1)

/-- `f32` and `f64`. -/
abbrev F32 : Type := Precision.single.Bits

abbrev F64 : Type := Precision.double.Bits

/-- An output pointer. -/
abbrev Ptr : Type := Nat

/-- What is stored through one. -/
inductive Scalar where
  | float (p : Precision) (x : p.Bits)
  | i32 (n : Int32)

/-- What a call of a symbol does. -/
structure Effect (α : Type) where
  result : α
  /-- the stores, in order -/
  stores : List (Ptr × Scalar)

/-- The mathematical functions, by the C names for `f64`. -/
inductive MathFn where
  | acos | acosh | asin | asinh | atan | atan2 | atanh | cbrt | ceil | copysign | cos | cosh
  | erf | erfc | exp | exp2 | exp10 | expm1 | fabs | fdim | floor | fma | fmax | fmin | fmod
  | frexp | hypot | ilogb | j0 | j1 | jn | ldexp | lgamma | lgamma_r | log | log10 | log2
  | log1p | modf | nextafter | pow | remainder | remquo | round | scalbn | sin | sincos | sinh
  | sqrt | tan | tanh | tgamma | trunc | y0 | y1 | yn
deriving DecidableEq, Repr

/-- What a function gets and returns. -/
inductive Shape where
  | unary | binary | ternary | toInt | intFirst | intSecond | outInt | outFloat | outQuo
  | outBoth
deriving DecidableEq, Repr

abbrev MathFn.shape : MathFn → Shape
  | .atan2 | .copysign | .fdim | .fmax | .fmin | .fmod | .hypot | .nextafter | .pow
  | .remainder => .binary
  | .fma => .ternary
  | .ilogb => .toInt
  | .jn | .yn => .intFirst
  | .ldexp | .scalbn => .intSecond
  | .frexp | .lgamma_r => .outInt
  | .modf => .outFloat
  | .remquo => .outQuo
  | .sincos => .outBoth
  | _ => .unary

/-- The type of the function in `libm`. -/
abbrev Shape.Fn : Shape → Precision → Type
  | .unary, p => p.Bits → p.Bits
  | .binary, p => p.Bits → p.Bits → p.Bits
  | .ternary, p => p.Bits → p.Bits → p.Bits → p.Bits
  | .toInt, p => p.Bits → Int32
  | .intFirst, p => Int32 → p.Bits → p.Bits
  | .intSecond, p => p.Bits → Int32 → p.Bits
  | .outInt, p => p.Bits → p.Bits × Int32
  | .outFloat, p => p.Bits → p.Bits × p.Bits
  | .outQuo, p => p.Bits → p.Bits → p.Bits × Int32
  | .outBoth, p => p.Bits → p.Bits × p.Bits

/-- The type of the symbol. -/
abbrev Shape.C : Shape → Precision → Type
  | .unary, p => p.Bits → p.Bits
  | .binary, p => p.Bits → p.Bits → p.Bits
  | .ternary, p => p.Bits → p.Bits → p.Bits → p.Bits
  | .toInt, p => p.Bits → Int32
  | .intFirst, p => Int32 → p.Bits → p.Bits
  | .intSecond, p => p.Bits → Int32 → p.Bits
  | .outInt, p => p.Bits → Ptr → Effect p.Bits
  | .outFloat, p => p.Bits → Ptr → Effect p.Bits
  | .outQuo, p => p.Bits → p.Bits → Ptr → Effect p.Bits
  | .outBoth, p => p.Bits → Ptr → Ptr → Effect Unit

/-- The crate `libm`: `acos` is `libm .acos .double`, and `acosf` is `libm .acos .single`. -/
abbrev Libm : Type :=
  ∀ (fn : MathFn) (p : Precision), fn.shape.Fn p

/-! ## The symbols -/

variable (libm : Libm)

def acos (n : F64) : F64 := libm .acos .double n
def acosf (n : F32) : F32 := libm .acos .single n

def acosh (x : F64) : F64 := libm .acosh .double x
def acoshf (x : F32) : F32 := libm .acosh .single x

def asin (n : F64) : F64 := libm .asin .double n
def asinf (n : F32) : F32 := libm .asin .single n

def asinh (x : F64) : F64 := libm .asinh .double x
def asinhf (x : F32) : F32 := libm .asinh .single x

def atan (n : F64) : F64 := libm .atan .double n
def atanf (n : F32) : F32 := libm .atan .single n

def atan2 (a b : F64) : F64 := libm .atan2 .double a b
def atan2f (a b : F32) : F32 := libm .atan2 .single a b

def atanh (x : F64) : F64 := libm .atanh .double x
def atanhf (x : F32) : F32 := libm .atanh .single x

def cbrt (n : F64) : F64 := libm .cbrt .double n
def cbrtf (n : F32) : F32 := libm .cbrt .single n

def ceil (x : F64) : F64 := libm .ceil .double x
def ceilf (x : F32) : F32 := libm .ceil .single x

def copysign (x y : F64) : F64 := libm .copysign .double x y
def copysignf (x y : F32) : F32 := libm .copysign .single x y

def cos (x : F64) : F64 := libm .cos .double x
def cosf (x : F32) : F32 := libm .cos .single x

def cosh (x : F64) : F64 := libm .cosh .double x
def coshf (x : F32) : F32 := libm .cosh .single x

def erf (x : F64) : F64 := libm .erf .double x
def erff (x : F32) : F32 := libm .erf .single x

def erfc (x : F64) : F64 := libm .erfc .double x
def erfcf (x : F32) : F32 := libm .erfc .single x

def exp (x : F64) : F64 := libm .exp .double x
def expf (x : F32) : F32 := libm .exp .single x

def exp2 (x : F64) : F64 := libm .exp2 .double x
def exp2f (x : F32) : F32 := libm .exp2 .single x

def exp10 (x : F64) : F64 := libm .exp10 .double x
def exp10f (x : F32) : F32 := libm .exp10 .single x

def expm1 (n : F64) : F64 := libm .expm1 .double n
def expm1f (n : F32) : F32 := libm .expm1 .single n

def fabs (n : F64) : F64 := libm .fabs .double n
-- the one symbol with a target of another name
def fabsf (n : F32) : F32 := libm .expm1 .single n

def fdim (a b : F64) : F64 := libm .fdim .double a b
def fdimf (a b : F32) : F32 := libm .fdim .single a b

def floorf (x : F32) : F32 := libm .floor .single x

def fma (x y z : F64) : F64 := libm .fma .double x y z
def fmaf (x y z : F32) : F32 := libm .fma .single x y z

def fmax (x y : F64) : F64 := libm .fmax .double x y
def fmaxf (x y : F32) : F32 := libm .fmax .single x y

def fmin (x y : F64) : F64 := libm .fmin .double x y
def fminf (x y : F32) : F32 := libm .fmin .single x y

def fmod (x y : F64) : F64 := libm .fmod .double x y
def fmodf (x y : F32) : F32 := libm .fmod .single x y

def frexp (arg : F64) (exp : Ptr) : Effect F64 :=
  let (mantissa, exponent) := libm .frexp .double arg
  { stores := [(exp, .i32 exponent)], result := mantissa }
def frexpf (arg : F32) (exp : Ptr) : Effect F32 :=
  let (mantissa, exponent) := libm .frexp .single arg
  { stores := [(exp, .i32 exponent)], result := mantissa }

def hypot (x y : F64) : F64 := libm .hypot .double x y
def hypotf (x y : F32) : F32 := libm .hypot .single x y

def ilogb (x : F64) : Int32 := libm .ilogb .double x
def ilogbf (x : F32) : Int32 := libm .ilogb .single x

def j0 (x : F64) : F64 := libm .j0 .double x
def j0f (x : F32) : F32 := libm .j0 .single x

def j1 (x : F64) : F64 := libm .j1 .double x
def j1f (x : F32) : F32 := libm .j1 .single x

def jn (n : Int32) (x : F64) : F64 := libm .jn .double n x
def jnf (n : Int32) (x : F32) : F32 := libm .jn .single n x

def ldexp (x : F64) (n : Int32) : F64 := libm .ldexp .double x n
def ldexpf (x : F32) (n : Int32) : F32 := libm .ldexp .single x n

def lgamma (x : F64) : F64 := libm .lgamma .double x
def lgammaf (x : F32) : F32 := libm .lgamma .single x

def lgamma_r (x : F64) (signp : Ptr) : Effect F64 :=
  let (lgamma, r) := libm .lgamma_r .double x
  { stores := [(signp, .i32 r)], result := lgamma }
def lgammaf_r (x : F32) (signp : Ptr) : Effect F32 :=
  let (lgamma, r) := libm .lgamma_r .single x
  { stores := [(signp, .i32 r)], result := lgamma }

def log (x : F64) : F64 := libm .log .double x
def logf (x : F32) : F32 := libm .log .single x

def log10 (x : F64) : F64 := libm .log10 .double x
def log10f (x : F32) : F32 := libm .log10 .single x

def log2 (x : F64) : F64 := libm .log2 .double x
def log2f (x : F32) : F32 := libm .log2 .single x

def log1p (n : F64) : F64 := libm .log1p .double n
def log1pf (n : F32) : F32 := libm .log1p .single n

def modf (x : F64) (integer : Ptr) : Effect F64 :=
  let (frac_part, int_part) := libm .modf .double x
  { stores := [(integer, .float .double int_part)], result := frac_part }
def modff (x : F32) (integer : Ptr) : Effect F32 :=
  let (frac_part, int_part) := libm .modf .single x
  { stores := [(integer, .float .single int_part)], result := frac_part }

def nextafter (x y : F64) : F64 := libm .nextafter .double x y
def nextafterf (x y : F32) : F32 := libm .nextafter .single x y

def pow (x y : F64) : F64 := libm .pow .double x y
def powf (x y : F32) : F32 := libm .pow .single x y

def remainder (x y : F64) : F64 := libm .remainder .double x y
def remainderf (x y : F32) : F32 := libm .remainder .single x y

def remquo (x y : F64) (quotient : Ptr) : Effect F64 :=
  let (rem, quo) := libm .remquo .double x y
  { stores := [(quotient, .i32 quo)], result := rem }
def remquof (x y : F32) (quotient : Ptr) : Effect F32 :=
  let (rem, quo) := libm .remquo .single x y
  { stores := [(quotient, .i32 quo)], result := rem }

def round (n : F64) : F64 := libm .round .double n
def roundf (n : F32) : F32 := libm .round .single n

def scalbn (x : F64) (n : Int32) : F64 := libm .scalbn .double x n
def scalbnf (x : F32) (n : Int32) : F32 := libm .scalbn .single x n

def sin (n : F64) : F64 := libm .sin .double n
def sinf (n : F32) : F32 := libm .sin .single n

def sincos (n : F64) (sin cos : Ptr) : Effect Unit :=
  let (res_sin, res_cos) := libm .sincos .double n
  { stores := [(sin, .float .double res_sin), (cos, .float .double res_cos)], result := () }
def sincosf (n : F32) (sin cos : Ptr) : Effect Unit :=
  let (res_sin, res_cos) := libm .sincos .single n
  { stores := [(sin, .float .single res_sin), (cos, .float .single res_cos)], result := () }

def sinh (n : F64) : F64 := libm .sinh .double n
def sinhf (n : F32) : F32 := libm .sinh .single n

def sqrt (x : F64) : F64 := libm .sqrt .double x
def sqrtf (x : F32) : F32 := libm .sqrt .single x

def tan (n : F64) : F64 := libm .tan .double n
def tanf (n : F32) : F32 := libm .tan .single n

def tanh (n : F64) : F64 := libm .tanh .double n
def tanhf (n : F32) : F32 := libm .tanh .single n

def tgamma (n : F64) : F64 := libm .tgamma .double n
def tgammaf (n : F32) : F32 := libm .tgamma .single n

def trunc (n : F64) : F64 := libm .trunc .double n
def truncf (n : F32) : F32 := libm .trunc .single n

def y0 (n : F64) : F64 := libm .y0 .double n
def y0f (n : F32) : F32 := libm .y0 .single n

def y1 (n : F64) : F64 := libm .y1 .double n
def y1f (n : F32) : F32 := libm .y1 .single n

def yn (n : Int32) (x : F64) : F64 := libm .yn .double n x
def ynf (n : Int32) (x : F32) : F32 := libm .yn .single n x

/-- What is linked under the C name of a function. -/
def exported : ∀ (fn : MathFn) (p : Precision), Option (fn.shape.C p)
  | .acos, .double => some (acos libm)
  | .acos, .single => some (acosf libm)
  | .acosh, .double => some (acosh libm)
  | .acosh, .single => some (acoshf libm)
  | .asin, .double => some (asin libm)
  | .asin, .single => some (asinf libm)
  | .asinh, .double => some (asinh libm)
  | .asinh, .single => some (asinhf libm)
  | .atan, .double => some (atan libm)
  | .atan, .single => some (atanf libm)
  | .atan2, .double => some (atan2 libm)
  | .atan2, .single => some (atan2f libm)
  | .atanh, .double => some (atanh libm)
  | .atanh, .single => some (atanhf libm)
  | .cbrt, .double => some (cbrt libm)
  | .cbrt, .single => some (cbrtf libm)
  | .ceil, .double => some (ceil libm)
  | .ceil, .single => some (ceilf libm)
  | .copysign, .double => some (copysign libm)
  | .copysign, .single => some (copysignf libm)
  | .cos, .double => some (cos libm)
  | .cos, .single => some (cosf libm)
  | .cosh, .double => some (cosh libm)
  | .cosh, .single => some (coshf libm)
  | .erf, .double => some (erf libm)
  | .erf, .single => some (erff libm)
  | .erfc, .double => some (erfc libm)
  | .erfc, .single => some (erfcf libm)
  | .exp, .double => some (exp libm)
  | .exp, .single => some (expf libm)
  | .exp2, .double => some (exp2 libm)
  | .exp2, .single => some (exp2f libm)
  | .exp10, .double => some (exp10 libm)
  | .exp10, .single => some (exp10f libm)
  | .expm1, .double => some (expm1 libm)
  | .expm1, .single => some (expm1f libm)
  | .fabs, .double => some (fabs libm)
  | .fabs, .single => some (fabsf libm)
  | .fdim, .double => some (fdim libm)
  | .fdim, .single => some (fdimf libm)
  | .floor, .double => none
  | .floor, .single => some (floorf libm)
  | .fma, .double => some (fma libm)
  | .fma, .single => some (fmaf libm)
  | .fmax, .double => some (fmax libm)
  | .fmax, .single => some (fmaxf libm)
  | .fmin, .double => some (fmin libm)
  | .fmin, .single => some (fminf libm)
  | .fmod, .double => some (fmod libm)
  | .fmod, .single => some (fmodf libm)
  | .frexp, .double => some (frexp libm)
  | .frexp, .single => some (frexpf libm)
  | .hypot, .double => some (hypot libm)
  | .hypot, .single => some (hypotf libm)
  | .ilogb, .double => some (ilogb libm)
  | .ilogb, .single => some (ilogbf libm)
  | .j0, .double => some (j0 libm)
  | .j0, .single => some (j0f libm)
  | .j1, .double => some (j1 libm)
  | .j1, .single => some (j1f libm)
  | .jn, .double => some (jn libm)
  | .jn, .single => some (jnf libm)
  | .ldexp, .double => some (ldexp libm)
  | .ldexp, .single => some (ldexpf libm)
  | .lgamma, .double => some (lgamma libm)
  | .lgamma, .single => some (lgammaf libm)
  | .lgamma_r, .double => some (lgamma_r libm)
  | .lgamma_r, .single => some (lgammaf_r libm)
  | .log, .double => some (log libm)
  | .log, .single => some (logf libm)
  | .log10, .double => some (log10 libm)
  | .log10, .single => some (log10f libm)
  | .log2, .double => some (log2 libm)
  | .log2, .single => some (log2f libm)
  | .log1p, .double => some (log1p libm)
  | .log1p, .single => some (log1pf libm)
  | .modf, .double => some (modf libm)
  | .modf, .single => some (modff libm)
  | .nextafter, .double => some (nextafter libm)
  | .nextafter, .single => some (nextafterf libm)
  | .pow, .double => some (pow libm)
  | .pow, .single => some (powf libm)
  | .remainder, .double => some (remainder libm)
  | .remainder, .single => some (remainderf libm)
  | .remquo, .double => some (remquo libm)
  | .remquo, .single => some (remquof libm)
  | .round, .double => some (round libm)
  | .round, .single => some (roundf libm)
  | .scalbn, .double => some (scalbn libm)
  | .scalbn, .single => some (scalbnf libm)
  | .sin, .double => some (sin libm)
  | .sin, .single => some (sinf libm)
  | .sincos, .double => some (sincos libm)
  | .sincos, .single => some (sincosf libm)
  | .sinh, .double => some (sinh libm)
  | .sinh, .single => some (sinhf libm)
  | .sqrt, .double => some (sqrt libm)
  | .sqrt, .single => some (sqrtf libm)
  | .tan, .double => some (tan libm)
  | .tan, .single => some (tanf libm)
  | .tanh, .double => some (tanh libm)
  | .tanh, .single => some (tanhf libm)
  | .tgamma, .double => some (tgamma libm)
  | .tgamma, .single => some (tgammaf libm)
  | .trunc, .double => some (trunc libm)
  | .trunc, .single => some (truncf libm)
  | .y0, .double => some (y0 libm)
  | .y0, .single => some (y0f libm)
  | .y1, .double => some (y1 libm)
  | .y1, .single => some (y1f libm)
  | .yn, .double => some (yn libm)
  | .yn, .single => some (ynf libm)

/-! ## What should hold -/

/-- The symbol that a function of `libm` should be: its first result is returned and the
other stored, or both are stored. -/
def Shape.symbol : ∀ (shape : Shape) (p : Precision), shape.Fn p → shape.C p
  | .unary, _, l => l
  | .binary, _, l => l
  | .ternary, _, l => l
  | .toInt, _, l => l
  | .intFirst, _, l => l
  | .intSecond, _, l => l
  | .outInt, _, l => fun x out => ⟨(l x).1, [(out, .i32 (l x).2)]⟩
  | .outFloat, p, l => fun x out => ⟨(l x).1, [(out, .float p (l x).2)]⟩
  | .outQuo, _, l => fun x y out => ⟨(l x y).1, [(out, .i32 (l x y).2)]⟩
  | .outBoth, p, l => fun x out out' =>
    ⟨(), [(out, .float p (l x).1), (out', .float p (l x).2)]⟩

/-- The magnitude of infinity. Those above are NaNs. -/
def Precision.infinity : ∀ p : Precision, BitVec p.magnitudeBits
  | .single => 0x7f800000
  | .double => 0x7ff0000000000000

def isNaN {p : Precision} (x : p.Bits) : Bool :=
  p.infinity < magnitude x

/-- The magnitude of the `f64` with the value of an `f32`. -/
def widenMagnitude (m : BitVec 31) : BitVec 63 :=
  let exponent := m.toNat / 2 ^ 23
  let mantissa := m.toNat % 2 ^ 23
  BitVec.ofNat 63 <|
    if exponent = 255 then 2047 * 2 ^ 52 + mantissa * 2 ^ 29
    else if exponent ≠ 0 then (exponent + 896) * 2 ^ 52 + mantissa * 2 ^ 29
    else if mantissa = 0 then 0
    else
      -- subnormal for `f32` only: its leading bit is the one that an `f64` leaves out
      let k := mantissa.log2
      (k + 874) * 2 ^ 52 + (mantissa - 2 ^ k) * 2 ^ (52 - k)

/-- The value of an `f32` as `f64`. -/
def widen (x : F32) : F64 :=
  convert widenMagnitude x

/-- The least negative subnormal, -2^-149. -/
example : widen 0x80000001 = 0xb6a0000000000000 := by decide +kernel

/-- `fabsf` is the absolute value. -/
structure Absolute (fabsf : F32 → F32) (fabs : F64 → F64) : Prop where
  cleared : ∀ x, fabsf x = clearSign x
  agrees : ∀ x, widen (fabsf x) = fabs (widen x)
  nonneg : ∀ x, (fabsf x).msb = false
  even : ∀ x, fabsf (negate x) = fabsf x
  idempotent : ∀ x, fabsf (fabsf x) = fabsf x

/-- The symbol of a function computes what its name says. -/
structure Correct (fn : MathFn) (p : Precision) : Prop where
  agrees : ∀ c, exported libm fn p = some c → c = fn.shape.symbol p (libm fn p)
  absolute : fn = .fabs → p = .single → Absolute (fabsf libm) (fabs libm)

/-- What is used of `libm`. -/
structure Libm.Documented : Prop where
  /-- the absolute value of a number is the number without its sign -/
  fabs : ∀ p x, libm .fabs p x = clearSign x
  /-- `e^x - 1` has the sign of `x`, as has its result for a zero -/
  expm1 : ∀ (p : Precision) (x : p.Bits), isNaN x = false →
    (libm .expm1 p x : p.Bits).msb = x.msb

/-! ## The symbols are the functions of their names -/

variable {libm : Libm}

/-- All but one are. -/
theorem agrees_of_ne {fn : MathFn} {p : Precision} (hne : ¬(fn = .fabs ∧ p = .single))
    {c : fn.shape.C p} (hc : exported libm fn p = some c) :
    c = fn.shape.symbol p (libm fn p) := by
  cases fn <;> cases p <;> first
    | exact absurd ⟨rfl, rfl⟩ hne
    | cases hc <;> rfl

/-- libm's is the absolute value. -/
theorem Libm.Documented.absolute (h : libm.Documented) :
    Absolute (libm .fabs .single) (libm .fabs .double) where
  cleared x := h.fabs .single x
  agrees x := by
    rw [h.fabs, h.fabs]
    exact (clearSign_convert widenMagnitude x).symm
  nonneg x := by
    rw [h.fabs]
    exact msb_clearSign _
  even x := by
    rw [h.fabs, h.fabs]
    exact clearSign_negate _
  idempotent x := by
    rw [h.fabs, h.fabs]
    exact clearSign_clearSign _

/-- A symbol that is the function of its name computes what that says. -/
theorem Libm.Documented.correct (h : libm.Documented) {fn : MathFn} {p : Precision}
    (hagrees : ∀ c, exported libm fn p = some c → c = fn.shape.symbol p (libm fn p)) :
    Correct libm fn p where
  agrees := hagrees
  absolute hfn hp := by
    subst hfn hp
    have hfabsf : fabsf libm = libm .fabs .single := hagrees (fabsf libm) rfl
    rw [hfabsf]
    exact h.absolute

/-- `fabsf` keeps the sign. -/
theorem Libm.Documented.msb_fabsf (h : libm.Documented) {x : F32} (hx : isNaN x = false) :
    (fabsf libm x).msb = x.msb :=
  h.expm1 .single x hx

/-- **The symbols compute what their names say**, except for `fabsf`: what it returns for a
negative number is negative. -/
theorem correct_iff (h : libm.Documented) :
    (∀ fn p, Correct libm fn p ↔ ¬(fn = .fabs ∧ p = .single)) ∧
    ∀ x, isNaN x = false → x.msb = true → fabsf libm x ≠ clearSign x := by
  have hnegative : ∀ x, isNaN x = false → x.msb = true → fabsf libm x ≠ clearSign x := by
    intro x hnan hx heq
    have hmsb := h.msb_fabsf hnan
    rw [heq, msb_clearSign, hx] at hmsb
    cases hmsb
  refine ⟨fun fn p => ⟨?_, fun hne => h.correct fun c hc => agrees_of_ne hne hc⟩, hnegative⟩
  rintro hcorrect ⟨rfl, rfl⟩
  have hcleared := (hcorrect.absolute rfl rfl).cleared
  exact hnegative 0xff800000 (by decide) (by decide) (hcleared _)

/-- A result for functions that nobody asks. -/
def Shape.zero : ∀ (shape : Shape) (p : Precision), shape.Fn p
  | .unary, _ => fun _ => 0
  | .binary, _ => fun _ _ => 0
  | .ternary, _ => fun _ _ _ => 0
  | .toInt, _ => fun _ => 0
  | .intFirst, _ => fun _ _ => 0
  | .intSecond, _ => fun _ _ => 0
  | .outInt, _ => fun _ => (0, 0)
  | .outFloat, _ => fun _ => (0, 0)
  | .outQuo, _ => fun _ _ => (0, 0)
  | .outBoth, _ => fun _ => (0, 0)

/-- `libm` for absolute values, and for `e^x - 1` where that is -1 or, rounded, `x`. -/
def demoLibm : Libm
  | .fabs, _ => clearSign
  | .expm1, .single => fun x => if x = 0xff800000 then 0xbf800000 else x
  | .expm1, .double => fun x => if x = 0xfff0000000000000 then 0xbff0000000000000 else x
  | fn, p => fn.shape.zero p

theorem documented_demoLibm : demoLibm.Documented where
  fabs p x := rfl
  expm1 p x _ := by
    cases p with
    | single =>
      show (if x = 0xff800000 then 0xbf800000 else x : F32).msb = x.msb
      split
      · rename_i heq
        rw [heq]
        rfl
      · rfl
    | double =>
      show (if x = 0xfff0000000000000 then 0xbff0000000000000 else x : F64).msb = x.msb
      split
      · rename_i heq
        rw [heq]
        rfl
      · rfl

/-- `fabsf` of the negative infinity is -1. -/
theorem correct_iff_demoLibm :
    fabsf demoLibm 0xff800000 = 0xbf800000 ∧ fabsf demoLibm 0xff800000 ≠ clearSign 0xff800000 ∧
      ¬ Correct demoLibm .fabs .single ∧ Correct demoLibm .fabs .double := by
  obtain ⟨hcorrect, hnegative⟩ := correct_iff documented_demoLibm
  refine ⟨rfl, hnegative _ (by decide) (by decide), fun h => ?_,
    (hcorrect _ _).mpr (by decide)⟩
  exact (hcorrect _ _).mp h ⟨rfl, rfl⟩

theorem not_correct : ¬ ∀ libm : Libm, libm.Documented → ∀ fn p, Correct libm fn p := by
  intro h
  have hcleared := ((h demoLibm documented_demoLibm .fabs .single).absolute rfl rfl).cleared
  exact absurd (hcleared 0xff800000) (by decide)

end RustyHermit.Cmath
