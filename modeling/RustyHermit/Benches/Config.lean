import Mathlib.Algebra.Order.Ring.Int

/-!
# The arithmetic of the network benchmark (`config.rs` and the four `main`s)

`parse_config` refuses configurations with too much data, and the clients and servers
compute with what it accepts. Every operation here is checked: where it overflows or
divides by zero it is an error, as it is a panic with overflow checks.

The guard bounds the product of bytes and rounds. It bounds no rounds if there are no
bytes, so that twice their number may overflow, and it lets rounds through of which
two percent are none, so that the client divides by zero. `safe_iff` is the exact condition.
-/

namespace RustyHermit.Benches

/-- How the programs can panic here. -/
inductive Panic where
  | overflow
  | divisionByZero
  /-- `panic!` with this text -/
  | panic (text : String)
deriving DecidableEq, Repr

/-- What goes on has not panicked. -/
theorem Panic.bind_ok {α β : Type} {x : Except Panic α} {f : α → Except Panic β} {b : β} :
    x >>= f = .ok b ↔ ∃ a, x = .ok a ∧ f a = .ok b := by
  cases x with
  | error e =>
    constructor
    · intro h
      cases h
    · rintro ⟨a, ha, -⟩
      cases ha
  | ok a =>
    constructor
    · intro h
      exact ⟨a, rfl, h⟩
    · rintro ⟨a', ha, hf⟩
      cases ha
      exact hf

theorem Panic.ok_bind {α β : Type} (a : α) (f : α → Except Panic β) :
    (.ok a >>= f : Except Panic β) = f a :=
  rfl

/-! ## Checked operations -/

/-- `a * b` of two `usize`. -/
def mul (a b : UInt64) : Except Panic UInt64 :=
  if a.toNat * b.toNat < 2 ^ 64 then .ok (a * b) else .error .overflow

/-- `a % b`. -/
def rem (a b : UInt64) : Except Panic UInt64 :=
  if b = 0 then .error .divisionByZero else .ok (a % b)

/-- `a / b`. -/
def div (a b : UInt64) : Except Panic UInt64 :=
  if b = 0 then .error .divisionByZero else .ok (a / b)

/-- `a as u128 * b as u128`. -/
def mulU128 (a b : UInt64) : Except Panic Nat :=
  if a.toNat * b.toNat < 2 ^ 128 then .ok (a.toNat * b.toNat) else .error .overflow

theorem mul_eq_ok {a b c : UInt64} :
    mul a b = .ok c ↔ a.toNat * b.toNat < 2 ^ 64 ∧ a * b = c := by
  unfold mul
  by_cases h : a.toNat * b.toNat < 2 ^ 64
  · rw [if_pos h, Except.ok.injEq]
    exact ⟨fun heq => ⟨h, heq⟩, fun heq => heq.2⟩
  · rw [if_neg h]
    constructor
    · intro heq
      cases heq
    · intro heq
      exact absurd heq.1 h

theorem toNat_mul_of_lt {a b : UInt64} (h : a.toNat * b.toNat < 2 ^ 64) :
    (a * b).toNat = a.toNat * b.toNat := by
  rw [UInt64.toNat_mul]
  exact Nat.mod_eq_of_lt h

/-- Two 64-bit factors have a 128-bit product. -/
theorem mulU128_eq (a b : UInt64) : mulU128 a b = .ok (a.toNat * b.toNat) := by
  have ha := a.toNat_lt
  have hb := b.toNat_lt
  have hlt : a.toNat * b.toNat < 2 ^ 64 * 2 ^ 64 := Nat.mul_lt_mul'' ha hb
  exact if_pos (Nat.lt_of_lt_of_eq hlt (by decide))

/-! ## `parse_config` -/

/-- The values of the command line after `parse`, with their defaults. -/
structure Matches where
  address : String := "127.0.0.1"
  port : String := "7878"
  nBytes : UInt64 := 1
  rounds : UInt64 := 100000
  nodelay : UInt64 := 1
  nonblocking : UInt64 := 1
  thread : Int8 := -1

/-- `struct Config`. -/
structure Config where
  address : String
  port : String
  nBytes : UInt64
  nRounds : UInt64
  noDelay : Bool
  nonBlocking : Bool
  pId : Int8
deriving DecidableEq

def tooManyBytes : String :=
  "More than 100 MB per round is probably too much data you want to send, " ++
    "you may kill one of the machines. Try with maybe 100MB but more rounds"

def tooMuchData : String :=
  "There's going to be too much data. Make sure n_bytes * n_rounds is < u128::MAX"

/-- `parse_config`. -/
def parseConfig (m : Matches) : Except Panic Config := do
  if m.nBytes > 100000000 then
    .error (.panic tooManyBytes)
  else
    let perRound ← mul m.nBytes 1000000
    let total ← mulU128 perRound m.rounds
    if total > 2 ^ 64 - 1 then
      .error (.panic tooMuchData)
    else
      .ok {
        address := m.address
        port := m.port
        nBytes := m.nBytes
        nRounds := m.rounds
        noDelay := m.nodelay > 0
        nonBlocking := m.nonblocking > 0
        pId := m.thread }

/-! ## The programs -/

/-- `println!("{}% completed", i / progress_tracking_percentage)`, every time `i` is a
multiple of it: the number printed. -/
def trackProgress (progressTrackingPercentage i : UInt64) : Except Panic (Option UInt64) := do
  let rest ← rem i progressTrackingPercentage
  if rest = 0 then
    let completed ← div i progressTrackingPercentage
    .ok (some completed)
  else
    .ok none

/-- The loop of the latency client, from `i` on for the given number of rounds. -/
def clientRounds (progressTrackingPercentage : UInt64) :
    Nat → UInt64 → Except Panic (List UInt64)
  | 0, _ => .ok []
  | rounds + 1, i => do
    let printed ← trackProgress progressTrackingPercentage i
    let later ← clientRounds progressTrackingPercentage rounds (i + 1)
    .ok (printed.toList ++ later)

/-- `main` of the latency client: the progress it prints. -/
def latencyClient (args : Config) : Except Panic (List UInt64) := do
  let double ← mul args.nRounds 2
  let progressTrackingPercentage ← div double 100
  let rounds ← mul args.nRounds 2
  clientRounds progressTrackingPercentage rounds.toNat 0

/-- `main` of the latency server: the rounds of its loop. -/
def latencyServer (args : Config) : Except Panic UInt64 :=
  mul args.nRounds 2

/-- `main` of the bandwidth server: the kilobytes it prints. -/
def bandwidthServer (args : Config) : Except Panic UInt64 := do
  let totBytes ← mul args.nRounds args.nBytes
  div totBytes 1024

/-! ## What should hold -/

/-- The two checks of `parse_config`, in exact arithmetic. -/
def Passes (m : Matches) : Prop :=
  m.nBytes.toNat ≤ 100000000 ∧ m.nBytes.toNat * 1000000 * m.rounds.toNat ≤ 2 ^ 64 - 1

/-- No operation of `parse_config` fails, nor one of the programs with its result. -/
def Safe (m : Matches) : Prop :=
  ∃ args, parseConfig m = .ok args ∧ (∃ printed, latencyClient args = .ok printed) ∧
    (∃ rounds, latencyServer args = .ok rounds) ∧
    ∃ kilobytes, bandwidthServer args = .ok kilobytes

/-! ## `parse_config` -/

variable {m : Matches}

/-- What `parse_config` makes of the values that pass. -/
def Matches.config (m : Matches) : Config where
  address := m.address
  port := m.port
  nBytes := m.nBytes
  nRounds := m.rounds
  noDelay := m.nodelay > 0
  nonBlocking := m.nonblocking > 0
  pId := m.thread

/-- The first check comes before the multiplication, which therefore does not overflow. -/
theorem parseConfig_eq (h : m.nBytes.toNat ≤ 100000000) :
    parseConfig m = if m.nBytes.toNat * 1000000 * m.rounds.toNat > 2 ^ 64 - 1
      then .error (.panic tooMuchData) else .ok m.config := by
  have hmillion : (1000000 : UInt64).toNat = 1000000 := rfl
  have hlt : m.nBytes.toNat * (1000000 : UInt64).toNat < 2 ^ 64 := by
    rw [hmillion]
    omega
  have hbytes : ¬ m.nBytes > 100000000 := by
    rw [gt_iff_lt, UInt64.lt_iff_toNat_lt]
    exact Nat.not_lt.mpr h
  have hmul : mul m.nBytes 1000000 = .ok (m.nBytes * 1000000) := mul_eq_ok.mpr ⟨hlt, rfl⟩
  rw [parseConfig, if_neg hbytes, hmul, Panic.ok_bind, mulU128_eq, Panic.ok_bind,
    toNat_mul_of_lt hlt, hmillion, Matches.config]

/-- `parse_config` accepts what passes its checks, and nothing else. -/
theorem parseConfig_ok_iff {args : Config} :
    parseConfig m = .ok args ↔ Passes m ∧ args = m.config := by
  constructor
  · intro hargs
    have hbytes : m.nBytes.toNat ≤ 100000000 := by
      by_contra hmany
      have hgt : m.nBytes > 100000000 := UInt64.lt_iff_toNat_lt.mpr (Nat.lt_of_not_le hmany)
      rw [parseConfig, if_pos hgt] at hargs
      cases hargs
    rw [parseConfig_eq hbytes] at hargs
    split at hargs
    · cases hargs
    · rename_i hmuch
      exact ⟨⟨hbytes, Nat.le_of_not_lt hmuch⟩, (Except.ok.inj hargs).symm⟩
  · rintro ⟨h, rfl⟩
    rw [parseConfig_eq h.1, if_neg (Nat.not_lt.mpr h.2)]

/-! ## The programs -/

theorem rem_isOk {a b : UInt64} (h : b ≠ 0) : rem a b = .ok (a % b) :=
  if_neg h

theorem div_isOk {a b : UInt64} (h : b ≠ 0) : div a b = .ok (a / b) :=
  if_neg h

theorem trackProgress_isOk {percentage : UInt64} (h : percentage ≠ 0) (i : UInt64) :
    ∃ printed, trackProgress percentage i = .ok printed := by
  rw [trackProgress, rem_isOk h]
  show ∃ printed, (if i % percentage = 0 then _ else _) = Except.ok printed
  by_cases hrest : i % percentage = 0
  · rw [if_pos hrest, div_isOk h]
    exact ⟨_, rfl⟩
  · rw [if_neg hrest]
    exact ⟨_, rfl⟩

/-- The loop runs through if two percent of the rounds are any. -/
theorem clientRounds_isOk {percentage : UInt64} (h : percentage ≠ 0) (rounds : Nat) (i : UInt64) :
    ∃ printed, clientRounds percentage rounds i = .ok printed := by
  induction rounds generalizing i with
  | zero => exact ⟨[], rfl⟩
  | succ rounds ih =>
    obtain ⟨printed, hprinted⟩ := trackProgress_isOk h i
    obtain ⟨later, hlater⟩ := ih (i + 1)
    rw [clientRounds, hprinted]
    show ∃ all, (clientRounds percentage rounds (i + 1)).bind _ = Except.ok all
    rw [hlater]
    exact ⟨_, rfl⟩

/-- If two percent of the rounds are none, the first round divides by zero. -/
theorem clientRounds_zero (rounds : Nat) (i : UInt64) :
    clientRounds 0 (rounds + 1) i = .error .divisionByZero :=
  rfl

/-- The bandwidth server multiplies what the guard has bounded. -/
theorem bandwidthServer_isOk (h : Passes m) :
    ∃ kilobytes, bandwidthServer m.config = .ok kilobytes := by
  have hlt : m.rounds.toNat * m.nBytes.toNat < 2 ^ 64 := by
    have hguard := h.2
    have hscale : m.rounds.toNat * m.nBytes.toNat ≤ m.nBytes.toNat * 1000000 * m.rounds.toNat := by
      calc m.rounds.toNat * m.nBytes.toNat
          = m.nBytes.toNat * m.rounds.toNat := Nat.mul_comm ..
        _ ≤ m.nBytes.toNat * 1000000 * m.rounds.toNat :=
          Nat.mul_le_mul_right _ (Nat.le_mul_of_pos_right _ (by omega))
    omega
  have hmul : mul m.rounds m.nBytes = .ok (m.rounds * m.nBytes) := mul_eq_ok.mpr ⟨hlt, rfl⟩
  refine ⟨m.rounds * m.nBytes / 1024, ?_⟩
  show (mul m.rounds m.nBytes).bind (fun totBytes => div totBytes 1024) = _
  rw [hmul]
  rfl

/-- Twice the rounds. -/
theorem double_eq (a : UInt64) :
    mul a 2 = if a.toNat < 2 ^ 63 then .ok (a * 2) else .error .overflow := by
  have htwo : (2 : UInt64).toNat = 2 := rfl
  have hiff : a.toNat * 2 < 2 ^ 64 ↔ a.toNat < 2 ^ 63 := by omega
  unfold mul
  rw [htwo]
  exact if_congr hiff rfl rfl

theorem latencyServer_isOk_iff :
    (∃ rounds, latencyServer m.config = .ok rounds) ↔ m.rounds.toNat < 2 ^ 63 := by
  show (∃ rounds, mul m.rounds 2 = .ok rounds) ↔ _
  rw [double_eq]
  by_cases h : m.rounds.toNat < 2 ^ 63
  · rw [if_pos h]
    exact iff_of_true ⟨_, rfl⟩ h
  · rw [if_neg h]
    refine iff_of_false ?_ h
    rintro ⟨rounds, hrounds⟩
    cases hrounds

/-- The client, past the overflow. -/
theorem latencyClient_eq (h : m.rounds.toNat < 2 ^ 63) :
    latencyClient m.config = clientRounds (m.rounds * 2 / 100) (m.rounds.toNat * 2) 0 := by
  have htwo : m.rounds.toNat * (2 : UInt64).toNat < 2 ^ 64 := by
    have heq : (2 : UInt64).toNat = 2 := rfl
    rw [heq]
    omega
  have hdouble : mul m.rounds 2 = .ok (m.rounds * 2) := by rw [double_eq, if_pos h]
  have hdiv : div (m.rounds * 2) 100 = .ok (m.rounds * 2 / 100) := rfl
  show (mul m.rounds 2).bind (fun double => (div double 100).bind fun percentage =>
    (mul m.rounds 2).bind fun rounds => clientRounds percentage rounds.toNat 0) = _
  rw [hdouble, Except.bind, hdiv, Except.bind, Except.bind, toNat_mul_of_lt htwo]
  rfl

/-- Two percent of the rounds, rounded down. -/
theorem percentage_eq_zero_iff (h : m.rounds.toNat < 2 ^ 63) :
    m.rounds * 2 / 100 = 0 ↔ m.rounds.toNat < 50 := by
  have htwo : (2 : UInt64).toNat = 2 := rfl
  have hlt : m.rounds.toNat * (2 : UInt64).toNat < 2 ^ 64 := by
    rw [htwo]
    omega
  rw [← UInt64.toNat_inj, UInt64.toNat_div, toNat_mul_of_lt hlt, htwo]
  show m.rounds.toNat * 2 / 100 = 0 ↔ _
  omega

theorem latencyClient_isOk_iff : (∃ printed, latencyClient m.config = .ok printed) ↔
    m.rounds.toNat < 2 ^ 63 ∧ (m.rounds.toNat = 0 ∨ 50 ≤ m.rounds.toNat) := by
  by_cases h : m.rounds.toNat < 2 ^ 63
  · rw [latencyClient_eq h]
    rcases Nat.eq_zero_or_pos m.rounds.toNat with hzero | hpos
    · rw [hzero]
      exact iff_of_true ⟨[], rfl⟩ ⟨by omega, .inl rfl⟩
    · by_cases hfew : m.rounds.toNat < 50
      · obtain ⟨rounds, hrounds⟩ : ∃ rounds, m.rounds.toNat * 2 = rounds + 1 :=
          ⟨m.rounds.toNat * 2 - 1, by omega⟩
        rw [(percentage_eq_zero_iff h).mpr hfew, hrounds, clientRounds_zero]
        refine iff_of_false ?_ (by omega)
        rintro ⟨printed, hprinted⟩
        cases hprinted
      · have hne : m.rounds * 2 / 100 ≠ 0 := fun heq => hfew ((percentage_eq_zero_iff h).mp heq)
        exact iff_of_true (clientRounds_isOk hne _ 0) ⟨h, by omega⟩
  · refine iff_of_false ?_ fun hlt => h hlt.1
    rintro ⟨printed, hprinted⟩
    obtain ⟨double, hdouble, -⟩ := Panic.bind_ok.mp hprinted
    change mul m.rounds 2 = .ok double at hdouble
    rw [double_eq, if_neg h] at hdouble
    cases hdouble

/-- **The arithmetic is safe** exactly if there are no rounds, or at least 50 and fewer
than 2 ^ 63. -/
theorem safe_iff (h : Passes m) :
    Safe m ↔ m.rounds = 0 ∨ 50 ≤ m.rounds ∧ m.rounds < 0x8000_0000_0000_0000 := by
  have hzero : m.rounds = 0 ↔ m.rounds.toNat = 0 := by
    rw [← UInt64.toNat_inj]
    rfl
  rw [hzero, UInt64.le_iff_toNat_le, UInt64.lt_iff_toNat_lt]
  show Safe m ↔ m.rounds.toNat = 0 ∨ 50 ≤ m.rounds.toNat ∧ m.rounds.toNat < 2 ^ 63
  constructor
  · rintro ⟨args, hargs, hclient, -, -⟩
    rw [(parseConfig_ok_iff.mp hargs).2, latencyClient_isOk_iff] at hclient
    omega
  · intro hrounds
    refine ⟨m.config, parseConfig_ok_iff.mpr ⟨h, rfl⟩, ?_, ?_, bandwidthServer_isOk h⟩
    · rw [latencyClient_isOk_iff]
      omega
    · rw [latencyServer_isOk_iff]
      omega

/-- The defaults of the command line. -/
theorem safe_defaults : Safe {} :=
  (safe_iff ⟨by decide, by decide⟩).mpr (.inr ⟨by decide, by decide⟩)

/-- One round of one byte, and 2 ^ 63 rounds of none. -/
theorem not_safe : (Passes { rounds := 1 } ∧ ¬ Safe { rounds := 1 }) ∧
    Passes { nBytes := 0, rounds := 0x8000_0000_0000_0000 } ∧
    ¬ Safe { nBytes := 0, rounds := 0x8000_0000_0000_0000 } := by
  refine ⟨⟨⟨by decide, by decide⟩, ?_⟩, ⟨by decide, by decide⟩, ?_⟩
  · rintro ⟨args, hargs, hclient, -, -⟩
    cases hargs
    exact absurd (latencyClient_isOk_iff.mp hclient) (by decide)
  · rintro ⟨args, hargs, hclient, -, -⟩
    cases hargs
    exact absurd (latencyClient_isOk_iff.mp hclient) (by decide)

end RustyHermit.Benches
