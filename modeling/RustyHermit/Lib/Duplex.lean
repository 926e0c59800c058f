import Mathlib.Data.List.Basic
import RustyHermit.Lib.Machine

/-!
# Two programs on a stream

A stream between two programs is a bounded `Pipe` in each direction. A program is a
function that says what it does next (`Op`); a call that can move something moves
any part of it, as the environment likes. `Duplex.machine` runs two programs against each
other, in any order.

- `Duplex.Keeps`: a program keeps what it knows about its own state, all that it wrote and all
  that it read. Each of the programs is looked at alone; `Duplex.reachable_spec` puts the
  two together through the pipes.
- `Duplex.Op.Blocked`: what a program that cannot go on is waiting for.
- `Duplex.Bounds`, `Duplex.run_length_le`: programs that have only so much to do end every
  run, and `Duplex.exists_stuck` goes on until nothing more can happen.
-/

namespace RustyHermit

universe u v w

/-- A channel of bounded capacity, with all that was ever written to it and read from
it. What was written and not read is in the channel. -/
structure Pipe (α : Type u) (capacity : Nat) where
  written : List α
  read : List α
  inOrder : read <+: written
  bounded : written.length ≤ read.length + capacity

namespace Pipe

variable {α : Type u} {capacity : Nat}

def empty : Pipe α capacity where
  written := []
  read := []
  inOrder := List.prefix_rfl
  bounded := Nat.zero_le _

/-- What can be read. -/
def held (p : Pipe α capacity) : List α :=
  p.written.drop p.read.length

/-- How much can be written. -/
def room (p : Pipe α capacity) : Nat :=
  capacity - p.held.length

theorem read_append_held (p : Pipe α capacity) : p.read ++ p.held = p.written :=
  (List.prefix_iff_eq_append.mp p.inOrder)

theorem length_held (p : Pipe α capacity) : p.read.length + p.held.length = p.written.length := by
  rw [← List.length_append, p.read_append_held]

/-- Write as much of `xs` as there is room for. -/
def put (p : Pipe α capacity) (xs : List α) : Pipe α capacity where
  written := p.written ++ xs.take p.room
  read := p.read
  inOrder := p.inOrder.trans (List.prefix_append _ _)
  bounded := by
    have hlength := p.length_held
    have hbounded := p.bounded
    rw [List.length_append, List.length_take, room]
    omega

/-- Read `n` elements, or all that there are. -/
def get (p : Pipe α capacity) (n : Nat) : Pipe α capacity where
  written := p.written
  read := p.read ++ p.held.take n
  inOrder := by
    have h := (List.prefix_append_right_inj p.read).mpr (List.take_prefix n p.held)
    rwa [p.read_append_held] at h
  bounded := by
    have hbounded := p.bounded
    rw [List.length_append]
    omega

theorem put_written {p : Pipe α capacity} {xs : List α} (h : xs.length ≤ p.room) :
    (p.put xs).written = p.written ++ xs := by
  show p.written ++ xs.take p.room = p.written ++ xs
  rw [List.take_of_length_le h]

theorem get_read {p : Pipe α capacity} {xs : List α} (h : xs <+: p.held) :
    (p.get xs.length).read = p.read ++ xs := by
  show p.read ++ p.held.take xs.length = p.read ++ xs
  rw [← List.prefix_iff_eq_take.mp h]

theorem length_read_le (p : Pipe α capacity) : p.read.length ≤ p.written.length :=
  p.inOrder.length_le

/-- A full channel. -/
theorem length_written_of_room {p : Pipe α capacity} (h : p.room = 0) :
    p.written.length = p.read.length + capacity := by
  have hlength := p.length_held
  have hbounded := p.bounded
  rw [room] at h
  omega

/-- An empty channel. -/
theorem written_of_held {p : Pipe α capacity} (h : p.held = []) : p.written = p.read := by
  have happend := p.read_append_held
  rw [h, List.append_nil] at happend
  exact happend.symm

/-- There is room for what does not go past the capacity. -/
theorem le_room {p : Pipe α capacity} {n : Nat}
    (h : p.written.length + n ≤ p.read.length + capacity) : n ≤ p.room := by
  have hlength := p.length_held
  rw [room]
  omega

/-- What continues the read elements is next. -/
theorem prefix_held {p : Pipe α capacity} {xs : List α} (h : p.read ++ xs <+: p.written) :
    xs <+: p.held := by
  rw [← p.read_append_held] at h
  exact (List.prefix_append_right_inj _).mp h

/-- A step that writes `xs` and reads `ys`. -/
structure Moves (p : Pipe α capacity) (xs ys : List α) (p' : Pipe α capacity) : Prop where
  /-- there is room for what is written -/
  room : xs.length ≤ p.room
  /-- what is read is what is next -/
  next : ys <+: p.held
  written : p'.written = p.written ++ xs
  read : p'.read = p.read ++ ys

/-- Whatever stays a pipe is moved through as through one. -/
theorem moves_of_append {p p' : Pipe α capacity} {xs ys : List α}
    (hwritten : p'.written = p.written ++ xs) (hread : p'.read = p.read ++ ys)
    (hone : xs = [] ∨ ys = []) : p.Moves xs ys p' := by
  have hbounded := p'.bounded
  have hprefix := p'.inOrder
  rw [hwritten, hread, List.length_append, List.length_append] at hbounded
  rw [hwritten, hread] at hprefix
  refine ⟨?_, ?_, hwritten, hread⟩
  · rcases hone with rfl | rfl
    · exact Nat.zero_le _
    · exact le_room hbounded
  · rcases hone with rfl | rfl
    · rw [List.append_nil] at hprefix
      exact prefix_held hprefix
    · exact List.nil_prefix

end Pipe

/-! ## Buffers -/

namespace Duplex

section Buffers

variable {α : Type u}

/-- A buffer that is filled up to `pos`, after `bytes` were read into its rest. -/
def fill (buf : List α) (pos : Nat) (bytes : List α) : List α :=
  buf.take pos ++ bytes ++ buf.drop (pos + bytes.length)

theorem length_fill {buf bytes : List α} {pos : Nat} (h : bytes.length ≤ buf.length - pos)
    (hpos : pos ≤ buf.length) : (fill buf pos bytes).length = buf.length := by
  rw [fill, List.length_append, List.length_append, List.length_take, List.length_drop]
  omega

theorem take_fill {buf : List α} {pos : Nat} (bytes : List α) (hpos : pos ≤ buf.length) :
    (fill buf pos bytes).take (pos + bytes.length) = buf.take pos ++ bytes := by
  have hlength : (buf.take pos ++ bytes).length = pos + bytes.length := by
    rw [List.length_append, List.length_take, Nat.min_eq_left hpos]
  exact List.take_left' hlength

/-- A piece from the rest of a buffer continues what was written of it. -/
theorem take_add_of_piece {buf piece : List α} {pos : Nat} (h : piece <+: buf.drop pos) :
    buf.take (pos + piece.length) = buf.take pos ++ piece := by
  rw [List.take_add, ← List.prefix_iff_eq_take.mp h]

theorem length_of_prefix_drop {buf piece : List α} {pos : Nat} (h : piece <+: buf.drop pos)
    (hpos : pos ≤ buf.length) : pos + piece.length ≤ buf.length := by
  have hlength := h.length_le
  rw [List.length_drop] at hlength
  omega

/-- A buffer that is written once more. -/
theorem flatten_replicate_succ (i : Nat) (buf : List α) :
    (List.replicate (i + 1) buf).flatten = (List.replicate i buf).flatten ++ buf := by
  rw [List.replicate_succ', List.flatten_append, List.flatten_singleton]

theorem prefix_flatten_replicate {i k : Nat} (buf : List α) (h : i ≤ k) :
    (List.replicate i buf).flatten <+: (List.replicate k buf).flatten := by
  obtain ⟨rest, rfl⟩ := Nat.exists_eq_add_of_le h
  rw [List.replicate_add, List.flatten_append]
  exact List.prefix_append _ _

theorem length_flatten_replicate (i : Nat) (buf : List α) :
    (List.replicate i buf).flatten.length = i * buf.length := by
  rw [List.length_flatten, List.map_replicate, List.sum_replicate_nat]

end Buffers

/-! ## Programs -/

/-- What a program does next on its stream, and how it goes on. -/
inductive Op (σ : Type u) (α : Type v) where
  /-- write from `rest`: as much as the call says was written -/
  | write (rest : List α) (wrote : Nat → σ)
  /-- read into a buffer of this size. A program that looks for `WouldBlock` goes on at
  `wouldBlock`; one that does not waits or tries again. -/
  | read (room : Nat) (got : List α → σ) (wouldBlock : Option σ)
  /-- something that does not touch the stream -/
  | goto (s : σ)
  | stop

variable {σ : Type u} {τ : Type u} {α : Type v} {c d : Nat}

def Op.writes : Op σ α → Bool
  | .write _ _ => true
  | _ => false

/-- One step of a program that writes to `out` and reads from `inp`. A call offers
to move `n` elements; offering none is `WouldBlock`. -/
def act (p : σ → Op σ α) (s : σ) (out : Pipe α c) (inp : Pipe α d) (n : Nat) :
    Option (σ × Pipe α c × Pipe α d) :=
  match p s with
  | .write rest wrote =>
    let written := (rest.take n).take out.room
    if written = [] then none else some (wrote written.length, out.put written, inp)
  | .read room got wouldBlock =>
    let bytes := inp.held.take (min n room)
    if n = 0 then wouldBlock.map (·, out, inp)
    else if bytes = [] then none else some (got bytes, out, inp.get (min n room))
  | .goto s => some (s, out, inp)
  | .stop => none

/-- A write that there is room for. -/
theorem act_write {p : σ → Op σ α} {s : σ} {out : Pipe α c} {inp : Pipe α d} {rest : List α}
    {wrote : Nat → σ} {n : Nat} (h : p s = .write rest wrote) (hn : 0 < n) (hrest : n ≤ rest.length)
    (hroom : n ≤ out.room) : act p s out inp n = some (wrote n, out.put (rest.take n), inp) := by
  have hlength : (rest.take n).length = n := by rw [List.length_take, Nat.min_eq_left hrest]
  have hwritten : (rest.take n).take out.room = rest.take n :=
    List.take_of_length_le (by rwa [hlength])
  have hne : rest.take n ≠ [] := List.ne_nil_of_length_pos (by rwa [hlength])
  simp only [act, h, hwritten, hne, hlength, if_false]

/-- A read of what is next. -/
theorem act_read {p : σ → Op σ α} {s : σ} {out : Pipe α c} {inp : Pipe α d} {room : Nat}
    {got : List α → σ} {wouldBlock : Option σ} {bytes : List α}
    (h : p s = .read room got wouldBlock) (hne : bytes ≠ []) (hroom : bytes.length ≤ room)
    (hnext : bytes <+: inp.held) :
    act p s out inp bytes.length = some (got bytes, out, inp.get bytes.length) := by
  have hbytes : inp.held.take bytes.length = bytes := (List.prefix_iff_eq_take.mp hnext).symm
  have hlength : bytes.length ≠ 0 := fun hzero => hne (List.length_eq_zero_iff.mp hzero)
  simp only [act, h, Nat.min_eq_left hroom, hbytes, hlength, hne, if_false]

/-- `P` holds of where the program goes on, with what it wrote and what it read. -/
def Op.Leads (P : σ → List α → List α → Prop) : Op σ α → Prop
  | .write rest wrote =>
    ∀ written, written ≠ [] → written <+: rest → P (wrote written.length) written []
  | .read room got wouldBlock =>
    (∀ bytes, bytes ≠ [] → bytes.length ≤ room → P (got bytes) [] bytes) ∧
      ∀ s ∈ wouldBlock, P s [] []
  | .goto s => P s [] []
  | .stop => True

/-- What a step comes to: it writes something, or it reads something, or neither. -/
structure Act (p : σ → Op σ α) (s : σ) (out : Pipe α c) (inp : Pipe α d)
    (s' : σ) (out' : Pipe α c) (inp' : Pipe α d) (written bytes : List α) : Prop where
  leads : ∀ {P : σ → List α → List α → Prop}, (p s).Leads P → P s' written bytes
  out_written : out'.written = out.written ++ written
  out_read : out'.read = out.read
  inp_written : inp'.written = inp.written
  inp_read : inp'.read = inp.read ++ bytes
  one_way : written = [] ∨ bytes = []

theorem act_spec {p : σ → Op σ α} {s s' : σ} {out out' : Pipe α c} {inp inp' : Pipe α d} {n : Nat}
    (h : act p s out inp n = some (s', out', inp')) :
    ∃ written bytes, Act p s out inp s' out' inp' written bytes := by
  cases hop : p s with
  | write rest wrote =>
    simp only [act, hop] at h
    obtain ⟨hne, heq⟩ := Option.ite_none_left_eq_some.mp h
    cases heq
    have hroom : ((rest.take n).take out.room).length ≤ out.room := List.length_take_le _ _
    have hprefix := (List.take_prefix out.room (rest.take n)).trans (List.take_prefix n rest)
    refine ⟨_, [], fun {P} hleads => ?_, Pipe.put_written hroom, rfl, rfl, ?_, .inr rfl⟩
    · rw [hop] at hleads
      exact hleads _ hne hprefix
    · rw [List.append_nil]
  | read room got wouldBlock =>
    simp only [act, hop] at h
    by_cases hn : n = 0
    · rw [if_pos hn] at h
      obtain ⟨s₁, hs₁, heq⟩ := Option.map_eq_some_iff.mp h
      cases heq
      refine ⟨[], [], fun {P} hleads => ?_, ?_, rfl, rfl, ?_, .inr rfl⟩
      · rw [hop] at hleads
        exact hleads.2 s' hs₁
      · rw [List.append_nil]
      · rw [List.append_nil]
    · rw [if_neg hn] at h
      obtain ⟨hne, heq⟩ := Option.ite_none_left_eq_some.mp h
      cases heq
      have hlength := Nat.le_trans (List.length_take_le (min n room) inp.held)
        (Nat.min_le_right n room)
      refine ⟨[], _, fun {P} hleads => ?_, ?_, rfl, rfl, rfl, .inl rfl⟩
      · rw [hop] at hleads
        exact hleads.1 _ hne hlength
      · rw [List.append_nil]
  | goto s₁ =>
    simp only [act, hop] at h
    cases h
    refine ⟨[], [], fun {P} hleads => ?_, ?_, rfl, rfl, ?_, .inr rfl⟩
    · rw [hop] at hleads
      exact hleads
    · rw [List.append_nil]
    · rw [List.append_nil]
  | stop =>
    simp only [act, hop] at h
    cases h

/-! ## The machine -/

/-- Two programs and the stream between them. -/
structure State (σ τ : Type u) (α : Type v) (c d : Nat) where
  left : σ
  right : τ
  forth : Pipe α c
  back : Pipe α d

/-- Who takes a step, and how much its call offers to move. -/
inductive Label where
  | left (n : Nat)
  | right (n : Nat)
deriving DecidableEq, Repr

variable {p : σ → Op σ α} {q : τ → Op τ α} {s₀ : σ} {t₀ : τ}

def next (p : σ → Op σ α) (q : τ → Op τ α) (s : State σ τ α c d) : Label → Option (State σ τ α c d)
  | .left n => (act p s.left s.forth s.back n).map fun r =>
      { s with left := r.1, forth := r.2.1, back := r.2.2 }
  | .right n => (act q s.right s.back s.forth n).map fun r =>
      { s with right := r.1, back := r.2.1, forth := r.2.2 }

/-- `p` runs against `q` from these states on, on a stream of capacities `c` and `d`. -/
def machine (p : σ → Op σ α) (q : τ → Op τ α) (s₀ : σ) (t₀ : τ) (c d : Nat) :
    Machine (State σ τ α c d) Label where
  init s := s = { left := s₀, right := t₀, forth := .empty, back := .empty }
  next := next p q

/-! ## What a program knows -/

/-- `I` is about the state of a program, all that it wrote and all that it read, and the
program keeps it. -/
structure Keeps (p : σ → Op σ α) (s₀ : σ) (I : σ → List α → List α → Prop) : Prop where
  init : I s₀ [] []
  step : ∀ s out inp, I s out inp →
    (p s).Leads fun s' written bytes => I s' (out ++ written) (inp ++ bytes)

theorem Keeps.act {I : σ → List α → List α → Prop} (hI : Keeps p s₀ I) {s s' : σ}
    {out out' : Pipe α c} {inp inp' : Pipe α d} {written bytes : List α}
    (h : I s out.written inp.read) (hact : Act p s out inp s' out' inp' written bytes) :
    I s' out'.written inp'.read := by
  rw [hact.out_written, hact.inp_read]
  exact hact.leads (hI.step s _ _ h)

/-- What holds of the two programs and the pipes in every state. -/
structure Spec (I : σ → List α → List α → Prop) (J : τ → List α → List α → Prop)
    (s : State σ τ α c d) : Prop where
  left : I s.left s.forth.written s.back.read
  right : J s.right s.back.written s.forth.read

/-- A step is one of either program. -/
theorem next_cases {s s' : State σ τ α c d} {a : Label} (h : next p q s a = some s') :
    (s'.right = s.right ∧
      ∃ written bytes, Act p s.left s.forth s.back s'.left s'.forth s'.back written bytes) ∨
    (s'.left = s.left ∧
      ∃ written bytes, Act q s.right s.back s.forth s'.right s'.back s'.forth written bytes) := by
  cases a with
  | left n =>
    obtain ⟨r, hr, rfl⟩ := Option.map_eq_some_iff.mp h
    exact .inl ⟨rfl, act_spec hr⟩
  | right n =>
    obtain ⟨r, hr, rfl⟩ := Option.map_eq_some_iff.mp h
    exact .inr ⟨rfl, act_spec hr⟩

/-- **What two programs keep, each for itself, holds in every state that they reach
together.** -/
theorem reachable_spec {I : σ → List α → List α → Prop} {J : τ → List α → List α → Prop}
    (hI : Keeps p s₀ I) (hJ : Keeps q t₀ J) {s : State σ τ α c d}
    (h : (machine p q s₀ t₀ c d).Reachable s) : Spec I J s := by
  refine h.invariant (I := Spec I J) ?_ ?_
  · rintro s rfl
    exact ⟨hI.init, hJ.init⟩
  · intro s a s' hspec hnext
    rcases next_cases hnext with ⟨hright, written, bytes, hact⟩ | ⟨hleft, written, bytes, hact⟩
    · refine ⟨hI.act hspec.left hact, ?_⟩
      rw [hright, hact.inp_written, hact.out_read]
      exact hspec.right
    · refine ⟨?_, hJ.act hspec.right hact⟩
      rw [hleft, hact.inp_written, hact.out_read]
      exact hspec.left

/-! ## Where programs come to a halt -/

/-- Nothing can happen any more. -/
def Stuck (p : σ → Op σ α) (q : τ → Op τ α) (s : State σ τ α c d) : Prop :=
  ∀ a, next p q s a = none

/-- A program that does this next cannot go on. -/
def Op.Blocked (out : Pipe α c) (inp : Pipe α d) : Op σ α → Prop
  | .write rest _ => rest = [] ∨ out.room = 0
  | .read room _ wouldBlock => wouldBlock = none ∧ (room = 0 ∨ inp.held = [])
  | .goto _ => False
  | .stop => True

theorem blocked_of_act {s : σ} {out : Pipe α c} {inp : Pipe α d}
    (h : ∀ n, act p s out inp n = none) : (p s).Blocked out inp := by
  cases hop : p s with
  | write rest wrote =>
    have hall := h rest.length
    simp only [act, hop, List.take_length] at hall
    have hnil : rest.take out.room = [] := by
      by_contra hne
      rw [if_neg hne] at hall
      cases hall
    exact (List.take_eq_nil_iff.mp hnil).symm
  | read room got wouldBlock =>
    have hwait := h 0
    simp only [act, hop, if_true, Option.map_eq_none_iff] at hwait
    have hall := h (room + 1)
    simp only [act, hop, Nat.succ_ne_zero, if_false, Nat.min_eq_right (Nat.le_succ room)] at hall
    have hnil : inp.held.take room = [] := by
      by_contra hne
      rw [if_neg hne] at hall
      cases hall
    exact ⟨hwait, List.take_eq_nil_iff.mp hnil⟩
  | goto s' =>
    have hgo := h 0
    simp only [act, hop] at hgo
    cases hgo
  | stop => exact trivial

theorem act_of_blocked {s : σ} {out : Pipe α c} {inp : Pipe α d} (h : (p s).Blocked out inp)
    (n : Nat) : act p s out inp n = none := by
  cases hop : p s with
  | write rest wrote =>
    rw [hop] at h
    have hnil : (rest.take n).take out.room = [] := by
      rcases h with rfl | hroom
      · rw [List.take_nil, List.take_nil]
      · rw [hroom, List.take_zero]
    simp only [act, hop, hnil, if_true]
  | read room got wouldBlock =>
    rw [hop] at h
    obtain ⟨rfl, hempty⟩ := h
    have hnil : inp.held.take (min n room) = [] := by
      rcases hempty with rfl | hheld
      · rw [Nat.min_zero, List.take_zero]
      · rw [hheld, List.take_nil]
    simp only [act, hop, hnil, if_true, Option.map_none, ite_self]
  | goto s' =>
    rw [hop] at h
    exact h.elim
  | stop => simp only [act, hop]

/-- Where both programs are blocked, nothing can happen. -/
theorem stuck_of_blocked {s : State σ τ α c d} (h : (p s.left).Blocked s.forth s.back)
    (h' : (q s.right).Blocked s.back s.forth) : Stuck p q s := by
  intro a
  cases a with
  | left n => exact Option.map_eq_none_iff.mpr (act_of_blocked h n)
  | right n => exact Option.map_eq_none_iff.mpr (act_of_blocked h' n)

/-- In a stuck state both programs are blocked. -/
theorem Stuck.blocked {s : State σ τ α c d} (h : Stuck p q s) :
    (p s.left).Blocked s.forth s.back ∧ (q s.right).Blocked s.back s.forth :=
  ⟨blocked_of_act fun n => Option.map_eq_none_iff.mp (h (.left n)),
    blocked_of_act fun n => Option.map_eq_none_iff.mp (h (.right n))⟩

/-! ## Runs end -/

/-- Every step of a program that meets `I` leaves it less to do. -/
def Bounds (p : σ → Op σ α) (I : σ → List α → List α → Prop) (todo : σ → Nat) : Prop :=
  ∀ s out inp, I s out inp → (p s).Leads fun s' _ _ => todo s' < todo s

section Ends

variable {I : σ → List α → List α → Prop} {J : τ → List α → List α → Prop}
  {todo : σ → Nat} {todo' : τ → Nat}

/-- Every step leaves the two together less to do. -/
theorem todo_decreases (hp : Bounds p I todo) (hq : Bounds q J todo') {s s' : State σ τ α c d}
    {a : Label} (hspec : Spec I J s) (h : next p q s a = some s') :
    todo s'.left + todo' s'.right < todo s.left + todo' s.right := by
  rcases next_cases h with ⟨hright, written, bytes, hact⟩ | ⟨hleft, written, bytes, hact⟩
  · have hless := hact.leads (hp _ _ _ hspec.left)
    rw [hright]
    omega
  · have hless := hact.leads (hq _ _ _ hspec.right)
    rw [hleft]
    omega

variable (hI : Keeps p s₀ I) (hJ : Keeps q t₀ J) (hp : Bounds p I todo) (hq : Bounds q J todo')

include hI hJ hp hq

/-- **No run is longer than what there was to do.** -/
theorem run_length_le {s s' : State σ τ α c d} {as : List Label}
    (hs : (machine p q s₀ t₀ c d).Reachable s)
    (h : (machine p q s₀ t₀ c d).run s as = some s') :
    as.length ≤ todo s.left + todo' s.right := by
  induction as generalizing s with
  | nil => exact Nat.zero_le _
  | cons a as ih =>
    obtain ⟨s₁, hnext, hrun⟩ := Option.bind_eq_some_iff.mp h
    have hless := todo_decreases hp hq (reachable_spec hI hJ hs) hnext
    have hrest := ih (hs.step hnext) hrun
    rw [List.length_cons]
    omega

/-- From every state the run can be carried on until it is stuck. -/
theorem exists_stuck {s : State σ τ α c d} (hs : (machine p q s₀ t₀ c d).Reachable s) :
    ∃ as s', (machine p q s₀ t₀ c d).run s as = some s' ∧ Stuck p q s' := by
  induction hn : todo s.left + todo' s.right using Nat.strongRecOn generalizing s with
  | ind n ih =>
    by_cases hstuck : Stuck p q s
    · exact ⟨[], s, rfl, hstuck⟩
    · obtain ⟨a, ha⟩ := not_forall.mp hstuck
      obtain ⟨s₁, hnext⟩ := Option.ne_none_iff_exists'.mp ha
      have hless := todo_decreases hp hq (reachable_spec hI hJ hs) hnext
      obtain ⟨as, s', hrun, hstuck'⟩ := ih _ (hn ▸ hless) (hs.step hnext) rfl
      exact ⟨a :: as, s', Machine.run_cons hnext hrun, hstuck'⟩

end Ends

/-- A program that has stopped stays where it is. -/
theorem right_of_stop {s s' : State σ τ α c d} {as : List Label} (hstop : q s.right = .stop)
    (h : (machine p q s₀ t₀ c d).run s as = some s') : s'.right = s.right := by
  induction as generalizing s with
  | nil =>
    cases h
    rfl
  | cons a as ih =>
    obtain ⟨s₁, hnext, hrun⟩ := Option.bind_eq_some_iff.mp h
    have hsame : s₁.right = s.right := by
      cases a with
      | left n =>
        obtain ⟨r, -, rfl⟩ := Option.map_eq_some_iff.mp hnext
        rfl
      | right n =>
        obtain ⟨r, hr, -⟩ := Option.map_eq_some_iff.mp hnext
        simp only [act, hstop] at hr
        cases hr
    rw [← hsame]
    exact ih (hsame ▸ hstop) hrun

end Duplex

end RustyHermit
