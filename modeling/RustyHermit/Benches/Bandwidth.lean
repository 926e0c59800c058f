import RustyHermit.Lib.Duplex

/-!
# The bandwidth benchmark (`rust-tcp-bw`)

The client writes its buffer `n_rounds` times, and the server fills its own as often, by
`read_exact`. On a non-blocking stream `read_exact` gives up at `WouldBlock`, and the
server unwraps what it returns.

- `bytes_delivered`: the server reads what the client wrote, in order, and its buffer holds the last
  of it.
- `getsThrough_iff`: both get through in every order if and only if the client writes what the
  server reads, the stream holds what it writes besides, and the server does not look for
  `WouldBlock`, unless there is nothing to read. If it does, there is still an order in which both
  get through, but also one in which it panics.
-/

namespace RustyHermit.Benches.Bandwidth

open Duplex

/-- Where the client is. -/
inductive ClientStage where
  /-- before a round -/
  | head
  /-- in the `while` loop -/
  | write (pos : Nat)
  | done
deriving DecidableEq, Repr

structure Client where
  i : Nat
  stage : ClientStage
deriving DecidableEq, Repr

/-- Where the server is. -/
inductive ServerStage where
  /-- before a round -/
  | head
  /-- in `read_exact`, with so much of the buffer filled -/
  | readExact (pos : Nat)
  | done
  | panicked
deriving DecidableEq, Repr

structure Server where
  i : Nat
  stage : ServerStage
  buf : List UInt8
deriving DecidableEq, Repr

/-- The loops in `main` of the client. -/
def client (nRounds : Nat) (buf : List UInt8) (s : Client) : Op Client UInt8 :=
  match s.stage with
  | .head =>
    if s.i < nRounds then .goto { s with stage := .write 0 }
    else .goto { s with stage := .done }
  | .write pos =>
    if pos < buf.length then .write (buf.drop pos) fun n => { s with stage := .write (pos + n) }
    else .goto { s with i := s.i + 1, stage := .head }
  | .done => .stop

/-- One read of `read_exact`. -/
def Server.got (s : Server) (pos : Nat) (bytes : List UInt8) : Server :=
  { s with
    stage := .readExact (pos + bytes.length)
    buf := fill s.buf pos bytes }

/-- The loop in `main` of the server. -/
def server (nonBlocking : Bool) (nRounds : Nat) (s : Server) : Op Server UInt8 :=
  match s.stage with
  | .head =>
    if s.i < nRounds then .goto { s with stage := .readExact 0 }
    else .goto { s with stage := .done }
  | .readExact pos =>
    if pos < s.buf.length then
      .read (s.buf.length - pos) (s.got pos)
        -- `unwrap` of `WouldBlock`
        (if nonBlocking then some { s with stage := .panicked } else none)
    else .goto { s with i := s.i + 1, stage := .head }
  | .done => .stop
  | .panicked => .stop

def Client.start : Client where
  i := 0
  stage := .head

def Server.start (nBytes : Nat) : Server where
  i := 0
  stage := .head
  buf := List.replicate nBytes 0

/-- The benchmark on a stream that holds `c` bytes to the server and `d` bytes back. -/
def machine (nRounds : Nat) (buf : List UInt8) (nonBlocking : Bool) (nRounds' nBytes' c d : Nat) :
    Machine (State Client Server UInt8 c d) Label :=
  Duplex.machine (client nRounds buf) (server nonBlocking nRounds') .start (.start nBytes') c d

/-! ## The client -/

/-- How much of its buffer a client has written in this round. -/
def ClientStage.written : ClientStage → Nat
  | .head => 0
  | .write pos => pos
  | .done => 0

def ClientStage.InRound (rounds i : Nat) : ClientStage → Prop
  | .head => i ≤ rounds
  | .write _ => i < rounds
  | .done => i = rounds

/-- What the client knows: it has written its buffer in each round. -/
structure ClientInv (nRounds : Nat) (buf : List UInt8) (s : Client) (out inp : List UInt8) :
    Prop where
  round : s.stage.InRound nRounds s.i
  written_le : s.stage.written ≤ buf.length
  out_eq : out = (List.replicate s.i buf).flatten ++ buf.take s.stage.written

variable {nRounds nRounds' nBytes' c d : Nat} {buf : List UInt8} {nonBlocking : Bool}

theorem client_step {s : Client} {out inp : List UInt8} (h : ClientInv nRounds buf s out inp) :
    (client nRounds buf s).Leads fun s' written bytes =>
      ClientInv nRounds buf s' (out ++ written) (inp ++ bytes) := by
  obtain ⟨i, stage⟩ := s
  have hround := h.round
  have hout := h.out_eq
  cases stage with
  | head =>
    simp only [client]
    split
    · rename_i hlt
      exact ⟨hlt, Nat.zero_le _, (List.append_nil out).trans hout⟩
    · rename_i hge
      exact ⟨Nat.le_antisymm hround (Nat.le_of_not_lt hge), Nat.zero_le _,
        (List.append_nil out).trans hout⟩
  | write pos =>
    simp only [client]
    split
    · intro written _ hprefix
      refine ⟨hround, length_of_prefix_drop hprefix h.written_le, ?_⟩
      show out ++ written = _ ++ buf.take (pos + written.length)
      rw [take_add_of_piece hprefix, ← List.append_assoc]
      exact congrArg (· ++ written) hout
    · rename_i hge
      have hpos : pos = buf.length := Nat.le_antisymm h.written_le (Nat.le_of_not_lt hge)
      refine ⟨Nat.succ_le_of_lt hround, Nat.zero_le _, ?_⟩
      show out ++ [] = _ ++ buf.take 0
      rw [flatten_replicate_succ, List.take_zero, List.append_nil, List.append_nil, hout]
      show _ ++ buf.take pos = _
      rw [hpos, List.take_length]
  | done => exact trivial

theorem client_keeps (nRounds : Nat) (buf : List UInt8) :
    Keeps (client nRounds buf) .start (ClientInv nRounds buf) where
  init := ⟨Nat.zero_le _, Nat.zero_le _, rfl⟩
  step _ _ _ h := client_step h

theorem ClientInv.length_out {s : Client} {out inp : List UInt8}
    (h : ClientInv nRounds buf s out inp) :
    out.length = s.i * buf.length + s.stage.written := by
  rw [h.out_eq, List.length_append, length_flatten_replicate, List.length_take,
    Nat.min_eq_left h.written_le]

theorem ClientInv.prefix_written {s : Client} {out inp : List UInt8}
    (h : ClientInv nRounds buf s out inp) : out <+: (List.replicate nRounds buf).flatten := by
  have hround := h.round
  rw [h.out_eq]
  cases hstage : s.stage with
  | write pos =>
    rw [hstage] at hround
    refine List.IsPrefix.trans ?_ (prefix_flatten_replicate buf (Nat.succ_le_of_lt hround))
    rw [flatten_replicate_succ]
    exact (List.prefix_append_right_inj _).mpr (List.take_prefix _ _)
  | head =>
    rw [hstage] at hround
    rw [ClientStage.written, List.take_zero, List.append_nil]
    exact prefix_flatten_replicate buf hround
  | done =>
    rw [hstage] at hround
    rw [ClientStage.written, List.take_zero, List.append_nil]
    exact prefix_flatten_replicate buf (Nat.le_of_eq hround)

/-! ## The server -/

/-- How much of its buffer a server has filled in this round. -/
def ServerStage.filled : ServerStage → Nat
  | .head => 0
  | .readExact pos => pos
  | .done => 0
  | .panicked => 0

def ServerStage.InRound (rounds i : Nat) : ServerStage → Prop
  | .head => i ≤ rounds
  | .readExact _ => i < rounds
  | .done => i = rounds
  | .panicked => True

/-- What the server knows: it has filled its buffer in each round. -/
structure ServerInv (nonBlocking : Bool) (nRounds nBytes : Nat) (s : Server)
    (out inp : List UInt8) :
    Prop where
  round : s.stage.InRound nRounds s.i
  length_buf : s.buf.length = nBytes
  filled_le : s.stage.filled ≤ nBytes
  length_inp : s.stage ≠ .panicked → inp.length = s.i * nBytes + s.stage.filled
  buf_suffix : s.buf.take s.stage.filled <:+ inp
  panicked : s.stage = .panicked → nonBlocking = true ∧ 0 < nRounds * nBytes

theorem server_step {nBytes : Nat} {s : Server} {out inp : List UInt8}
    (h : ServerInv nonBlocking nRounds nBytes s out inp) :
    (server nonBlocking nRounds s).Leads fun s' written bytes =>
      ServerInv nonBlocking nRounds nBytes s' (out ++ written) (inp ++ bytes) := by
  obtain ⟨i, stage, buf⟩ := s
  have hround := h.round
  have hlength : buf.length = nBytes := h.length_buf
  have hinp := h.length_inp
  cases stage with
  | head =>
    simp only [server]
    split
    · rename_i hlt
      exact ⟨hlt, hlength, Nat.zero_le _, fun _ => by
        rw [List.append_nil]; exact hinp ServerStage.noConfusion, List.nil_suffix,
        ServerStage.noConfusion⟩
    · rename_i hge
      exact ⟨Nat.le_antisymm hround (Nat.le_of_not_lt hge), hlength, Nat.zero_le _, fun _ => by
        rw [List.append_nil]; exact hinp ServerStage.noConfusion, List.nil_suffix,
        ServerStage.noConfusion⟩
  | readExact pos =>
    simp only [server]
    split
    · rename_i hlt
      refine ⟨fun bytes _ hbytes => ?_, fun s' hs' => ?_⟩
      · have hpos : pos ≤ buf.length := Nat.le_of_lt hlt
        have hfilled : pos + bytes.length ≤ nBytes := by
          have hle : bytes.length ≤ buf.length - pos := hbytes
          omega
        refine ⟨hround, (length_fill hbytes hpos).trans hlength, hfilled, fun _ => ?_, ?_,
          ServerStage.noConfusion⟩
        · rw [List.length_append, hinp ServerStage.noConfusion]
          exact Nat.add_assoc _ _ _
        · show List.take (pos + bytes.length) (fill buf pos bytes) <:+ _
          rw [take_fill bytes hpos]
          obtain ⟨earlier, hearlier⟩ := h.buf_suffix
          exact ⟨earlier, by rw [← List.append_assoc]; exact congrArg (· ++ bytes) hearlier⟩
      · obtain ⟨hnonBlocking, heq⟩ := Option.ite_none_right_eq_some.mp hs'
        cases heq
        refine ⟨trivial, hlength, Nat.zero_le _, fun hne => absurd rfl hne, List.nil_suffix,
          fun _ => ⟨hnonBlocking, Nat.mul_pos (Nat.zero_lt_of_lt hround) ?_⟩⟩
        omega
    · rename_i hge
      have hpos : pos = nBytes := Nat.le_antisymm h.filled_le (hlength ▸ Nat.le_of_not_lt hge)
      refine ⟨Nat.succ_le_of_lt hround, hlength, Nat.zero_le _, fun _ => ?_, List.nil_suffix,
        ServerStage.noConfusion⟩
      rw [List.append_nil, hinp ServerStage.noConfusion]
      show i * nBytes + pos = (i + 1) * nBytes
      rw [hpos, Nat.succ_mul]
  | done => exact trivial
  | panicked => exact trivial

theorem server_keeps (nonBlocking : Bool) (nRounds nBytes : Nat) :
    Keeps (server nonBlocking nRounds) (.start nBytes) (ServerInv nonBlocking nRounds nBytes) where
  init := ⟨Nat.zero_le _, List.length_replicate, Nat.zero_le _, fun _ => (Nat.zero_mul nBytes).symm,
    List.nil_suffix, ServerStage.noConfusion⟩
  step _ _ _ h := server_step h

/-! ## The two together -/

variable {s : State Client Server UInt8 c d}

theorem reachable_spec (h : (machine nRounds buf nonBlocking nRounds' nBytes' c d).Reachable s) :
    Spec (ClientInv nRounds buf) (ServerInv nonBlocking nRounds' nBytes') s :=
  Duplex.reachable_spec (client_keeps nRounds buf) (server_keeps nonBlocking nRounds' nBytes') h

/-- What the server has of the client's data. -/
structure Delivered (nRounds : Nat) (buf : List UInt8) (nBytes' : Nat)
    (s : State Client Server UInt8 c d) : Prop where
  /-- all that it read is data of the client, from the beginning on -/
  inOrder : s.forth.read <+: (List.replicate nRounds buf).flatten
  /-- and while it reads into its buffer, the buffer holds the next of it -/
  next : ∀ pos, s.right.stage = .readExact pos →
    s.right.buf.take pos
      = (((List.replicate nRounds buf).flatten).drop (s.right.i * nBytes')).take pos

theorem Delivered.of_spec
    (h : Spec (ClientInv nRounds buf) (ServerInv nonBlocking nRounds' nBytes') s) :
    Delivered nRounds buf nBytes' s := by
  obtain ⟨hclient, hserver⟩ := h
  have hwritten := hclient.prefix_written
  have hread := s.forth.inOrder.trans hwritten
  refine ⟨hread, fun pos hpos => ?_⟩
  have hlength := hserver.length_inp
  have hsuffix := hserver.buf_suffix
  have hle := hserver.filled_le
  rw [hpos] at hlength hsuffix hle
  simp only [ServerStage.filled] at hlength hsuffix hle
  have hinp := hlength ServerStage.noConfusion
  have htake : (s.right.buf.take pos).length = pos := by
    rw [List.length_take, hserver.length_buf, Nat.min_eq_left hle]
  rw [List.suffix_iff_eq_drop.mp hsuffix, htake, hinp, Nat.add_sub_cancel,
    List.prefix_iff_eq_take.mp hread, hinp, List.drop_take, Nat.add_sub_cancel_left]

/-- **Delivery**, whatever the rounds, the sizes and the capacities are. -/
theorem bytes_delivered (h : (machine nRounds buf nonBlocking nRounds' nBytes' c d).Reachable s) :
    Delivered nRounds buf nBytes' s :=
  .of_spec (reachable_spec h)

/-- Three bytes of two buffers of two bytes, in a buffer of four. -/
theorem bytes_delivered_three : ∃ s, (machine 2 [7, 8] false 1 4 4 4).run
    { left := .start, right := .start 4, forth := .empty, back := .empty }
    [.left 0, .left 2, .left 0, .left 0, .left 1, .right 0, .right 3] = some s ∧
      s.right = ⟨0, .readExact 3, [7, 8, 7, 0]⟩ ∧ Delivered 2 [7, 8] 4 s := by
  obtain ⟨s, hrun, hright⟩ : ∃ s, (machine 2 [7, 8] false 1 4 4 4).run
      { left := .start, right := .start 4, forth := .empty, back := .empty }
      [.left 0, .left 2, .left 0, .left 0, .left 1, .right 0, .right 3] = some s ∧
        s.right = ⟨0, .readExact 3, [7, 8, 7, 0]⟩ := ⟨_, rfl, rfl⟩
  exact ⟨s, hrun, hright, bytes_delivered ((Machine.Reachable.init rfl).run hrun)⟩

/-! ## Where they come to a halt -/

/-- Both have done all their rounds. -/
def Finished (s : State Client Server UInt8 c d) : Prop :=
  s.left.stage = .done ∧ s.right.stage = .done

/-- The client writes what the server reads, and what it writes besides stays on the stream. -/
def Matching (written read c : Nat) : Prop :=
  read ≤ written ∧ written ≤ read + c

theorem Matching.of_eq {written read : Nat} (h : written = read) : Matching written read c :=
  ⟨Nat.le_of_eq h.symm, h ▸ Nat.le_add_right _ _⟩

theorem client_blocked {p : Client} {out : Pipe UInt8 c} {inp : Pipe UInt8 d}
    (hblocked : (client nRounds buf p).Blocked out inp) :
    (∃ pos, p.stage = .write pos ∧ pos < buf.length ∧ out.room = 0) ∨ p.stage = .done := by
  obtain ⟨i, stage⟩ := p
  cases stage with
  | head =>
    simp only [client] at hblocked
    split at hblocked <;> exact hblocked.elim
  | write pos =>
    simp only [client] at hblocked
    split at hblocked
    · rename_i hpos
      refine .inl ⟨pos, rfl, hpos, hblocked.resolve_left fun hnil => ?_⟩
      have hdrop : buf.length ≤ pos := List.drop_eq_nil_iff.mp hnil
      omega
    · exact hblocked.elim
  | done => exact .inr rfl

theorem server_blocked {p : Server} {out : Pipe UInt8 c} {inp : Pipe UInt8 d}
    (hblocked : (server nonBlocking nRounds p).Blocked out inp) :
    (∃ pos, p.stage = .readExact pos ∧ pos < p.buf.length ∧ inp.held = []) ∨ p.stage = .done ∨
      p.stage = .panicked := by
  obtain ⟨i, stage, buf⟩ := p
  cases stage with
  | head =>
    simp only [server] at hblocked
    split at hblocked <;> exact hblocked.elim
  | readExact pos =>
    simp only [server] at hblocked
    split at hblocked
    · rename_i hpos
      refine .inl ⟨pos, rfl, hpos, hblocked.2.resolve_left fun hzero => ?_⟩
      have hroom : buf.length - pos = 0 := hzero
      have hlt : pos < buf.length := hpos
      omega
    · exact hblocked.elim
  | done => exact .inr (.inl rfl)
  | panicked => exact .inr (.inr rfl)

/-- With matching amounts of data, and a server that does not look for `WouldBlock` or has nothing
to read, only a finished run comes to a halt. -/
theorem finished_of_stuck (hc : 0 < c)
    (hdata : Matching (nRounds * buf.length) (nRounds' * nBytes') c)
    (hnonBlocking : nonBlocking = true → nRounds' * nBytes' = 0)
    (h : (machine nRounds buf nonBlocking nRounds' nBytes' c d).Reachable s)
    (hstuck : Stuck (client nRounds buf) (server nonBlocking nRounds') s) : Finished s := by
  obtain ⟨hclient, hserver⟩ := reachable_spec h
  obtain ⟨hblocked, hblocked'⟩ := hstuck.blocked
  obtain ⟨hless, hfits⟩ := hdata
  have hround := hclient.round
  have hround' := hserver.round
  have hout := hclient.length_out
  have hinp := hserver.length_inp
  -- the server waits for data that is still to come, or is done
  rcases server_blocked hblocked' with ⟨r, hstage', hr, hempty⟩ | hdone | hpanicked
  · rw [hstage'] at hround' hinp
    have hread := hinp ServerStage.noConfusion
    simp only [ServerStage.filled, ServerStage.InRound] at hround' hread
    have hforth := Pipe.written_of_held hempty
    rw [hserver.length_buf] at hr
    have hmore : (s.right.i + 1) * nBytes' ≤ nRounds' * nBytes' := Nat.mul_le_mul_right _ hround'
    rw [Nat.succ_mul] at hmore
    rcases client_blocked hblocked with ⟨pos, hstage, hpos, hroom⟩ | hdone
    · have hfull := Pipe.length_written_of_room hroom
      rw [hforth] at hfull
      omega
    · rw [hdone] at hround hout
      simp only [ClientStage.written, ClientStage.InRound] at hround hout
      rw [hround, hforth] at hout
      omega
  · rw [hdone] at hround' hinp
    have hread := hinp ServerStage.noConfusion
    simp only [ServerStage.filled, ServerStage.InRound] at hround' hread
    rw [hround'] at hread
    rcases client_blocked hblocked with ⟨pos, hstage, hpos, hroom⟩ | hdone'
    · have hfull := Pipe.length_written_of_room hroom
      rw [hstage] at hround hout
      simp only [ClientStage.written, ClientStage.InRound] at hround hout
      have hmore : (s.left.i + 1) * buf.length ≤ nRounds * buf.length :=
        Nat.mul_le_mul_right _ hround
      rw [Nat.succ_mul] at hmore
      omega
    · exact ⟨hdone', hdone⟩
  · obtain ⟨hlooks, hsome⟩ := hserver.panicked hpanicked
    have hnone := hnonBlocking hlooks
    omega

/-- Where a client is that writes. -/
theorem client_writes {p : Client} (h : (client nRounds buf p).writes = true) :
    ∃ pos, p.stage = .write pos ∧ pos < buf.length := by
  obtain ⟨i, stage⟩ := p
  cases stage with
  | write pos =>
    simp only [client] at h
    split at h
    · rename_i hpos
      exact ⟨pos, rfl, hpos⟩
    · cases h
  | head =>
    simp only [client] at h
    split at h <;> cases h
  | done => cases h

theorem server_not_writes (p : Server) : (server nonBlocking nRounds p).writes = false := by
  obtain ⟨i, stage, buf⟩ := p
  cases stage with
  | head | readExact =>
    simp only [server]
    split <;> rfl
  | done | panicked => rfl

/-- Where a server is that has stopped. -/
theorem server_stage_of_stop {p : Server} (h : server nonBlocking nRounds p = .stop) :
    p.stage = .done ∨ p.stage = .panicked := by
  obtain ⟨i, stage, buf⟩ := p
  cases stage with
  | done => exact .inl rfl
  | panicked => exact .inr rfl
  | head | readExact =>
    simp only [server] at h
    split at h <;> cases h

/-- **The client does not write any more when the server has stopped**: it has read all that there
is to write. -/
theorem not_writes_of_stop (hdata : nRounds * buf.length = nRounds' * nBytes')
    (hnonBlocking : nonBlocking = true → nRounds' * nBytes' = 0)
    (h : (machine nRounds buf nonBlocking nRounds' nBytes' c d).Reachable s)
    (hstop : server nonBlocking nRounds' s.right = .stop) :
    (client nRounds buf s.left).writes = false := by
  refine Bool.eq_false_iff.mpr fun hwrites => ?_
  obtain ⟨hclient, hserver⟩ := reachable_spec h
  have hforth := s.forth.length_read_le
  have hround := hclient.round
  have hround' := hserver.round
  have hout := hclient.length_out
  have hinp := hserver.length_inp
  obtain ⟨pos, hstage, hpos⟩ := client_writes hwrites
  rcases server_stage_of_stop hstop with hdone | hpanicked
  · rw [hstage] at hround hout
    rw [hdone] at hround' hinp
    have hread := hinp ServerStage.noConfusion
    simp only [ClientStage.written, ClientStage.InRound, ServerStage.filled,
      ServerStage.InRound] at hround hout hround' hread
    have hmore : (s.left.i + 1) * buf.length ≤ nRounds * buf.length :=
      Nat.mul_le_mul_right _ hround
    rw [Nat.succ_mul] at hmore
    rw [hround'] at hread
    omega
  · obtain ⟨hlooks, hsome⟩ := hserver.panicked hpanicked
    have hnone := hnonBlocking hlooks
    omega

/-- In a finished run each has moved all of its data. -/
theorem lengths_of_finished
    (h : (machine nRounds buf nonBlocking nRounds' nBytes' c d).Reachable s)
    (hfinished : Finished s) : s.forth.written.length = nRounds * buf.length ∧
      s.forth.read.length = nRounds' * nBytes' := by
  obtain ⟨hclient, hserver⟩ := reachable_spec h
  obtain ⟨hdone, hdone'⟩ := hfinished
  have hround := hclient.round
  have hround' := hserver.round
  have hout := hclient.length_out
  have hinp := hserver.length_inp
  rw [hdone] at hround hout
  rw [hdone'] at hround' hinp
  have hread := hinp ServerStage.noConfusion
  simp only [ClientStage.written, ClientStage.InRound, ServerStage.filled,
    ServerStage.InRound] at hround hout hround' hread
  rw [hround] at hout
  rw [hround'] at hread
  exact ⟨hout, hread⟩

theorem matching_of_finished
    (h : (machine nRounds buf nonBlocking nRounds' nBytes' c d).Reachable s)
    (hfinished : Finished s) : Matching (nRounds * buf.length) (nRounds' * nBytes') c := by
  obtain ⟨hwritten, hread⟩ := lengths_of_finished h hfinished
  rw [← hwritten, ← hread]
  exact ⟨s.forth.length_read_le, s.forth.bounded⟩

/-- With the same amount of data on both sides, all of it has been read then. -/
theorem read_eq_of_finished (hdata : nRounds * buf.length = nRounds' * nBytes')
    (h : (machine nRounds buf nonBlocking nRounds' nBytes' c d).Reachable s)
    (hfinished : Finished s) : s.forth.read = s.forth.written := by
  obtain ⟨hwritten, hread⟩ := lengths_of_finished h hfinished
  exact s.forth.inOrder.eq_of_length (by omega)

/-! ## Runs end -/

/-- How many steps the client has to take at most. -/
def clientTodo (nRounds nBytes : Nat) (s : Client) : Nat :=
  match s.stage with
  | .head => (nRounds - s.i) * (nBytes + 2) + 1
  | .write pos => (nRounds - (s.i + 1)) * (nBytes + 2) + nBytes + 2 - pos
  | .done => 0

/-- How many steps the server has to take at most. -/
def serverTodo (nRounds nBytes : Nat) (s : Server) : Nat :=
  match s.stage with
  | .head => (nRounds - s.i) * (nBytes + 2) + 1
  | .readExact pos => (nRounds - (s.i + 1)) * (nBytes + 2) + nBytes + 2 - pos
  | .done => 0
  | .panicked => 0

/-- A round that is begun. -/
theorem rounds_succ (steps : Nat) {rounds i : Nat} (h : i < rounds) :
    (rounds - i) * steps = (rounds - (i + 1)) * steps + steps := by
  have hsucc : rounds - i = rounds - (i + 1) + 1 := by omega
  rw [hsucc, Nat.succ_mul]

theorem client_bounds (nRounds : Nat) (buf : List UInt8) :
    Bounds (client nRounds buf) (ClientInv nRounds buf) (clientTodo nRounds buf.length) := by
  rintro ⟨i, stage⟩ out inp h
  cases stage with
  | head =>
    simp only [client]
    split
    · rename_i hlt
      have hround := rounds_succ (buf.length + 2) hlt
      simp only [Op.Leads, clientTodo]
      omega
    · exact Nat.succ_pos _
  | write pos =>
    have hpos : pos ≤ buf.length := h.written_le
    simp only [client]
    split
    · intro written hne _
      have hwritten := List.length_pos_iff.mpr hne
      simp only [clientTodo]
      omega
    · simp only [Op.Leads, clientTodo]
      omega
  | done => exact trivial

theorem server_bounds (nonBlocking : Bool) (nRounds nBytes : Nat) :
    Bounds (server nonBlocking nRounds) (ServerInv nonBlocking nRounds nBytes)
      (serverTodo nRounds nBytes) := by
  rintro ⟨i, stage, buf⟩ out inp h
  have hlength : buf.length = nBytes := h.length_buf
  cases stage with
  | head =>
    simp only [server]
    split
    · rename_i hlt
      have hround := rounds_succ (nBytes + 2) hlt
      simp only [Op.Leads, serverTodo]
      omega
    · exact Nat.succ_pos _
  | readExact pos =>
    have hpos : pos ≤ nBytes := h.filled_le
    simp only [server]
    split
    · refine ⟨fun bytes hne hle => ?_, fun s' hs' => ?_⟩
      · have hread := List.length_pos_iff.mpr hne
        have hroom : bytes.length ≤ buf.length - pos := hle
        simp only [Server.got, serverTodo]
        omega
      · obtain ⟨-, heq⟩ := Option.ite_none_right_eq_some.mp hs'
        cases heq
        simp only [serverTodo]
        omega
    · simp only [Op.Leads, serverTodo]
      omega
  | done => exact trivial
  | panicked => exact trivial

/-! ## Getting through -/

/-- The state before the first step. -/
def start (nBytes' c d : Nat) : State Client Server UInt8 c d where
  left := .start
  right := .start nBytes'
  forth := .empty
  back := .empty

/-- Both programs get through, in whatever order they take their steps. -/
structure GetsThrough (nRounds : Nat) (buf : List UInt8) (nonBlocking : Bool)
    (nRounds' nBytes' c d : Nat) : Prop where
  /-- no run goes on for longer than this -/
  ends : ∀ as s, (machine nRounds buf nonBlocking nRounds' nBytes' c d).run (start nBytes' c d) as
    = some s → as.length ≤ nRounds * (buf.length + 2) + nRounds' * (nBytes' + 2) + 2
  /-- and where it comes to a halt, both have finished -/
  finishes : ∀ s, (machine nRounds buf nonBlocking nRounds' nBytes' c d).Reachable s →
    Stuck (client nRounds buf) (server nonBlocking nRounds') s → Finished s

/-- Both programs may get through. -/
def MayGetThrough (nRounds : Nat) (buf : List UInt8) (nonBlocking : Bool)
    (nRounds' nBytes' c d : Nat) : Prop :=
  ∃ s, (machine nRounds buf nonBlocking nRounds' nBytes' c d).Reachable s ∧ Finished s

theorem start_reachable :
    (machine nRounds buf nonBlocking nRounds' nBytes' c d).Reachable (start nBytes' c d) :=
  Machine.Reachable.init rfl

/-- Every state reached can be carried on to a halt. -/
theorem carry_on (hs : (machine nRounds buf nonBlocking nRounds' nBytes' c d).Reachable s) :
    ∃ as s', (machine nRounds buf nonBlocking nRounds' nBytes' c d).run s as = some s' ∧
      Stuck (client nRounds buf) (server nonBlocking nRounds') s' :=
  exists_stuck (client_keeps nRounds buf) (server_keeps nonBlocking nRounds' nBytes')
    (client_bounds nRounds buf) (server_bounds nonBlocking nRounds' nBytes') hs

theorem getsThrough_of (hc : 0 < c)
    (hdata : Matching (nRounds * buf.length) (nRounds' * nBytes') c)
    (hnonBlocking : nonBlocking = true → nRounds' * nBytes' = 0) :
    GetsThrough nRounds buf nonBlocking nRounds' nBytes' c d := by
  refine ⟨fun as s hrun => ?_, fun s hs hstuck => finished_of_stuck hc hdata hnonBlocking hs hstuck⟩
  have hle := run_length_le (client_keeps nRounds buf) (server_keeps nonBlocking nRounds' nBytes')
    (client_bounds nRounds buf) (server_bounds nonBlocking nRounds' nBytes') start_reachable hrun
  refine Nat.le_trans hle (Nat.le_of_eq ?_)
  show (nRounds - 0) * _ + 1 + ((nRounds' - 0) * _ + 1) = _
  rw [Nat.sub_zero, Nat.sub_zero]
  omega

/-- A server that looks for `WouldBlock` does what one does that waits. -/
theorem act_nonBlocking {p : Server} {out : Pipe UInt8 c} {inp : Pipe UInt8 d} {n : Nat}
    {r : Server × Pipe UInt8 c × Pipe UInt8 d}
    (h : act (server false nRounds) p out inp n = some r) (nonBlocking : Bool) :
    act (server nonBlocking nRounds) p out inp n = some r := by
  obtain ⟨i, stage, buf⟩ := p
  cases stage with
  | readExact pos =>
    by_cases hpos : pos < buf.length
    · simp only [act, server, if_pos hpos] at h ⊢
      by_cases hn : n = 0
      · rw [if_pos hn] at h
        cases h
      · rw [if_neg hn] at h ⊢
        exact h
    · simp only [act, server, if_neg hpos] at h ⊢
      exact h
  | _ => exact h

theorem reachable_nonBlocking (nonBlocking : Bool)
    (h : (machine nRounds buf false nRounds' nBytes' c d).Reachable s) :
    (machine nRounds buf nonBlocking nRounds' nBytes' c d).Reachable s := by
  refine Machine.Reachable.invariant (M := machine nRounds buf false nRounds' nBytes' c d)
    (I := (machine nRounds buf nonBlocking nRounds' nBytes' c d).Reachable)
    (fun s hs => Machine.Reachable.init hs) (fun s a s' hs hnext => ?_) h
  refine hs.step (a := a) ?_
  cases a with
  | left n => exact hnext
  | right n =>
    obtain ⟨r, hr, rfl⟩ := Option.map_eq_some_iff.mp hnext
    exact Option.map_eq_some_iff.mpr ⟨r, act_nonBlocking hr nonBlocking, rfl⟩

/-- The server reads before anything is there. -/
theorem panics (hdata : 0 < nRounds' * nBytes') :
    ∃ s, (machine nRounds buf true nRounds' nBytes' c d).Reachable s ∧
      s.right.stage = .panicked := by
  have hround : 0 < nRounds' := Nat.pos_of_mul_pos_right hdata
  have hbytes : 0 < (List.replicate nBytes' (0 : UInt8)).length := by
    rw [List.length_replicate]
    exact Nat.pos_of_mul_pos_left hdata
  have hhead : server true nRounds' (.start nBytes')
      = .goto { Server.start nBytes' with stage := .readExact 0 } := if_pos hround
  have hread : server true nRounds' { Server.start nBytes' with stage := .readExact 0 }
      = .read _ (Server.got _ 0) (some { Server.start nBytes' with stage := .panicked }) :=
    if_pos hbytes
  have hbegin : (machine nRounds buf true nRounds' nBytes' c d).next (start nBytes' c d) (.right 0)
      = some { start nBytes' c d with
          right := { Server.start nBytes' with stage := .readExact 0 } } := by
    show Option.map _ (act _ (Server.start nBytes') _ _ 0) = _
    rw [act, hhead]
    rfl
  have hpanic : (machine nRounds buf true nRounds' nBytes' c d).next
      { start nBytes' c d with right := { Server.start nBytes' with stage := .readExact 0 } }
      (.right 0)
      = some { start nBytes' c d with
          right := { Server.start nBytes' with stage := .panicked } } := by
    show Option.map _ (act _ { Server.start nBytes' with stage := .readExact 0 } _ _ 0) = _
    rw [act, hread]
    rfl
  exact ⟨_, (start_reachable.step hbegin).step hpanic, rfl⟩

/-- **Getting through**: on a stream that can hold something, both programs may get through if
and only if their amounts of data match. They do in every order if and only if, besides, the server
does not look for `WouldBlock` or has nothing to read. -/
theorem getsThrough_iff (hc : 0 < c) :
    (GetsThrough nRounds buf nonBlocking nRounds' nBytes' c d ↔
      Matching (nRounds * buf.length) (nRounds' * nBytes') c ∧
        (nonBlocking = true → nRounds' * nBytes' = 0)) ∧
    (MayGetThrough nRounds buf nonBlocking nRounds' nBytes' c d ↔
      Matching (nRounds * buf.length) (nRounds' * nBytes') c) := by
  refine ⟨⟨fun h => ⟨?_, ?_⟩, fun h => getsThrough_of hc h.1 h.2⟩, ⟨?_, ?_⟩⟩
  · have hstart : (machine nRounds buf nonBlocking nRounds' nBytes' c d).Reachable
        (start nBytes' c d) := start_reachable
    obtain ⟨as, s, hrun, hstuck⟩ := carry_on hstart
    have hs := hstart.run hrun
    exact matching_of_finished hs (h.finishes s hs hstuck)
  -- a server that has panicked does not finish
  · rintro rfl
    refine Nat.eq_zero_of_not_pos fun hdata => ?_
    obtain ⟨s, hs, hpanicked⟩ : ∃ s, (machine nRounds buf true nRounds' nBytes' c d).Reachable s ∧
        s.right.stage = .panicked := panics hdata
    obtain ⟨as, s', hrun, hstuck⟩ := carry_on hs
    have hstop : server true nRounds' s.right = .stop := by
      rw [server, hpanicked]
    have hright : s'.right = s.right := right_of_stop hstop hrun
    have hdone := (h.finishes s' (hs.run hrun) hstuck).2
    rw [hright, hpanicked] at hdone
    cases hdone
  · rintro ⟨s, hs, hfinished⟩
    exact matching_of_finished hs hfinished
  · intro hdata
    have hstart : (machine nRounds buf false nRounds' nBytes' c d).Reachable
        (start nBytes' c d) := start_reachable
    obtain ⟨as, s, hrun, hstuck⟩ := carry_on hstart
    have hs := hstart.run hrun
    have hfinished := finished_of_stuck hc hdata (fun h => by cases h) hs hstuck
    exact ⟨s, reachable_nonBlocking nonBlocking hs, hfinished⟩

/-- The default configuration is one that does not wait. -/
theorem getsThrough_default : GetsThrough 100000 [0] false 100000 1 1 1 ∧
    ¬ GetsThrough 100000 [0] true 100000 1 1 1 := by
  constructor
  · exact (getsThrough_iff Nat.one_pos).1.mpr ⟨⟨by decide, by decide⟩, fun h => by cases h⟩
  · intro h
    exact absurd (((getsThrough_iff Nat.one_pos).1.mp h).2 rfl) (by decide)

end RustyHermit.Benches.Bandwidth
