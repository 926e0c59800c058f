import Mathlib.Tactic.Ring
import RustyHermit.Lib.Duplex

/-!
# The latency benchmark (`rust-tcp-latency`)

The client sends a message and waits until it has all of it back, and the server sends
back what it receives; both do so `n_rounds * 2` times. They are programs on a stream
(`Duplex`): a call moves any part of what it could, and the two run in any order. The loops
are those of `send_message` and `receive_message` (`connection.rs`).

- `echoed`: whatever the two are started with, the client has in its buffer what it
  sent, and it never has more than one message under way.
- `finishes_iff`: both get through if and only if they are `Compatible`, and then they do so
  in every order. "Make sure n_rounds is the same" is enough but not necessary: it takes the same
  amount of data, messages of the server that divide those of the client, and a stream that holds
  what a client that does not read yet is sent back. And twice the rounds must be a `usize`, and
  the client must not divide by zero to track its progress.
-/

namespace RustyHermit.Benches.Latency

open Duplex

/-- Where a program is in its `for` loop. -/
inductive Stage where
  /-- before a round -/
  | head
  /-- in the loop of `send_message`, where `send` is this -/
  | send (pos : Nat)
  /-- in the loop of `receive_message`, where `recv` is this -/
  | receive (pos : Nat)
  | done
  /-- `i % progress_tracking_percentage` divides by zero -/
  | panicked
  /-- `n_rounds * 2` is more than a `usize` holds, and the overflow is checked -/
  | overflowed
deriving DecidableEq, Repr

/-- A program in round `i`, with the buffer that it reads into. -/
structure Peer where
  i : Nat
  stage : Stage
  buf : List UInt8
deriving DecidableEq, Repr

/-- `vec![0; n_bytes]`, before the first round. -/
def Peer.start (nBytes : Nat) : Peer where
  i := 0
  stage := .head
  buf := List.replicate nBytes 0

/-- One read of `receive_message`. -/
def Peer.got (s : Peer) (pos : Nat) (bytes : List UInt8) : Peer :=
  { s with
    stage := .receive (pos + bytes.length)
    buf := fill s.buf pos bytes }

/-- `progress_tracking_percentage`. -/
def progressTrackingPercentage (nRounds : Nat) : Nat :=
  nRounds * 2 / 100

/-- The loop in `main` of the client; `wbuf` has `n_bytes`. -/
def client (nRounds : Nat) (wbuf : List UInt8) (s : Peer) : Op Peer UInt8 :=
  match s.stage with
  | .head =>
    if 2 ^ 64 ≤ nRounds * 2 then .goto { s with stage := .overflowed }
    else if s.i < nRounds * 2 then .goto { s with stage := .send 0 }
    else .goto { s with stage := .done }
  | .send pos =>
    if pos < wbuf.length then .write (wbuf.drop pos) fun n => { s with stage := .send (pos + n) }
    else .goto { s with stage := .receive 0 }
  | .receive pos =>
    if pos < wbuf.length then .read (s.buf.length - pos) (s.got pos) none
    else if progressTrackingPercentage nRounds = 0 then .goto { s with stage := .panicked }
    else .goto { s with i := s.i + 1, stage := .head }
  | .done => .stop
  | .panicked => .stop
  | .overflowed => .stop

/-- The loop in `main` of the server. -/
def server (nRounds nBytes : Nat) (s : Peer) : Op Peer UInt8 :=
  match s.stage with
  | .head =>
    if 2 ^ 64 ≤ nRounds * 2 then .goto { s with stage := .overflowed }
    else if s.i < nRounds * 2 then .goto { s with stage := .receive 0 }
    else .goto { s with stage := .done }
  | .receive pos =>
    if pos < nBytes then .read (s.buf.length - pos) (s.got pos) none
    else .goto { s with stage := .send 0 }
  | .send pos =>
    if pos < nBytes then .write (s.buf.drop pos) fun n => { s with stage := .send (pos + n) }
    else .goto { s with i := s.i + 1, stage := .head }
  | .done => .stop
  | .panicked => .stop
  | .overflowed => .stop

/-- The benchmark on a stream that holds `c` bytes to the server and `d` bytes back. -/
def machine (nRounds : Nat) (wbuf : List UInt8) (nRounds' nBytes' c d : Nat) :
    Machine (State Peer Peer UInt8 c d) Label :=
  Duplex.machine (client nRounds wbuf) (server nRounds' nBytes')
    (.start wbuf.length) (.start nBytes') c d

/-! ## The client -/

/-- How much of its message a client has sent in this round. -/
def Stage.sent (nBytes : Nat) : Stage → Nat
  | .head => 0
  | .send pos => pos
  | .receive _ => nBytes
  | .done => 0
  | .panicked => nBytes
  | .overflowed => 0

/-- How much of its message has come back to a client in this round. -/
def Stage.back (nBytes : Nat) : Stage → Nat
  | .head => 0
  | .send _ => 0
  | .receive pos => pos
  | .done => 0
  | .panicked => nBytes
  | .overflowed => 0

/-- The round is one of the loop, if the client is in one. -/
def Stage.InRound (rounds i : Nat) : Stage → Prop
  | .head => i ≤ rounds
  | .done => i = rounds
  | .overflowed => i ≤ rounds
  | _ => i < rounds

/-- Past the head of the loop, `n_rounds * 2` has been computed. -/
def Stage.Checked (nRounds : Nat) : Stage → Prop
  | .head => True
  | .overflowed => 2 ^ 64 ≤ nRounds * 2
  | _ => nRounds * 2 < 2 ^ 64

/-- What the client knows: it has sent a message in each round, and all of it came back before
the next. -/
structure ClientInv (nRounds : Nat) (wbuf : List UInt8) (s : Peer) (out inp : List UInt8) :
    Prop where
  round : s.stage.InRound (nRounds * 2) s.i
  length_buf : s.buf.length = wbuf.length
  sent_le : s.stage.sent wbuf.length ≤ wbuf.length
  back_le : s.stage.back wbuf.length ≤ wbuf.length
  out_eq : out = (List.replicate s.i wbuf).flatten ++ wbuf.take (s.stage.sent wbuf.length)
  length_inp : inp.length = s.i * wbuf.length + s.stage.back wbuf.length
  buf_suffix : s.buf.take (s.stage.back wbuf.length) <:+ inp
  tracked : progressTrackingPercentage nRounds = 0 → s.i = 0
  panicked : s.stage = .panicked → progressTrackingPercentage nRounds = 0
  checked : s.stage.Checked nRounds

variable {nRounds nBytes nRounds' nBytes' c d : Nat} {wbuf : List UInt8}

/-- A step that only goes on to another stage. -/
theorem ClientInv.went {s : Peer} {out inp : List UInt8} {stage : Stage}
    (h : ClientInv nRounds wbuf s out inp) (hround : stage.InRound (nRounds * 2) s.i)
    (hsent : stage.sent wbuf.length = s.stage.sent wbuf.length)
    (hback : stage.back wbuf.length = s.stage.back wbuf.length)
    (hpanicked : stage = .panicked → progressTrackingPercentage nRounds = 0)
    (hchecked : stage.Checked nRounds) :
    ClientInv nRounds wbuf { s with stage := stage } (out ++ []) (inp ++ []) := by
  rw [List.append_nil, List.append_nil]
  exact {
    round := hround
    length_buf := h.length_buf
    sent_le := hsent ▸ h.sent_le
    back_le := hback ▸ h.back_le
    out_eq := hsent ▸ h.out_eq
    length_inp := hback ▸ h.length_inp
    buf_suffix := hback ▸ h.buf_suffix
    tracked := h.tracked
    panicked := hpanicked
    checked := hchecked }

theorem client_step {s : Peer} {out inp : List UInt8} (h : ClientInv nRounds wbuf s out inp) :
    (client nRounds wbuf s).Leads fun s' written bytes =>
      ClientInv nRounds wbuf s' (out ++ written) (inp ++ bytes) := by
  obtain ⟨i, stage, buf⟩ := s
  have hround := h.round
  have hout := h.out_eq
  have hinp := h.length_inp
  have hlength := h.length_buf
  have hchecked := h.checked
  cases stage with
  | head =>
    simp only [client]
    split
    · rename_i hmuch
      exact h.went hround rfl rfl Stage.noConfusion hmuch
    · rename_i hfits
      replace hfits := Nat.lt_of_not_le hfits
      split
      · rename_i hlt
        exact h.went hlt rfl rfl Stage.noConfusion hfits
      · rename_i hge
        have hround' := Nat.le_antisymm hround (Nat.le_of_not_lt hge)
        exact h.went hround' rfl rfl Stage.noConfusion hfits
  | send pos =>
    simp only [client]
    split
    · intro written _ hprefix
      rw [List.append_nil]
      exact { h with
        round := hround
        sent_le := length_of_prefix_drop hprefix h.sent_le
        out_eq := by
          show out ++ written = _ ++ wbuf.take (pos + written.length)
          rw [take_add_of_piece hprefix, ← List.append_assoc]
          exact congrArg (· ++ written) hout
        panicked := Stage.noConfusion
        checked := hchecked }
    · rename_i hge
      have hpos : wbuf.length = pos := Nat.le_antisymm (Nat.le_of_not_lt hge) h.sent_le
      exact h.went hround hpos rfl Stage.noConfusion hchecked
  | receive pos =>
    simp only [client]
    split
    · refine ⟨fun bytes _ hbytes => ?_, fun s' hs' => by cases hs'⟩
      have hpos : pos ≤ buf.length := hlength ▸ h.back_le
      have hbuf : (Peer.got ⟨i, .receive pos, buf⟩ pos bytes).buf.length = buf.length :=
        length_fill hbytes hpos
      have hback : pos + bytes.length ≤ wbuf.length := by
        have hle : bytes.length ≤ buf.length - pos := hbytes
        have hlength : buf.length = wbuf.length := hlength
        omega
      show ClientInv _ _ _ (out ++ []) (inp ++ bytes)
      rw [List.append_nil]
      exact {
        round := hround
        length_buf := hbuf.trans hlength
        sent_le := h.sent_le
        back_le := hback
        out_eq := hout
        length_inp := by
          rw [List.length_append, hinp]
          exact Nat.add_assoc _ _ _
        buf_suffix := by
          show List.take (pos + bytes.length) (fill buf pos bytes) <:+ _
          rw [take_fill bytes hpos]
          obtain ⟨earlier, hearlier⟩ := h.buf_suffix
          exact ⟨earlier, by rw [← List.append_assoc]; exact congrArg (· ++ bytes) hearlier⟩
        tracked := h.tracked
        panicked := Stage.noConfusion
        checked := hchecked }
    · rename_i hge
      have hpos : pos = wbuf.length := Nat.le_antisymm h.back_le (Nat.le_of_not_lt hge)
      split
      · rename_i hzero
        exact h.went hround rfl hpos.symm (fun _ => hzero) hchecked
      -- all of the message is back: the next round, or the end
      · rename_i hne
        show ClientInv _ _ _ (out ++ []) (inp ++ [])
        rw [List.append_nil, List.append_nil]
        exact {
          round := Nat.succ_le_of_lt hround
          length_buf := hlength
          sent_le := Nat.zero_le _
          back_le := Nat.zero_le _
          out_eq := by
            rw [flatten_replicate_succ]
            show out = _ ++ wbuf ++ wbuf.take 0
            rw [List.take_zero, List.append_nil, hout]
            show _ ++ wbuf.take wbuf.length = _
            rw [List.take_length]
          length_inp := by
            show inp.length = (i + 1) * wbuf.length
            rw [hinp, Nat.succ_mul]
            exact congrArg _ hpos
          buf_suffix := List.nil_suffix
          tracked := fun hzero => absurd hzero hne
          panicked := Stage.noConfusion
          checked := trivial }
  | done | panicked | overflowed => exact trivial

theorem client_keeps (nRounds : Nat) (wbuf : List UInt8) :
    Keeps (client nRounds wbuf) (.start wbuf.length) (ClientInv nRounds wbuf) where
  init := {
    round := Nat.zero_le _
    length_buf := List.length_replicate
    sent_le := Nat.zero_le _
    back_le := Nat.zero_le _
    out_eq := by
      show [] = (List.replicate 0 wbuf).flatten ++ wbuf.take 0
      rw [List.take_zero]
      rfl
    length_inp := (Nat.zero_mul wbuf.length).symm
    buf_suffix := List.nil_suffix
    tracked := fun _ => rfl
    panicked := fun h => by cases h
    checked := trivial }
  step _ _ _ h := client_step h

/-! ## The server -/

/-- How much of a message a server has received in this round. -/
def Stage.received (nBytes : Nat) : Stage → Nat
  | .receive pos => pos
  | .send _ => nBytes
  | _ => 0

/-- How much of a message a server has sent back in this round. -/
def Stage.answered : Stage → Nat
  | .send pos => pos
  | _ => 0

/-- What a server with this buffer has received and not sent back. -/
def Stage.pending (buf : List UInt8) : Stage → List UInt8
  | .receive pos => buf.take pos
  | .send pos => buf.drop pos
  | _ => []

/-- What the server knows: it has sent back all that it received, but for what is
pending. -/
structure ServerInv (nRounds nBytes : Nat) (s : Peer) (out inp : List UInt8) : Prop where
  round : s.stage.InRound (nRounds * 2) s.i
  length_buf : s.buf.length = nBytes
  received_le : s.stage.received nBytes ≤ nBytes
  answered_le : s.stage.answered ≤ nBytes
  echo : inp = out ++ s.stage.pending s.buf
  length_out : out.length = s.i * nBytes + s.stage.answered
  not_panicked : s.stage ≠ .panicked
  checked : s.stage.Checked nRounds

/-- A step that only goes on to another stage. -/
theorem ServerInv.went {s : Peer} {out inp : List UInt8} {stage : Stage}
    (h : ServerInv nRounds nBytes s out inp) (hround : stage.InRound (nRounds * 2) s.i)
    (hreceived : stage.received nBytes ≤ nBytes) (hanswered : stage.answered = s.stage.answered)
    (hpending : stage.pending s.buf = s.stage.pending s.buf) (hstage : stage ≠ .panicked)
    (hchecked : stage.Checked nRounds) :
    ServerInv nRounds nBytes { s with stage := stage } (out ++ []) (inp ++ []) := by
  rw [List.append_nil, List.append_nil]
  exact {
    round := hround
    length_buf := h.length_buf
    received_le := hreceived
    answered_le := hanswered ▸ h.answered_le
    echo := hpending ▸ h.echo
    length_out := hanswered ▸ h.length_out
    not_panicked := hstage
    checked := hchecked }

theorem server_step {s : Peer} {out inp : List UInt8} (h : ServerInv nRounds nBytes s out inp) :
    (server nRounds nBytes s).Leads fun s' written bytes =>
      ServerInv nRounds nBytes s' (out ++ written) (inp ++ bytes) := by
  obtain ⟨i, stage, buf⟩ := s
  have hround := h.round
  have hlength : buf.length = nBytes := h.length_buf
  have hecho := h.echo
  have hout := h.length_out
  have hchecked := h.checked
  cases stage with
  | head =>
    simp only [server]
    split
    · rename_i hmuch
      exact h.went hround (Nat.zero_le _) rfl rfl Stage.noConfusion hmuch
    · rename_i hfits
      replace hfits := Nat.lt_of_not_le hfits
      split
      · rename_i hlt
        exact h.went hlt (Nat.zero_le _) rfl rfl Stage.noConfusion hfits
      · rename_i hge
        have hround' := Nat.le_antisymm hround (Nat.le_of_not_lt hge)
        exact h.went hround' (Nat.zero_le _) rfl rfl Stage.noConfusion hfits
  | receive pos =>
    simp only [server]
    split
    · refine ⟨fun bytes _ hbytes => ?_, fun s' hs' => by cases hs'⟩
      have hpos : pos ≤ buf.length := hlength ▸ h.received_le
      have hbuf : (Peer.got ⟨i, .receive pos, buf⟩ pos bytes).buf.length = buf.length :=
        length_fill hbytes hpos
      have hreceived : pos + bytes.length ≤ nBytes := by
        have hle : bytes.length ≤ buf.length - pos := hbytes
        omega
      show ServerInv _ _ _ (out ++ []) (inp ++ bytes)
      rw [List.append_nil]
      exact {
        round := hround
        length_buf := hbuf.trans hlength
        received_le := hreceived
        answered_le := Nat.zero_le _
        echo := by
          show inp ++ bytes = out ++ List.take (pos + bytes.length) (fill buf pos bytes)
          rw [take_fill bytes hpos, ← List.append_assoc]
          exact congrArg (· ++ bytes) hecho
        length_out := hout
        not_panicked := Stage.noConfusion
        checked := hchecked }
    · rename_i hge
      have hpos : pos = nBytes := Nat.le_antisymm h.received_le (Nat.le_of_not_lt hge)
      refine h.went hround (Nat.le_refl _) rfl ?_ Stage.noConfusion hchecked
      -- all of the buffer is filled, and nothing of it is sent
      show buf.drop 0 = buf.take pos
      rw [List.drop_zero, hpos, ← hlength, List.take_length]
  | send pos =>
    simp only [server]
    split
    · intro written _ hprefix
      show ServerInv _ _ _ (out ++ written) (inp ++ [])
      rw [List.append_nil]
      exact {
        round := hround
        length_buf := hlength
        received_le := Nat.le_refl _
        answered_le := hlength ▸ length_of_prefix_drop hprefix (hlength ▸ h.answered_le)
        echo := by
          show inp = out ++ written ++ buf.drop (pos + written.length)
          rw [← List.drop_drop, List.append_assoc, List.prefix_iff_eq_append.mp hprefix]
          exact hecho
        length_out := by
          rw [List.length_append, hout]
          exact Nat.add_assoc _ _ _
        not_panicked := Stage.noConfusion
        checked := hchecked }
    · rename_i hge
      have hpos : pos = nBytes := Nat.le_antisymm h.answered_le (Nat.le_of_not_lt hge)
      show ServerInv _ _ _ (out ++ []) (inp ++ [])
      rw [List.append_nil, List.append_nil]
      exact {
        round := Nat.succ_le_of_lt hround
        length_buf := hlength
        received_le := Nat.zero_le _
        answered_le := Nat.zero_le _
        echo := by
          rw [hecho]
          show out ++ buf.drop pos = out ++ []
          rw [hpos, ← hlength, List.drop_length]
        length_out := by
          show out.length = (i + 1) * nBytes
          rw [hout, Nat.succ_mul]
          exact congrArg _ hpos
        not_panicked := Stage.noConfusion
        checked := trivial }
  | done | panicked | overflowed => exact trivial

theorem server_keeps (nRounds nBytes : Nat) :
    Keeps (server nRounds nBytes) (.start nBytes) (ServerInv nRounds nBytes) where
  init := {
    round := Nat.zero_le _
    length_buf := List.length_replicate
    received_le := Nat.zero_le _
    answered_le := Nat.zero_le _
    echo := rfl
    length_out := (Nat.zero_mul nBytes).symm
    not_panicked := Stage.noConfusion
    checked := trivial }
  step _ _ _ h := server_step h

/-! ## The two together -/

variable {s : State Peer Peer UInt8 c d}

theorem reachable_spec (h : (machine nRounds wbuf nRounds' nBytes' c d).Reachable s) :
    Spec (ClientInv nRounds wbuf) (ServerInv nRounds' nBytes') s :=
  Duplex.reachable_spec (client_keeps nRounds wbuf) (server_keeps nRounds' nBytes') h

theorem ClientInv.length_out {p : Peer} {out inp : List UInt8}
    (h : ClientInv nRounds wbuf p out inp) :
    out.length = p.i * wbuf.length + p.stage.sent wbuf.length := by
  rw [h.out_eq, List.length_append, length_flatten_replicate, List.length_take,
    Nat.min_eq_left h.sent_le]

theorem ServerInv.length_inp {p : Peer} {out inp : List UInt8}
    (h : ServerInv nRounds nBytes p out inp) :
    inp.length = p.i * nBytes + p.stage.received nBytes := by
  have hpending : p.stage.answered + (p.stage.pending p.buf).length = p.stage.received nBytes := by
    have hlength := h.length_buf
    have hreceived := h.received_le
    have hanswered := h.answered_le
    cases hstage : p.stage with
    | receive pos =>
      have hpos : pos ≤ nBytes := by rwa [hstage] at hreceived
      show 0 + (p.buf.take pos).length = pos
      rw [List.length_take, Nat.zero_add, hlength, Nat.min_eq_left hpos]
    | send pos =>
      rw [hstage] at hanswered
      show pos + (p.buf.drop pos).length = nBytes
      rw [List.length_drop, hlength]
      exact Nat.add_sub_cancel' hanswered
    | _ => rfl
  rw [h.echo, List.length_append, h.length_out, Nat.add_assoc, hpending]

/-- What the client has sent and what is back. -/
structure Echoed (wbuf : List UInt8) (s : State Peer Peer UInt8 c d) : Prop where
  /-- it sends its message in each round -/
  sent : s.forth.written <+: (List.replicate (s.left.i + 1) wbuf).flatten
  /-- the server sends back what it has received -/
  back : s.back.written <+: s.forth.read
  /-- what the client has of an answer is what it sent in this round -/
  answer : ∀ pos, s.left.stage = .receive pos → s.left.buf.take pos = wbuf.take pos
  /-- and never more than one message is under way -/
  one_message : s.forth.written.length ≤ s.back.read.length + wbuf.length

theorem Echoed.of_spec (h : Spec (ClientInv nRounds wbuf) (ServerInv nRounds' nBytes') s) :
    Echoed wbuf s := by
  obtain ⟨hclient, hserver⟩ := h
  have hback : s.back.written <+: s.forth.read := ⟨_, hserver.echo.symm⟩
  refine ⟨?_, hback, fun pos hpos => ?_, ?_⟩
  · rw [hclient.out_eq, flatten_replicate_succ]
    exact (List.prefix_append_right_inj _).mpr (List.take_prefix _ _)
  · have hinp : s.back.read <+: s.forth.written :=
      s.back.inOrder.trans (hback.trans s.forth.inOrder)
    have hlength := hclient.length_inp
    have hle := hclient.back_le
    have hsuffix := hclient.buf_suffix
    have hout := hclient.out_eq
    rw [hpos] at hlength hle hsuffix hout
    simp only [Stage.sent, Stage.back, List.take_length] at hlength hle hsuffix hout
    -- all that came back is the messages of the rounds before and the beginning of this one
    have hread : s.back.read = (List.replicate s.left.i wbuf).flatten ++ wbuf.take pos := by
      rw [List.prefix_iff_eq_take.mp hinp, hlength, hout, ← length_flatten_replicate,
        List.take_length_add_append]
    have htake : (s.left.buf.take pos).length = (wbuf.take pos).length := by
      rw [List.length_take, List.length_take, hclient.length_buf]
    have hlast : wbuf.take pos <:+ s.back.read := hread ▸ List.suffix_append _ _
    exact (List.suffix_of_suffix_length_le hsuffix hlast (Nat.le_of_eq htake)).eq_of_length htake
  · rw [hclient.length_out, hclient.length_inp]
    have hsent := hclient.sent_le
    omega

/-- **Echo**: whatever the rounds, the sizes and the capacities are. -/
theorem echoed (h : (machine nRounds wbuf nRounds' nBytes' c d).Reachable s) : Echoed wbuf s :=
  .of_spec (reachable_spec h)

/-- A message of two bytes, sent one by one and read in one piece. -/
def oneRound : List Label :=
  [.left 0, .left 1, .left 1, .left 0, .right 0, .right 2, .right 0, .right 2, .left 2]

theorem echoed_one_round : ∃ s, (machine 50 [7, 8] 50 2 2 2).run
    { left := .start 2, right := .start 2, forth := .empty, back := .empty } oneRound = some s ∧
      s.left = ⟨0, .receive 2, [7, 8]⟩ ∧ Echoed [7, 8] s := by
  obtain ⟨s, hrun, hleft⟩ : ∃ s, (machine 50 [7, 8] 50 2 2 2).run
      { left := .start 2, right := .start 2, forth := .empty, back := .empty } oneRound = some s ∧
        s.left = ⟨0, .receive 2, [7, 8]⟩ := ⟨_, rfl, rfl⟩
  exact ⟨s, hrun, hleft, echoed ((Machine.Reachable.init rfl).run hrun)⟩

/-! ## Where they come to a halt -/

/-- A client that cannot go on waits for room or for its message, or it has ended. -/
theorem client_blocked {p : Peer} {out : Pipe UInt8 c} {inp : Pipe UInt8 d}
    (h : ClientInv nRounds wbuf p out.written inp.read)
    (hblocked : (client nRounds wbuf p).Blocked out inp) :
    (∃ pos, p.stage = .send pos ∧ pos < wbuf.length ∧ out.room = 0) ∨
      (∃ pos, p.stage = .receive pos ∧ pos < wbuf.length ∧ inp.held = []) ∨
      p.stage = .done ∨ p.stage = .panicked ∨ p.stage = .overflowed := by
  obtain ⟨i, stage, buf⟩ := p
  have hlength : buf.length = wbuf.length := h.length_buf
  cases stage with
  | head =>
    simp only [client] at hblocked
    split at hblocked
    · exact hblocked.elim
    · split at hblocked <;> exact hblocked.elim
  | send pos =>
    simp only [client] at hblocked
    split at hblocked
    · rename_i hpos
      refine .inl ⟨pos, rfl, hpos, hblocked.resolve_left fun hnil => ?_⟩
      have hdrop : wbuf.length ≤ pos := List.drop_eq_nil_iff.mp hnil
      omega
    · exact hblocked.elim
  | receive pos =>
    simp only [client] at hblocked
    split at hblocked
    · rename_i hpos
      refine .inr (.inl ⟨pos, rfl, hpos, hblocked.2.resolve_left fun hzero => ?_⟩)
      have hroom : buf.length - pos = 0 := hzero
      omega
    · split at hblocked <;> exact hblocked.elim
  | done => exact .inr (.inr (.inl rfl))
  | panicked => exact .inr (.inr (.inr (.inl rfl)))
  | overflowed => exact .inr (.inr (.inr (.inr rfl)))

/-- A server that cannot go on, if its rounds are a `usize`. -/
theorem server_blocked {p : Peer} {out : Pipe UInt8 c} {inp : Pipe UInt8 d}
    (hrounds : nRounds * 2 < 2 ^ 64) (h : ServerInv nRounds nBytes p out.written inp.read)
    (hblocked : (server nRounds nBytes p).Blocked out inp) :
    (∃ pos, p.stage = .receive pos ∧ pos < nBytes ∧ inp.held = []) ∨
      (∃ pos, p.stage = .send pos ∧ pos < nBytes ∧ out.room = 0) ∨ p.stage = .done := by
  obtain ⟨i, stage, buf⟩ := p
  have hlength : buf.length = nBytes := h.length_buf
  cases stage with
  | head =>
    simp only [server] at hblocked
    split at hblocked
    · exact hblocked.elim
    · split at hblocked <;> exact hblocked.elim
  | receive pos =>
    simp only [server] at hblocked
    split at hblocked
    · rename_i hpos
      refine .inl ⟨pos, rfl, hpos, hblocked.2.resolve_left fun hzero => ?_⟩
      have hroom : buf.length - pos = 0 := hzero
      omega
    · exact hblocked.elim
  | send pos =>
    simp only [server] at hblocked
    split at hblocked
    · rename_i hpos
      refine .inr (.inl ⟨pos, rfl, hpos, hblocked.resolve_left fun hnil => ?_⟩)
      have hdrop : buf.length ≤ pos := List.drop_eq_nil_iff.mp hnil
      omega
    · exact hblocked.elim
  | done => exact .inr (.inr rfl)
  | panicked => exact absurd rfl h.not_panicked
  | overflowed => exact absurd h.checked (Nat.not_le_of_lt hrounds)

/-- Both have done all their rounds. -/
def Finished (s : State Peer Peer UInt8 c d) : Prop :=
  s.left.stage = .done ∧ s.right.stage = .done

/-- Programs that get through against each other, on a stream that holds `c` bytes to the server
and `d` bytes back. -/
structure Compatible (nRounds nBytes nRounds' nBytes' c d : Nat) : Prop where
  /-- twice the rounds of either one are a `usize` -/
  rounds : nRounds * 2 < 2 ^ 64
  rounds' : nRounds' * 2 < 2 ^ 64
  /-- the client can track its progress -/
  tracked : nRounds = 0 ∨ progressTrackingPercentage nRounds ≠ 0
  /-- both move the same amount of data -/
  sameData : nRounds * 2 * nBytes = nRounds' * 2 * nBytes'
  /-- a message of the client is some messages of the server -/
  divides : 0 < nRounds * 2 * nBytes → nBytes' ∣ nBytes
  /-- the stream and the buffer of the server hold what a client sends before it reads -/
  fits : 0 < nRounds * 2 * nBytes → nBytes ≤ (d / nBytes' + 1) * nBytes' + c

/-- A multiple with a remainder is one in only one way. -/
theorem eq_of_mul_eq_mul_add {a b m r : Nat} (h : a * m = b * m + r) (hr : r < m) : a = b := by
  rcases Nat.lt_trichotomy a b with hlt | heq | hgt
  · have hle : (a + 1) * m ≤ b * m := Nat.mul_le_mul_right m hlt
    rw [Nat.succ_mul] at hle
    omega
  · exact heq
  · have hle : (b + 1) * m ≤ a * m := Nat.mul_le_mul_right m hgt
    rw [Nat.succ_mul] at hle
    omega

section Halt

variable (hcompat : Compatible nRounds wbuf.length nRounds' nBytes' c d)
  (hclient : ClientInv nRounds wbuf s.left s.forth.written s.back.read)
  (hserver : ServerInv nRounds' nBytes' s.right s.back.written s.forth.read)
  (hblocked : (server nRounds' nBytes' s.right).Blocked s.back s.forth)

include hcompat hclient hserver hblocked

/-- A client does not wait for room: the server or the stream has it. -/
theorem not_sending (hc : 0 < c) {pos : Nat} (hstage : s.left.stage = .send pos)
    (hpos : pos < wbuf.length) : s.forth.room ≠ 0 := by
  intro hfull
  have hlength := Pipe.length_written_of_room hfull
  have hout := hclient.length_out
  have hinp := hclient.length_inp
  have hround := hclient.round
  rw [hstage] at hout hinp hround
  simp only [Stage.sent, Stage.back, Stage.InRound] at hout hinp hround
  have hmore : (s.left.i + 1) * wbuf.length ≤ nRounds * 2 * wbuf.length :=
    Nat.mul_le_mul_right _ hround
  rw [Nat.succ_mul] at hmore
  rcases server_blocked hcompat.rounds' hserver hblocked with ⟨r, -, -, hempty⟩ |
    ⟨r, hstage', hr, hroom⟩ | hdone
  · rw [Pipe.written_of_held hempty] at hlength
    omega
  -- the answers fill the channel back: what they answer is what `fits` counts
  · have hback := Pipe.length_written_of_room hroom
    have hreceived := hserver.length_inp
    have hanswered := hserver.length_out
    rw [hstage'] at hreceived hanswered
    simp only [Stage.received, Stage.answered] at hreceived hanswered
    have hpositive : 0 < nRounds * 2 * wbuf.length := by omega
    obtain ⟨k, hk⟩ := hcompat.divides hpositive
    have hfits := hcompat.fits hpositive
    have hmultiple : s.left.i * wbuf.length = s.left.i * k * nBytes' := by
      rw [hk, Nat.mul_comm nBytes' k, Nat.mul_assoc]
    have hwhole := Nat.div_mul_le_self d nBytes'
    have hmessages : s.left.i * k + d / nBytes' < s.right.i + 1 := by
      refine Nat.lt_of_mul_lt_mul_right (a := nBytes') ?_
      rw [Nat.add_mul, Nat.succ_mul]
      omega
    have hanswers : (s.left.i * k + d / nBytes' + 1) * nBytes' ≤ (s.right.i + 1) * nBytes' :=
      Nat.mul_le_mul_right _ hmessages
    rw [Nat.add_assoc, Nat.add_mul, Nat.succ_mul s.right.i] at hanswers
    omega
  · have hreceived := hserver.length_inp
    have hround' := hserver.round
    rw [hdone] at hreceived hround'
    simp only [Stage.received, Stage.InRound] at hreceived hround'
    rw [hround'] at hreceived
    have hdata := hcompat.sameData
    omega

/-- The client does not wait for an answer that does not come. -/
theorem not_receiving (hd : 0 < d) {pos : Nat} (hstage : s.left.stage = .receive pos)
    (hpos : pos < wbuf.length) : s.back.held ≠ [] := by
  intro hempty
  have hlength := Pipe.written_of_held hempty
  have hout := hclient.length_out
  have hinp := hclient.length_inp
  have hround := hclient.round
  rw [hstage] at hout hinp hround
  simp only [Stage.sent, Stage.back, Stage.InRound] at hout hinp hround
  have hmore : (s.left.i + 1) * wbuf.length ≤ nRounds * 2 * wbuf.length :=
    Nat.mul_le_mul_right _ hround
  rw [Nat.succ_mul] at hmore
  rcases server_blocked hcompat.rounds' hserver hblocked with ⟨r, hstage', hr, hempty'⟩ |
    ⟨r, -, -, hroom⟩ | hdone
  -- the server has received whole messages, so that it has answered them
  · have hforth := Pipe.written_of_held hempty'
    have hreceived := hserver.length_inp
    have hanswered := hserver.length_out
    rw [hstage'] at hreceived hanswered
    simp only [Stage.received, Stage.answered] at hreceived hanswered
    obtain ⟨k, hk⟩ := hcompat.divides (by omega)
    have hmultiple : (s.left.i + 1) * k * nBytes' = s.right.i * nBytes' + r := by
      rw [Nat.mul_assoc, Nat.mul_comm k, ← hk, Nat.succ_mul, ← hreceived, ← hforth, hout]
    have hwhole := eq_of_mul_eq_mul_add hmultiple hr
    rw [hwhole] at hmultiple
    rw [← hlength, hanswered] at hinp
    rw [hforth, hreceived] at hout
    omega
  · have hback := Pipe.length_written_of_room hroom
    rw [hlength] at hback
    omega
  · have hanswered := hserver.length_out
    have hround' := hserver.round
    rw [hdone] at hanswered hround'
    simp only [Stage.answered, Stage.InRound] at hanswered hround'
    rw [hround'] at hanswered
    have hdata := hcompat.sameData
    rw [hlength] at hanswered
    omega

/-- Once the client is done, the server is. -/
theorem server_done (hd : 0 < d) (hstage : s.left.stage = .done) : s.right.stage = .done := by
  have hout := hclient.length_out
  have hinp := hclient.length_inp
  have hround := hclient.round
  rw [hstage] at hout hinp hround
  simp only [Stage.sent, Stage.back, Stage.InRound] at hout hinp hround
  rw [hround] at hout hinp
  have hdata := hcompat.sameData
  have hround' := hserver.round
  have hreceived := hserver.length_inp
  have hanswered := hserver.length_out
  rcases server_blocked hcompat.rounds' hserver hblocked with ⟨r, hstage', hr, hempty⟩ |
    ⟨r, hstage', hr, hroom⟩ | hdone
  · have hforth := Pipe.written_of_held hempty
    rw [hstage'] at hreceived hround'
    simp only [Stage.received, Stage.InRound] at hreceived hround'
    have hmore : (s.right.i + 1) * nBytes' ≤ nRounds' * 2 * nBytes' :=
      Nat.mul_le_mul_right _ hround'
    rw [Nat.succ_mul] at hmore
    rw [hforth] at hout
    omega
  · have hback := Pipe.length_written_of_room hroom
    rw [hstage'] at hanswered hround'
    simp only [Stage.answered, Stage.InRound] at hanswered hround'
    have hmore : (s.right.i + 1) * nBytes' ≤ nRounds' * 2 * nBytes' :=
      Nat.mul_le_mul_right _ hround'
    rw [Nat.succ_mul] at hmore
    omega
  · exact hdone

end Halt

/-- **Compatible programs come to a halt only when both have finished.** -/
theorem finished_of_stuck (hc : 0 < c) (hd : 0 < d)
    (hcompat : Compatible nRounds wbuf.length nRounds' nBytes' c d)
    (h : (machine nRounds wbuf nRounds' nBytes' c d).Reachable s)
    (hstuck : Stuck (client nRounds wbuf) (server nRounds' nBytes') s) : Finished s := by
  obtain ⟨hclient, hserver⟩ := reachable_spec h
  obtain ⟨hblocked, hblocked'⟩ := hstuck.blocked
  rcases client_blocked hclient hblocked with ⟨pos, hstage, hpos, hroom⟩ |
    ⟨pos, hstage, hpos, hempty⟩ | hdone | hpanicked | hoverflowed
  · exact absurd hroom (not_sending hcompat hclient hserver hblocked' hc hstage hpos)
  · exact absurd hempty (not_receiving hcompat hclient hserver hblocked' hd hstage hpos)
  · exact ⟨hdone, server_done hcompat hclient hserver hblocked' hd hdone⟩
  · have hround := hclient.round
    rw [hpanicked] at hround
    rcases hcompat.tracked with hzero | hne
    · rw [hzero] at hround
      exact absurd hround (Nat.not_lt_zero _)
    · exact absurd (hclient.panicked hpanicked) hne
  · have hchecked := hclient.checked
    rw [hoverflowed] at hchecked
    exact absurd hchecked (Nat.not_le_of_lt hcompat.rounds)

/-- Where the client is that has stopped. -/
theorem client_stage_of_stop {p : Peer} (h : client nRounds wbuf p = .stop) :
    p.stage = .done ∨ p.stage = .panicked ∨ p.stage = .overflowed := by
  obtain ⟨i, stage, buf⟩ := p
  cases stage with
  | done => exact .inl rfl
  | panicked => exact .inr (.inl rfl)
  | overflowed => exact .inr (.inr rfl)
  | head | send | receive =>
    simp only [client] at h
    split at h <;> first | cases h | (split at h <;> cases h)

/-- Where the server is that has stopped. -/
theorem server_stage_of_stop {p : Peer} (h : server nRounds nBytes p = .stop) :
    p.stage = .done ∨ p.stage = .panicked ∨ p.stage = .overflowed := by
  obtain ⟨i, stage, buf⟩ := p
  cases stage with
  | done => exact .inl rfl
  | panicked => exact .inr (.inl rfl)
  | overflowed => exact .inr (.inr rfl)
  | head | send | receive =>
    simp only [server] at h
    split at h <;> first | cases h | (split at h <;> cases h)

/-- Where a program is that writes. -/
theorem client_writes {p : Peer} (h : (client nRounds wbuf p).writes = true) :
    ∃ pos, p.stage = .send pos ∧ pos < wbuf.length := by
  obtain ⟨i, stage, buf⟩ := p
  cases stage with
  | send pos =>
    simp only [client] at h
    split at h
    · rename_i hpos
      exact ⟨pos, rfl, hpos⟩
    · cases h
  | head | receive =>
    simp only [client] at h
    split at h <;> first | cases h | (split at h <;> cases h)
  | done | panicked | overflowed => cases h

theorem server_writes {p : Peer} (h : (server nRounds nBytes p).writes = true) :
    ∃ pos, p.stage = .send pos ∧ pos < nBytes := by
  obtain ⟨i, stage, buf⟩ := p
  cases stage with
  | send pos =>
    simp only [server] at h
    split at h
    · rename_i hpos
      exact ⟨pos, rfl, hpos⟩
    · cases h
  | head | receive =>
    simp only [server] at h
    split at h <;> first | cases h | (split at h <;> cases h)
  | done | panicked | overflowed => cases h

/-- **Compatible programs do not write any more when the other one has stopped**: it has read all
that there is to write. -/
theorem not_writes_of_stop (hcompat : Compatible nRounds wbuf.length nRounds' nBytes' c d)
    (h : (machine nRounds wbuf nRounds' nBytes' c d).Reachable s) :
    (server nRounds' nBytes' s.right = .stop → (client nRounds wbuf s.left).writes = false) ∧
      (client nRounds wbuf s.left = .stop → (server nRounds' nBytes' s.right).writes = false) := by
  obtain ⟨hclient, hserver⟩ := reachable_spec h
  have hforth := s.forth.length_read_le
  have hback := s.back.length_read_le
  have hdata := hcompat.sameData
  have hround := hclient.round
  have hround' := hserver.round
  refine ⟨fun hstop => Bool.eq_false_iff.mpr fun hwrites => ?_,
    fun hstop => Bool.eq_false_iff.mpr fun hwrites => ?_⟩
  · have hdone : s.right.stage = .done := by
      rcases server_stage_of_stop hstop with hdone | hpanicked | hoverflowed
      · exact hdone
      · exact absurd hpanicked hserver.not_panicked
      · have hchecked := hserver.checked
        rw [hoverflowed] at hchecked
        exact absurd hchecked (Nat.not_le_of_lt hcompat.rounds')
    obtain ⟨pos, hstage, hpos⟩ := client_writes hwrites
    have hsent := hclient.length_out
    have hread := hserver.length_inp
    rw [hstage] at hsent hround
    rw [hdone] at hread hround'
    simp only [Stage.sent, Stage.InRound, Stage.received] at hsent hround hread hround'
    have hmore := Nat.mul_le_mul_right wbuf.length hround
    rw [Nat.succ_mul] at hmore
    rw [hround'] at hread
    omega
  · have hdone : s.left.stage = .done := by
      rcases client_stage_of_stop hstop with hdone | hpanicked | hoverflowed
      · exact hdone
      · rcases hcompat.tracked with hzero | htracked
        · rw [hpanicked, hzero] at hround
          exact absurd hround (Nat.not_lt_zero _)
        · exact absurd (hclient.panicked hpanicked) htracked
      · have hchecked := hclient.checked
        rw [hoverflowed] at hchecked
        exact absurd hchecked (Nat.not_le_of_lt hcompat.rounds)
    obtain ⟨pos, hstage, hpos⟩ := server_writes hwrites
    have hsent := hserver.length_out
    have hread := hclient.length_inp
    rw [hstage] at hsent hround'
    rw [hdone] at hread hround
    simp only [Stage.answered, Stage.InRound, Stage.back] at hsent hround hread hround'
    have hmore := Nat.mul_le_mul_right nBytes' hround'
    rw [Nat.succ_mul] at hmore
    rw [hround] at hread
    omega

/-! ## What a finished run says -/

/-- A server that has sent back all that it received has done so with whole messages. -/
theorem Stage.received_eq_answered {stage : Stage} (h : stage.received nBytes = stage.answered) :
    stage.received nBytes = 0 ∨ stage.received nBytes = nBytes := by
  cases stage with
  | receive pos => exact .inl h
  | send pos => exact .inr rfl
  | _ => exact .inl rfl

/-- A client that has not sent all of a message has not got anything of it back. -/
theorem Stage.back_of_sent {stage : Stage} (h : stage.sent nBytes < nBytes) :
    stage.back nBytes = 0 := by
  cases stage with
  | receive pos => exact absurd h (Nat.lt_irrefl _)
  | panicked => exact absurd h (Nat.lt_irrefl _)
  | _ => rfl

/-- In its first round. -/
theorem eq_zero_of_mul_lt {i n : Nat} (h : i * n < n) : i = 0 := by
  refine Nat.eq_zero_of_not_pos fun hpos => ?_
  have hle : 1 * n ≤ i * n := Nat.mul_le_mul_right n hpos
  omega

/-- When the client gets the last byte of the first message back, the server has sent
back all that there was, and this is a number of its messages. -/
theorem divides_of_answer (h : (machine nRounds wbuf nRounds' nBytes' c d).Reachable s) :
    wbuf.length = 0 ∨ s.back.read.length < wbuf.length ∨ nBytes' ∣ wbuf.length := by
  refine h.invariant_under (I := fun s => wbuf.length = 0 ∨ s.back.read.length < wbuf.length ∨
    nBytes' ∣ wbuf.length) (fun s hs => hs) ?_ ?_
  · rintro s rfl
    exact (Nat.eq_zero_or_pos _).imp id .inl
  · intro s a s' hs hI hnext
    rcases hI with hzero | hless | hdivides
    · exact .inl hzero
    · obtain ⟨hclient, -⟩ := reachable_spec hs
      obtain ⟨-, hserver'⟩ := reachable_spec (hs.step hnext)
      refine .inr ((Nat.lt_or_ge _ _).imp id fun hmore => ?_)
      rcases next_cases hnext with ⟨-, written, bytes, hact⟩ | ⟨-, written, bytes, hact⟩
      · have hbytes : bytes ≠ [] := by
          rintro rfl
          rw [hact.inp_read, List.append_nil] at hmore
          omega
        have hwritten := hact.out_written
        rw [hact.one_way.resolve_right hbytes, List.append_nil] at hwritten
        have hout := hclient.length_out
        have hinp := hclient.length_inp
        have hsent := hclient.sent_le
        have hfirst : s.left.i = 0 := eq_zero_of_mul_lt (n := wbuf.length) (by omega)
        rw [hfirst, Nat.zero_mul, Nat.zero_add, ← hwritten] at hout
        have hback := s'.back.length_read_le
        have hforth := s'.forth.length_read_le
        have hreceived := hserver'.length_inp
        have hanswered := hserver'.length_out
        have hecho := congrArg List.length hserver'.echo
        rw [List.length_append] at hecho
        have hmultiple : wbuf.length = s'.right.i * nBytes' + s'.right.stage.received nBytes' := by
          omega
        have hwhole : s'.right.stage.received nBytes' = s'.right.stage.answered := by omega
        rw [hmultiple]
        rcases Stage.received_eq_answered hwhole with hnone | hall
        · rw [hnone]
          exact Nat.dvd_mul_left _ _
        · rw [hall, ← Nat.succ_mul]
          exact Nat.dvd_mul_left _ _
      · rw [hact.out_read] at hmore
        omega
    · exact .inr (.inr hdivides)

/-- When the client has sent the last byte of the first message, what it has not read
yet is in the stream and in the server's buffer. -/
theorem fits_of_sent (h : (machine nRounds wbuf nRounds' nBytes' c d).Reachable s) :
    wbuf.length = 0 ∨ s.forth.written.length < wbuf.length ∨
      wbuf.length ≤ (d / nBytes' + 1) * nBytes' + c := by
  refine h.invariant_under (I := fun s => wbuf.length = 0 ∨ s.forth.written.length < wbuf.length ∨
    wbuf.length ≤ (d / nBytes' + 1) * nBytes' + c) (fun s hs => hs) ?_ ?_
  · rintro s rfl
    exact (Nat.eq_zero_or_pos _).imp id .inl
  · intro s a s' hs hI hnext
    rcases hI with hzero | hless | hfits
    · exact .inl hzero
    · obtain ⟨hclient, -⟩ := reachable_spec hs
      obtain ⟨-, hserver'⟩ := reachable_spec (hs.step hnext)
      refine .inr ((Nat.lt_or_ge _ _).imp id fun hmore => ?_)
      rcases next_cases hnext with ⟨-, written, bytes, hact⟩ | ⟨-, written, bytes, hact⟩
      · have hwritten : written ≠ [] := by
          rintro rfl
          rw [hact.out_written, List.append_nil] at hmore
          omega
        have hread := hact.inp_read
        rw [hact.one_way.resolve_left hwritten, List.append_nil] at hread
        have hout := hclient.length_out
        have hinp := hclient.length_inp
        have hfirst : s.left.i = 0 := eq_zero_of_mul_lt (n := wbuf.length) (by omega)
        have hnothing : s.left.stage.back wbuf.length = 0 := Stage.back_of_sent (by omega)
        rw [hfirst, hnothing, Nat.zero_mul, ← hread] at hinp
        have hback := s'.back.bounded
        have hforth := s'.forth.bounded
        have hreceived := hserver'.length_inp
        have hle := hserver'.received_le
        have hanswered := hserver'.length_out
        have hmessages : s'.right.i * nBytes' ≤ d / nBytes' * nBytes' := by
          rcases Nat.eq_zero_or_pos nBytes' with hzero | hpos
          · rw [hzero, Nat.mul_zero, Nat.mul_zero]
          · refine Nat.mul_le_mul_right _ ((Nat.le_div_iff_mul_le hpos).mpr ?_)
            omega
        rw [Nat.succ_mul]
        omega
      · rw [hact.inp_written] at hmore
        omega
    · exact .inr (.inr hfits)

theorem compatible_of_finished (h : (machine nRounds wbuf nRounds' nBytes' c d).Reachable s)
    (hfinished : Finished s) : Compatible nRounds wbuf.length nRounds' nBytes' c d := by
  obtain ⟨hclient, hserver⟩ := reachable_spec h
  obtain ⟨hdone, hdone'⟩ := hfinished
  have hround := hclient.round
  have hout := hclient.length_out
  have hinp := hclient.length_inp
  rw [hdone] at hround hout hinp
  simp only [Stage.sent, Stage.back, Stage.InRound] at hround hout hinp
  rw [hround] at hout hinp
  have hround' := hserver.round
  have hreceived := hserver.length_inp
  have hanswered := hserver.length_out
  rw [hdone'] at hround' hreceived hanswered
  simp only [Stage.received, Stage.answered, Stage.InRound] at hround' hreceived hanswered
  rw [hround'] at hreceived hanswered
  have hforth := s.forth.length_read_le
  have hback := s.back.length_read_le
  -- a message is no longer than all of them
  have hmessage : 0 < nRounds * 2 * wbuf.length →
      wbuf.length ≠ 0 ∧ wbuf.length ≤ nRounds * 2 * wbuf.length := by
    intro hpos
    exact ⟨(Nat.pos_of_mul_pos_left hpos).ne',
      Nat.le_mul_of_pos_left _ (Nat.pos_of_mul_pos_right hpos)⟩
  have hchecked : nRounds * 2 < 2 ^ 64 := by
    have hclient := hclient.checked
    rwa [hdone] at hclient
  have hchecked' : nRounds' * 2 < 2 ^ 64 := by
    have hserver := hserver.checked
    rwa [hdone'] at hserver
  refine ⟨hchecked, hchecked', ?_, by omega, fun hpos => ?_, fun hpos => ?_⟩
  · refine or_iff_not_imp_right.mpr fun hzero => ?_
    have hnever := hclient.tracked (not_not.mp hzero)
    omega
  · obtain ⟨hne, hle⟩ := hmessage hpos
    rcases divides_of_answer h with hzero | hless | hdivides
    · exact absurd hzero hne
    · omega
    · exact hdivides
  · obtain ⟨hne, hle⟩ := hmessage hpos
    rcases fits_of_sent h with hzero | hless | hfits
    · exact absurd hzero hne
    · omega
    · exact hfits

/-! ## Runs end -/

/-- How many steps a round and the check of the loop take at most. -/
def roundSteps (nBytes : Nat) : Nat :=
  2 * nBytes + 3

/-- How many steps the client has to take at most. -/
def clientTodo (nRounds nBytes : Nat) (s : Peer) : Nat :=
  match s.stage with
  | .head => (nRounds * 2 - s.i) * roundSteps nBytes + 1
  | .send pos => (nRounds * 2 - (s.i + 1)) * roundSteps nBytes + 2 * nBytes + 3 - pos
  | .receive pos => (nRounds * 2 - (s.i + 1)) * roundSteps nBytes + nBytes + 2 - pos
  | .done => 0
  | .panicked => 0
  | .overflowed => 0

/-- How many steps the server has to take at most. -/
def serverTodo (nRounds nBytes : Nat) (s : Peer) : Nat :=
  match s.stage with
  | .head => (nRounds * 2 - s.i) * roundSteps nBytes + 1
  | .receive pos => (nRounds * 2 - (s.i + 1)) * roundSteps nBytes + 2 * nBytes + 3 - pos
  | .send pos => (nRounds * 2 - (s.i + 1)) * roundSteps nBytes + nBytes + 2 - pos
  | .done => 0
  | .panicked => 0
  | .overflowed => 0

/-- A round that is begun. -/
theorem rounds_succ (nBytes : Nat) {rounds i : Nat} (h : i < rounds) :
    (rounds - i) * roundSteps nBytes
      = (rounds - (i + 1)) * roundSteps nBytes + 2 * nBytes + 3 := by
  have hsucc : rounds - i = rounds - (i + 1) + 1 := by omega
  rw [hsucc, Nat.succ_mul, roundSteps, Nat.add_assoc _ (2 * nBytes) 3]

theorem client_bounds (nRounds : Nat) (wbuf : List UInt8) :
    Bounds (client nRounds wbuf) (ClientInv nRounds wbuf) (clientTodo nRounds wbuf.length) := by
  rintro ⟨i, stage, buf⟩ out inp h
  have hlength : buf.length = wbuf.length := h.length_buf
  cases stage with
  | head =>
    simp only [client]
    split
    · exact Nat.succ_pos _
    · split
      · rename_i hlt
        have hround := rounds_succ wbuf.length hlt
        simp only [Op.Leads, clientTodo]
        omega
      · exact Nat.succ_pos _
  | send pos =>
    have hpos : pos ≤ wbuf.length := h.sent_le
    simp only [client]
    split
    · intro written hne _
      have hwritten := List.length_pos_iff.mpr hne
      simp only [clientTodo]
      omega
    · simp only [Op.Leads, clientTodo]
      omega
  | receive pos =>
    have hpos : pos ≤ wbuf.length := h.back_le
    simp only [client]
    split
    · refine ⟨fun bytes hne hle => ?_, fun s' hs' => by cases hs'⟩
      have hread := List.length_pos_iff.mpr hne
      have hroom : bytes.length ≤ buf.length - pos := hle
      simp only [Peer.got, clientTodo]
      omega
    · split
      · simp only [Op.Leads, clientTodo]
        omega
      · simp only [Op.Leads, clientTodo]
        omega
  | done | panicked | overflowed => exact trivial

theorem server_bounds (nRounds nBytes : Nat) :
    Bounds (server nRounds nBytes) (ServerInv nRounds nBytes) (serverTodo nRounds nBytes) := by
  rintro ⟨i, stage, buf⟩ out inp h
  have hlength : buf.length = nBytes := h.length_buf
  cases stage with
  | head =>
    simp only [server]
    split
    · exact Nat.succ_pos _
    · split
      · rename_i hlt
        have hround := rounds_succ nBytes hlt
        simp only [Op.Leads, serverTodo]
        omega
      · exact Nat.succ_pos _
  | receive pos =>
    have hpos : pos ≤ nBytes := h.received_le
    simp only [server]
    split
    · refine ⟨fun bytes hne hle => ?_, fun s' hs' => by cases hs'⟩
      have hread := List.length_pos_iff.mpr hne
      have hroom : bytes.length ≤ buf.length - pos := hle
      simp only [Peer.got, serverTodo]
      omega
    · simp only [Op.Leads, serverTodo]
      omega
  | send pos =>
    have hpos : pos ≤ nBytes := h.answered_le
    simp only [server]
    split
    · intro written hne _
      have hwritten := List.length_pos_iff.mpr hne
      simp only [serverTodo]
      omega
    · simp only [Op.Leads, serverTodo]
      omega
  | done | panicked | overflowed => exact trivial

/-! ## Getting through -/

/-- The state before the first step. -/
def start (wbuf : List UInt8) (nBytes' c d : Nat) : State Peer Peer UInt8 c d where
  left := .start wbuf.length
  right := .start nBytes'
  forth := .empty
  back := .empty

/-- Both programs get through, in whatever order they take their steps. -/
structure GetsThrough (nRounds : Nat) (wbuf : List UInt8) (nRounds' nBytes' c d : Nat) : Prop where
  /-- no run goes on for longer than this -/
  ends : ∀ as s,
    (machine nRounds wbuf nRounds' nBytes' c d).run (start wbuf nBytes' c d) as = some s →
    as.length ≤ nRounds * 2 * roundSteps wbuf.length + nRounds' * 2 * roundSteps nBytes' + 2
  /-- and where it comes to a halt, both have finished -/
  finishes : ∀ s, (machine nRounds wbuf nRounds' nBytes' c d).Reachable s →
    Stuck (client nRounds wbuf) (server nRounds' nBytes') s → Finished s

/-- Both programs may get through. -/
def MayGetThrough (nRounds : Nat) (wbuf : List UInt8) (nRounds' nBytes' c d : Nat) : Prop :=
  ∃ s, (machine nRounds wbuf nRounds' nBytes' c d).Reachable s ∧ Finished s

/-- **Getting through**: on a stream that can hold something, both programs get through in every
order if they do in one, and this is when they are compatible. -/
theorem finishes_iff (hc : 0 < c) (hd : 0 < d) :
    (GetsThrough nRounds wbuf nRounds' nBytes' c d ↔
      Compatible nRounds wbuf.length nRounds' nBytes' c d) ∧
    (MayGetThrough nRounds wbuf nRounds' nBytes' c d ↔
      Compatible nRounds wbuf.length nRounds' nBytes' c d) := by
  have hstart : (machine nRounds wbuf nRounds' nBytes' c d).Reachable (start wbuf nBytes' c d) :=
    Machine.Reachable.init rfl
  have hcan : GetsThrough nRounds wbuf nRounds' nBytes' c d →
      MayGetThrough nRounds wbuf nRounds' nBytes' c d := by
    intro h
    obtain ⟨as, s, hrun, hstuck⟩ := exists_stuck (client_keeps nRounds wbuf)
      (server_keeps nRounds' nBytes') (client_bounds nRounds wbuf)
      (server_bounds nRounds' nBytes') hstart
    have hs := hstart.run hrun
    exact ⟨s, hs, h.finishes s hs hstuck⟩
  have hcompat : MayGetThrough nRounds wbuf nRounds' nBytes' c d →
      Compatible nRounds wbuf.length nRounds' nBytes' c d := by
    rintro ⟨s, hs, hfinished⟩
    exact compatible_of_finished hs hfinished
  have hgets : Compatible nRounds wbuf.length nRounds' nBytes' c d →
      GetsThrough nRounds wbuf nRounds' nBytes' c d := by
    intro h
    refine ⟨fun as s hrun => ?_, fun s hs hstuck => finished_of_stuck hc hd h hs hstuck⟩
    have hle := run_length_le (client_keeps nRounds wbuf) (server_keeps nRounds' nBytes')
      (client_bounds nRounds wbuf) (server_bounds nRounds' nBytes') hstart hrun
    refine Nat.le_trans hle (Nat.le_of_eq ?_)
    show (nRounds * 2 - 0) * _ + 1 + ((nRounds' * 2 - 0) * _ + 1) = _
    rw [Nat.sub_zero, Nat.sub_zero]
    omega
  exact ⟨⟨fun h => hcompat (hcan h), hgets⟩, ⟨hcompat, fun h => hcan (hgets h)⟩⟩

/-- The same rounds and sizes on both sides are enough, but for few rounds and for too many. -/
theorem compatible_self_iff : Compatible nRounds nBytes nRounds nBytes c d ↔
    nRounds = 0 ∨ 50 ≤ nRounds ∧ nRounds < 2 ^ 63 := by
  have htracked : progressTrackingPercentage nRounds ≠ 0 ↔ 50 ≤ nRounds := by
    rw [progressTrackingPercentage]
    omega
  constructor
  · intro h
    have hrounds := h.rounds
    exact h.tracked.imp id fun hne => ⟨htracked.mp hne, by omega⟩
  · intro h
    refine ⟨by omega, by omega, h.imp id fun hmany => htracked.mpr hmany.1, rfl,
      fun _ => Nat.dvd_refl _, fun _ => ?_⟩
    rw [Nat.succ_mul]
    omega

/-- The default configuration on a stream that holds a byte in each direction. -/
theorem gets_through_default : GetsThrough 100000 [0] 100000 1 1 1 :=
  (finishes_iff Nat.one_pos Nat.one_pos).1.mpr
    (compatible_self_iff.mpr (.inr ⟨by decide, by decide⟩))

end RustyHermit.Benches.Latency
