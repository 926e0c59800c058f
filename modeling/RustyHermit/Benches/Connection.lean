import Mathlib.Data.List.Basic
import RustyHermit.Lib.Counting

/-!
# The messages of the network benchmark (`connection.rs`)

`send_message` and `receive_message` count up to `n_bytes` by what the stream takes
or gives in each call. The stream is the environment: it gets a sequence of
results, and a call moves as many bytes as its result says and the slice has room
for. Fuel bounds the calls, and `failed` is the panic on another error.

Both hand the whole rest of their buffer to the stream, not the rest of the message,
and neither looks for `Ok(0)`. `framed_iff` says what that takes of the stream: no result
may carry the count past `n_bytes`, which none can if the buffer ends there, and the
results must not be `Ok(0)` for good before.
-/

namespace RustyHermit.Benches

open Counting

/-- What `TcpStream::write` and `TcpStream::read` return. -/
inductive StreamResult where
  /-- `Ok(n)`, where `n` is at most the length of the slice -/
  | ok (n : Nat)
  /-- `Err` of the kind `WouldBlock` -/
  | wouldBlock
  /-- any other `Err` -/
  | error
deriving DecidableEq, Repr

/-- What it means for the count. -/
def StreamResult.attempt : StreamResult → Attempt
  | .ok n => .moved n
  | .wouldBlock => .again
  | .error => .failed

/-- The attempts that the results of a stream are. -/
def attempts (results : Nat → StreamResult) : Nat → Attempt :=
  fun i => (results i).attempt

/-- `send_message`, from call number `call` on: `wbuf[..send]` has been written.
`stream` is all that the other end gets. -/
def sendMessage (nBytes : Nat) (wbuf : List UInt8) (results : Nat → StreamResult) :
    Nat → Nat → Nat → List UInt8 → Outcome (List UInt8)
  | 0, _, _, stream => .running stream
  | fuel + 1, call, send, stream =>
    if send < nBytes then
      match results call with
      | .ok n =>
        let written := (wbuf.drop send).take n
        sendMessage nBytes wbuf results fuel (call + 1) (send + written.length) (stream ++ written)
      | .wouldBlock => sendMessage nBytes wbuf results fuel (call + 1) send stream
      | .error => .failed stream
    else .returned stream

/-- `n` bytes of a stream from position `pos` on. -/
def bytes (incoming : Nat → UInt8) (pos n : Nat) : List UInt8 :=
  (List.range n).map fun i => incoming (pos + i)

/-- `receive_message`, from call number `call` on: `recv` bytes have been read, and the
next one is at position `pos` of the stream. -/
def receiveMessage (nBytes : Nat) (incoming : Nat → UInt8) (results : Nat → StreamResult) :
    Nat → Nat → Nat → List UInt8 → Nat → Outcome (List UInt8 × Nat)
  | 0, _, _, rbuf, pos => .running (rbuf, pos)
  | fuel + 1, call, recv, rbuf, pos =>
    if recv < nBytes then
      match results call with
      | .ok n =>
        let read := min n (rbuf.length - recv)
        let rbuf := rbuf.take recv ++ bytes incoming pos read ++ rbuf.drop (recv + read)
        receiveMessage nBytes incoming results fuel (call + 1) (recv + read) rbuf (pos + read)
      | .wouldBlock =>
        receiveMessage nBytes incoming results fuel (call + 1) recv rbuf pos
      | .error => .failed (rbuf, pos)
    else .returned (rbuf, pos)

/-- The buffer of a call, and what the stream returns to it. -/
structure Call where
  buf : List UInt8
  results : Nat → StreamResult

/-- `send_message`, one call after the other on the same stream. -/
def sendMessages (nBytes fuel : Nat) : List Call → List UInt8 → Outcome (List UInt8)
  | [], stream => .returned stream
  | c :: calls, stream =>
    match sendMessage nBytes c.buf c.results fuel 0 0 stream with
    | .returned stream => sendMessages nBytes fuel calls stream
    | stopped => stopped

/-- `receive_message`, one call after the other on the same stream: the buffers. -/
def receiveMessages (nBytes fuel : Nat) (incoming : Nat → UInt8) :
    List Call → Nat → Outcome (List (List UInt8))
  | [], _ => .returned []
  | c :: calls, pos =>
    match receiveMessage nBytes incoming c.results fuel 0 0 c.buf pos with
    | .returned (rbuf, pos) => (receiveMessages nBytes fuel incoming calls pos).map (rbuf :: ·)
    | .failed _ => .failed []
    | .running _ => .running []

/-! ## What should hold -/

/-- `send_message` puts `wbuf[..n_bytes]` on the stream, in order and once: it returns
with nothing else there, it returns once the stream has offered to take that much, and
it ends if the stream reports `Ok(0)` for good. -/
def SendFramed (nBytes : Nat) (c : Call) : Prop :=
  ∀ stream, Exact nBytes (attempts c.results)
    (fun fuel => sendMessage nBytes c.buf c.results fuel 0 0 stream)
    (stream ++ c.buf.take nBytes)

/-- `receive_message` takes the next `n_bytes` from the stream into `rbuf[..n_bytes]`, and
leaves later bytes there. -/
def ReceiveFramed (nBytes : Nat) (c : Call) : Prop :=
  ∀ incoming pos, Exact nBytes (attempts c.results)
    (fun fuel => receiveMessage nBytes incoming c.results fuel 0 0 c.buf pos)
    (bytes incoming pos nBytes ++ c.buf.drop nBytes, pos + nBytes)

/-- As many messages arrive as are sent, and they are the same: `incoming` begins with
what was sent. -/
def PairsUp (nBytes : Nat) (sends receives : List Call) : Prop :=
  ∀ fuel fuel' sent incoming bufs, sends.length = receives.length →
    sendMessages nBytes fuel sends [] = .returned sent →
    bytes incoming 0 sent.length = sent →
    receiveMessages nBytes fuel' incoming receives 0 = .returned bufs →
    bufs.map (List.take nBytes) = sends.map fun c => c.buf.take nBytes

/-- The messages are framed. -/
structure Framed (nBytes : Nat) (sends receives : List Call) : Prop where
  send : ∀ c ∈ sends, SendFramed nBytes c
  receive : ∀ c ∈ receives, ReceiveFramed nBytes c
  pairsUp : PairsUp nBytes sends receives

/-! ## Both loops count -/

variable {nBytes : Nat} {results : Nat → StreamResult}

theorem length_bytes (incoming : Nat → UInt8) (pos n : Nat) :
    (bytes incoming pos n).length = n := by
  rw [bytes, List.length_map, List.length_range]

theorem bytes_add (incoming : Nat → UInt8) (pos m n : Nat) :
    bytes incoming pos (m + n) = bytes incoming pos m ++ bytes incoming (pos + m) n := by
  unfold bytes
  rw [List.range_add, List.map_append, List.map_map]
  refine congrArg _ (List.map_congr_left fun i _ => ?_)
  show incoming (pos + (m + i)) = incoming (pos + m + i)
  rw [Nat.add_assoc]

/-- What `send_message` has put on the stream is a function of its count. -/
theorem sendMessage_eq (wbuf stream : List UInt8) (fuel call : Nat) {send : Nat}
    (hsend : send ≤ wbuf.length) :
    sendMessage nBytes wbuf results fuel call send (stream ++ wbuf.take send)
      = (loop nBytes wbuf.length (attempts results) fuel call send).map
          fun count => stream ++ wbuf.take count := by
  induction fuel generalizing call send with
  | zero => rfl
  | succ fuel ih =>
    rw [sendMessage, loop]
    by_cases hlt : send < nBytes
    · rw [if_pos hlt, if_pos hlt, attempts]
      cases results call with
      | ok n =>
        have hwritten : ((wbuf.drop send).take n).length = min n (wbuf.length - send) := by
          rw [List.length_take, List.length_drop]
        have hstream : stream ++ wbuf.take send ++ (wbuf.drop send).take n
            = stream ++ wbuf.take (send + min n (wbuf.length - send)) := by
          rw [List.append_assoc, List.take_add, ← List.length_drop, ← List.take_eq_take_min]
        show sendMessage _ _ _ _ _ (send + ((wbuf.drop send).take n).length)
          (stream ++ wbuf.take send ++ (wbuf.drop send).take n) = _
        rw [hwritten, hstream, ih (call + 1) (by omega)]
        rfl
      | wouldBlock => exact ih (call + 1) hsend
      | error => rfl
    · rw [if_neg hlt, if_neg hlt]
      rfl

/-- The buffer and the position of `receive_message` are those of the loop, too. -/
theorem receiveMessage_eq (incoming : Nat → UInt8) (rbuf : List UInt8) (pos fuel call : Nat)
    {recv : Nat} (hrecv : recv ≤ rbuf.length) :
    receiveMessage nBytes incoming results fuel call recv
        (bytes incoming pos recv ++ rbuf.drop recv) (pos + recv)
      = (loop nBytes rbuf.length (attempts results) fuel call recv).map
          fun count => (bytes incoming pos count ++ rbuf.drop count, pos + count) := by
  induction fuel generalizing call recv with
  | zero => rfl
  | succ fuel ih =>
    rw [receiveMessage, loop]
    by_cases hlt : recv < nBytes
    · rw [if_pos hlt, if_pos hlt, attempts]
      cases results call with
      | ok n =>
        let read := min n (rbuf.length - recv)
        have hlength : (bytes incoming pos recv ++ rbuf.drop recv).length = rbuf.length := by
          rw [List.length_append, length_bytes, List.length_drop]
          omega
        have htake : (bytes incoming pos recv ++ rbuf.drop recv).take recv
            = bytes incoming pos recv := List.take_left' (length_bytes ..)
        have hdrop : (bytes incoming pos recv ++ rbuf.drop recv).drop (recv + read)
            = rbuf.drop (recv + read) := by
          rw [← List.drop_drop, List.drop_left' (length_bytes ..), List.drop_drop]
        show receiveMessage _ _ _ _ _
          (recv + min n ((bytes incoming pos recv ++ rbuf.drop recv).length - recv)) _ _ = _
        rw [hlength, htake]
        show receiveMessage _ _ _ _ _ (recv + read) (bytes incoming pos recv
          ++ bytes incoming (pos + recv) read ++ (bytes incoming pos recv ++ rbuf.drop recv).drop
            (recv + read)) (pos + recv + read) = _
        rw [hdrop, ← bytes_add, Nat.add_assoc pos recv read, ih (call + 1) (by omega)]
        rfl
      | wouldBlock => exact ih (call + 1) hrecv
      | error => rfl
    · rw [if_neg hlt, if_neg hlt]
      rfl

/-! ## Messages -/

variable {c : Call}

theorem sendFramed_iff (h : nBytes ≤ c.buf.length) :
    SendFramed nBytes c ↔ Proper nBytes c.buf.length (attempts c.results) := by
  have hrun : ∀ stream fuel, sendMessage nBytes c.buf c.results fuel 0 0 stream
      = (loop nBytes c.buf.length (attempts c.results) fuel 0 0).map
          fun count => stream ++ c.buf.take count := by
    intro stream fuel
    have hstart : stream ++ c.buf.take 0 = stream := by rw [List.take_zero, List.append_nil]
    rw [← sendMessage_eq c.buf stream fuel 0 (Nat.zero_le _), hstart]
  have hinj : ∀ stream count, count ≤ c.buf.length →
      stream ++ c.buf.take count = stream ++ c.buf.take nBytes → count = nBytes := by
    intro stream count hcount heq
    have hlength := congrArg List.length (List.append_cancel_left heq)
    rw [List.length_take, List.length_take] at hlength
    omega
  constructor
  · intro hframed
    exact (exact_iff h (hrun []) (hinj [])).mp (hframed [])
  · intro hproper stream
    exact (exact_iff h (hrun stream) (hinj stream)).mpr hproper

theorem receiveFramed_iff (h : nBytes ≤ c.buf.length) :
    ReceiveFramed nBytes c ↔ Proper nBytes c.buf.length (attempts c.results) := by
  have hrun : ∀ incoming pos fuel, receiveMessage nBytes incoming c.results fuel 0 0 c.buf pos
      = (loop nBytes c.buf.length (attempts c.results) fuel 0 0).map
          fun count => (bytes incoming pos count ++ c.buf.drop count, pos + count) := by
    intro incoming pos fuel
    exact receiveMessage_eq incoming c.buf pos fuel 0 (Nat.zero_le _)
  have hinj : ∀ (incoming : Nat → UInt8) (pos count : Nat), count ≤ c.buf.length →
      (bytes incoming pos count ++ c.buf.drop count, pos + count)
        = (bytes incoming pos nBytes ++ c.buf.drop nBytes, pos + nBytes) → count = nBytes := by
    intro incoming pos count _ heq
    have hpos := congrArg Prod.snd heq
    exact Nat.add_left_cancel hpos
  constructor
  · intro hframed
    exact (exact_iff h (hrun (fun _ => 0) 0) (hinj _ _)).mp (hframed _ _)
  · intro hproper incoming pos
    exact (exact_iff h (hrun incoming pos) (hinj incoming pos)).mpr hproper

/-- What framed sends leave on the stream. -/
theorem sendMessages_framed {fuel : Nat} {sends : List Call} {stream sent : List UInt8}
    (hframed : ∀ c ∈ sends, SendFramed nBytes c)
    (h : sendMessages nBytes fuel sends stream = .returned sent) :
    sent = stream ++ (sends.map fun c => c.buf.take nBytes).flatten := by
  induction sends generalizing stream with
  | nil =>
    rw [List.map_nil, List.flatten_nil, List.append_nil]
    exact (Outcome.returned.inj h).symm
  | cons c sends ih =>
    rw [sendMessages] at h
    cases hcall : sendMessage nBytes c.buf c.results fuel 0 0 stream with
    | returned stream' =>
      rw [hcall] at h
      have hexact := (hframed c List.mem_cons_self stream).exact _ _ hcall
      rw [ih (fun d hd => hframed d (List.mem_cons_of_mem c hd)) h, hexact, List.map_cons,
        List.flatten_cons, List.append_assoc]
    | failed stream' =>
      rw [hcall] at h
      cases h
    | running stream' =>
      rw [hcall] at h
      cases h

/-- What framed receives take from it: one message after the other. -/
theorem receiveMessages_framed {fuel : Nat} {incoming : Nat → UInt8} {receives : List Call}
    {pos : Nat} {bufs messages : List (List UInt8)}
    (hframed : ∀ c ∈ receives, ReceiveFramed nBytes c)
    (h : receiveMessages nBytes fuel incoming receives pos = .returned bufs)
    (hcount : messages.length = receives.length) (hlength : ∀ m ∈ messages, m.length = nBytes)
    (hincoming : bytes incoming pos messages.flatten.length = messages.flatten) :
    bufs.map (List.take nBytes) = messages := by
  induction receives generalizing messages pos bufs with
  | nil =>
    have hnil : messages = [] := List.length_eq_zero_iff.mp hcount
    have hbufs : [] = bufs := Outcome.returned.inj h
    rw [hnil, ← hbufs]
    rfl
  | cons c receives ih =>
    obtain ⟨m, ms, rfl⟩ := List.exists_cons_of_length_eq_add_one hcount
    have hm := hlength m List.mem_cons_self
    rw [List.flatten_cons, List.length_append, hm, bytes_add] at hincoming
    obtain ⟨hfirst, hrest⟩ := List.append_inj hincoming (by rw [length_bytes, hm])
    rw [receiveMessages] at h
    cases hcall : receiveMessage nBytes incoming c.results fuel 0 0 c.buf pos with
    | returned result =>
      obtain ⟨rbuf, pos'⟩ := result
      rw [hcall] at h
      obtain ⟨later, hlater, rfl⟩ := Outcome.map_returned h
      have hexact := (hframed c List.mem_cons_self incoming pos).exact _ _ hcall
      obtain ⟨rfl, rfl⟩ := Prod.mk.inj hexact
      have htail := ih (fun d hd => hframed d (List.mem_cons_of_mem c hd)) hlater
        (Nat.succ.inj hcount) (fun m hm => hlength m (List.mem_cons_of_mem _ hm)) hrest
      rw [List.map_cons, htail, List.take_left' (length_bytes ..), hfirst]
    | failed result =>
      rw [hcall] at h
      cases h
    | running result =>
      rw [hcall] at h
      cases h

/-- **Framing**: the messages are framed if and only if no result of a stream carries a
count past `n_bytes`, and no stream reports `Ok(0)` for good before. -/
theorem framed_iff {sends receives : List Call} (hs : ∀ c ∈ sends, nBytes ≤ c.buf.length)
    (hr : ∀ c ∈ receives, nBytes ≤ c.buf.length) :
    Framed nBytes sends receives ↔
      (∀ c ∈ sends, Proper nBytes c.buf.length (attempts c.results)) ∧
        ∀ c ∈ receives, Proper nBytes c.buf.length (attempts c.results) := by
  constructor
  · intro h
    exact ⟨fun c hc => (sendFramed_iff (hs c hc)).mp (h.send c hc),
      fun c hc => (receiveFramed_iff (hr c hc)).mp (h.receive c hc)⟩
  · rintro ⟨hsend, hreceive⟩
    have hsends : ∀ c ∈ sends, SendFramed nBytes c := fun c hc =>
      (sendFramed_iff (hs c hc)).mpr (hsend c hc)
    have hreceives : ∀ c ∈ receives, ReceiveFramed nBytes c := fun c hc =>
      (receiveFramed_iff (hr c hc)).mpr (hreceive c hc)
    refine ⟨hsends, hreceives, fun fuel fuel' sent incoming bufs hcount hsent hin hbufs => ?_⟩
    have hstream := sendMessages_framed hsends hsent
    rw [List.nil_append] at hstream
    have hmessages : (sends.map fun c => c.buf.take nBytes).length = receives.length := by
      rw [List.length_map, hcount]
    refine receiveMessages_framed hreceives hbufs hmessages (fun m hm => ?_) (hstream ▸ hin)
    obtain ⟨c, hc, rfl⟩ := List.mem_map.mp hm
    rw [List.length_take]
    exact Nat.min_eq_left (hs c hc)

/-- Buffers of the message's length, and a stream that takes one byte in each call. -/
theorem framed_one_by_one :
    Framed 2 [⟨[7, 8], fun _ => .ok 1⟩] [⟨[0, 0], fun _ => .ok 1⟩] := by
  have hproper : Proper 2 2 (attempts fun _ => .ok 1) :=
    proper_of_no_room fun i _ _ hcease => Attempt.noConfusion (hcease i (Nat.le_refl i))
      fun h => absurd h (by decide)
  refine (framed_iff ?_ ?_).mpr ⟨?_, ?_⟩ <;> intro c hc <;> cases List.mem_singleton.mp hc
  · exact Nat.le_refl 2
  · exact Nat.le_refl 2
  · exact hproper
  · exact hproper

/-- The stream takes two bytes of a buffer that is longer than the message, and the
stream ends before the message does. -/
theorem not_framed : ¬ Framed 1 [⟨[7, 8], fun _ => .ok 2⟩] [] ∧
    ¬ Framed 1 [] [⟨[0], fun _ => .ok 0⟩] := by
  constructor
  · intro h
    have hexact := (h.send _ List.mem_cons_self []).exact 2 [7, 8] rfl
    cases hexact
  · intro h
    have hone : 1 ≤ (Call.mk [0] fun _ => .ok 0).buf.length := Nat.le_refl 1
    have hproper := (receiveFramed_iff hone).mp (h.receive _ List.mem_cons_self)
    exact hproper.notCut 0 (fun j hj => absurd hj (Nat.not_lt_zero j)) Nat.zero_lt_one
      fun _ _ => rfl

end RustyHermit.Benches
