import RustyHermit.Lib.Closures
import RustyHermit.Lib.Machine

/-!
# The tokens of the network device (`device.rs`)

smoltcp gets frames in and out by tokens. Consuming one runs a closure of smoltcp on a
buffer of the driver: a `TxToken` asks the kernel for the buffer, an `RxToken` has it.
The closures do what they like, and consume other tokens: a reply is sent while the
frame it answers is still held.

`Traffic.machine` has all runs: of `receive`, `transmit` and `consume`, with any results
of the closures and of the kernel. `released_iff` is the main result. A buffer that the
kernel refuses to send is not given back (`Refused`); all other buffers are, once.

A handle is the kernel's number for a buffer, and the kernel may use a number again. So
a handle says here how it was acquired, too.
-/

namespace RustyHermit.Net

/-- `&'static mut [u8]`. What is in it is between the closures and the kernel. -/
structure Slice where
  ptr : Nat
  len : Nat
deriving DecidableEq, Repr

/-- A buffer's handle. -/
structure BufferHandle where
  /-- the `usize` -/
  handle : Nat
  /-- ghost: the number of the frame received, or of the `consume` that got the buffer -/
  acquired : Nat
deriving DecidableEq, Repr

/-- `smoltcp::Error`. The closures return any. -/
inductive PhyError where
  | exhausted
  | other (variant : Nat)
deriving DecidableEq, Repr

/-! ## The kernel -/

/-- The calls that `consume` makes. -/
inductive KernelCall where
  | getTxBuffer (len : Nat)
  | sendTxBuffer (handle : BufferHandle) (len : Nat)
  | freeTxBuffer (handle : BufferHandle)
  | rxBufferConsumed (handle : BufferHandle)
deriving DecidableEq, Repr

/-- What they return. -/
abbrev KernelCall.Answer : KernelCall → Type
  | .getTxBuffer _ => Except Unit (Nat × BufferHandle)
  | .sendTxBuffer .. => Except Unit Unit
  | .freeTxBuffer _ => Unit
  | .rxBufferConsumed _ => Except Unit Unit

/-- What the kernel has in store for the next call. -/
structure Kernel where
  sys_receive_rx_buffer : Except Unit (Slice × Nat)
  sys_get_tx_buffer : Nat → Except Unit (Nat × Nat)
  sys_send_tx_buffer : Nat → Nat → Except Unit Unit
  sys_rx_buffer_consumed : Nat → Except Unit Unit

/-- What it answers the `consume` number `n`. -/
def Kernel.answer (kernel : Kernel) (n : Nat) : ∀ c : KernelCall, c.Answer
  | .getTxBuffer len =>
    (kernel.sys_get_tx_buffer len).map fun (tx_buffer, handle) => (tx_buffer, ⟨handle, n⟩)
  | .sendTxBuffer handle len => kernel.sys_send_tx_buffer handle.handle len
  | .freeTxBuffer _ => ()
  | .rxBufferConsumed handle => kernel.sys_rx_buffer_consumed handle.handle

/-! ## The tokens -/

variable {R : Type}

/-- A function that takes a closure `FnOnce(&mut [u8]) -> smoltcp::Result<R>`. -/
abbrev TokenCode (R : Type) : Type :=
  Code KernelCall KernelCall.Answer Slice (Except PhyError R)

/-- `struct RxToken`. -/
structure RxToken where
  buffer : Slice
  handle : BufferHandle
deriving DecidableEq, Repr

/-- `RxToken::new`. -/
def RxToken.new (buffer : Slice) (handle : BufferHandle) : RxToken := { buffer, handle }

/-- `RxToken::consume`. -/
def RxToken.consume (self : RxToken) : TokenCode R :=
  .closure self.buffer fun result =>
    .call (.rxBufferConsumed self.handle) fun
      | .ok () => .ret result
      | .error () => .ret (.error .exhausted)

/-- `struct TxToken`. -/
structure TxToken where
deriving DecidableEq, Repr

/-- `TxToken::new`. -/
def TxToken.new : TxToken := {}

/-- `TxToken::consume`. -/
def TxToken.consume (_self : TxToken) (len : Nat) : TokenCode R :=
  .call (.getTxBuffer len) fun
    | .error () => .ret (.error .exhausted)
    | .ok (tx_buffer, handle) =>
      .closure ⟨tx_buffer, len⟩ fun
        | .ok result =>
          .call (.sendTxBuffer handle len) fun
            | .ok () => .ret (.ok result)
            | .error () => .ret (.error .exhausted)
        | .error e => .call (.freeTxBuffer handle) fun () => .ret (.error e)

/-- `HermitNet::receive`, by what `sys_receive_rx_buffer` returns. -/
def HermitNet.receive (buffer : Except Unit (Slice × BufferHandle)) :
    Option (RxToken × TxToken) :=
  match buffer with
  | .ok (buffer, handle) => some (.new buffer handle, .new)
  | .error _ => none

/-- `HermitNet::transmit`. -/
def HermitNet.transmit : Option TxToken := some .new

/-! ## All runs -/

/-- What `consume` is called with, the closure apart. -/
inductive Consume where
  | rx (self : RxToken)
  | tx (self : TxToken) (len : Nat)
deriving DecidableEq, Repr

/-- What goes through the device. -/
structure Traffic (R : Type) where
  /-- how many frames have been received -/
  received : Nat
  /-- the tokens that have not been consumed: for these frames, -/
  rxTokens : Nat → Option RxToken
  /-- and so many to transmit -/
  txTokens : List TxToken
  calls : Calls Consume KernelCall KernelCall.Answer Slice (Except PhyError R)

namespace Traffic

/-- What smoltcp does next, and the kernel's answers to that. -/
inductive Label (R : Type) where
  | receive (kernel : Kernel)
  | transmit
  /-- the token of the frame number `i` -/
  | consumeRx (i : Nat) (kernel : Kernel)
  | consumeTx (len : Nat) (kernel : Kernel)
  /-- the innermost closure returns -/
  | result (result : Except PhyError R) (kernel : Kernel)

/-- One step. A token is moved into the `consume` that consumes it. -/
def next (s : Traffic R) : Label R → Option (Traffic R)
  | .receive kernel =>
    match HermitNet.receive (kernel.sys_receive_rx_buffer.map fun (buffer, handle) =>
        (buffer, ⟨handle, s.received⟩)) with
    | none => some s
    | some (rx, tx) =>
      some { s with received := s.received + 1
                    rxTokens := Function.update s.rxTokens s.received (some rx)
                    txTokens := tx :: s.txTokens }
  | .transmit => some { s with txTokens := HermitNet.transmit.toList ++ s.txTokens }
  | .consumeRx i kernel =>
    match s.rxTokens i with
    | none => none
    | some rx =>
      some { s with rxTokens := Function.update s.rxTokens i none
                    calls := s.calls.enter (.rx rx) rx.consume kernel.answer }
  | .consumeTx len kernel =>
    match s.txTokens with
    | [] => none
    | tx :: txTokens =>
      some { s with txTokens
                    calls := s.calls.enter (.tx tx len) (tx.consume len) kernel.answer }
  | .result result kernel =>
    (s.calls.resume result kernel.answer).map fun calls => { s with calls }

/-- Nothing has happened. -/
def start : Traffic R :=
  { received := 0, rxTokens := fun _ => none, txTokens := [], calls := .none }

/-- All runs. -/
def machine (R : Type) : Machine (Traffic R) (Label R) where
  init s := s = start
  next := next

/-! ## What should hold -/

/-- What a `consume` does, as far as the kernel and smoltcp can see it. -/
abbrev Event (R : Type) : Type :=
  CodeEvent KernelCall KernelCall.Answer (Except PhyError R)

/-- `handle` is given to `sys_rx_buffer_consumed`. -/
def isConsumed (handle : BufferHandle) : Event R → Bool
  | .called (.rxBufferConsumed h) _ => h == handle
  | _ => false

/-- The frame in the buffer `handle` is accepted for sending. -/
def isAccepted (handle : BufferHandle) : Event R → Bool
  | .called (.sendTxBuffer h _) (.ok ()) => h == handle
  | _ => false

/-- `handle` is given to `sys_free_tx_buffer`. -/
def isFreed (handle : BufferHandle) : Event R → Bool
  | .called (.freeTxBuffer h) _ => h == handle
  | _ => false

/-- The driver's buffers are released, and once. -/
structure Released (s : Traffic R) : Prop where
  /-- a received frame's buffer, by the time its token's `consume` returns and not before -/
  rx : ∀ n rx, s.calls.args[n]? = some (.rx rx) →
    s.calls.total (isConsumed rx.handle) = (s.calls.returned n).toNat
  /-- it is kept as long as nobody consumes the token -/
  kept : ∀ i rx, s.rxTokens i = some rx → s.calls.total (isConsumed rx.handle) = 0
  /-- a buffer to transmit, by the time the `consume` that got it returns and not before -/
  tx : ∀ n len buffer handle,
    .called (.getTxBuffer len) (.ok (buffer, handle)) ∈ s.calls.trace n →
    s.calls.total (isAccepted handle) + s.calls.total (isFreed handle)
      = (s.calls.returned n).toNat
  /-- `TxToken::consume` returns `Ok` only for an accepted frame -/
  ok : ∀ n tx len result, s.calls.args[n]? = some (.tx tx len) →
    .returned (.ok result) ∈ s.calls.trace n →
    ∃ handle, .called (.sendTxBuffer handle len) (.ok ()) ∈ s.calls.trace n

/-- The kernel has refused to send a frame. -/
def Refused (s : Traffic R) : Prop :=
  ∃ n handle len, .called (.sendTxBuffer handle len) (.error ()) ∈ s.calls.trace n

/-! ## What a `consume` leaves behind -/

/-- `TxToken::consume`, once it has returned. -/
inductive TxClosed (n len : Nat) : List (Event R) → Prop where
  | noBuffer :
    TxClosed n len [.called (.getTxBuffer len) (.error ()), .returned (.error .exhausted)]
  | accepted (buffer : Nat) (handle : BufferHandle) (result : R) : handle.acquired = n →
    TxClosed n len [.called (.getTxBuffer len) (.ok (buffer, handle)),
      .called (.sendTxBuffer handle len) (.ok ()), .returned (.ok result)]
  | refused (buffer : Nat) (handle : BufferHandle) : handle.acquired = n →
    TxClosed n len [.called (.getTxBuffer len) (.ok (buffer, handle)),
      .called (.sendTxBuffer handle len) (.error ()), .returned (.error .exhausted)]
  | freed (buffer : Nat) (handle : BufferHandle) (e : PhyError) : handle.acquired = n →
    TxClosed n len [.called (.getTxBuffer len) (.ok (buffer, handle)),
      .called (.freeTxBuffer handle) (), .returned (.error e)]

/-- What is asked of all of them. -/
def spec (R : Type) : Calls.Spec Consume KernelCall KernelCall.Answer (Except PhyError R) where
  allowed n
    | .getTxBuffer _, .ok (_, handle) => handle.acquired = n
    | _, _ => True
  opened
    | .rx _, _, tr => tr = []
    | .tx _ len, n, tr => ∃ buffer handle, handle.acquired = n ∧
      tr = [.called (.getTxBuffer len) (.ok (buffer, handle))]
  closed
    | .rx rx, _, tr => ∃ a result,
      tr = [.called (.rxBufferConsumed rx.handle) a, .returned result]
    | .tx _ len, n, tr => TxClosed n len tr

theorem allowed_answer (kernel : Kernel) (n : Nat) (c : KernelCall) :
    (spec R).allowed n c (kernel.answer n c) := by
  cases c with
  | getTxBuffer len =>
    cases h : kernel.sys_get_tx_buffer len with
    | error e =>
      simp only [spec, Kernel.answer, h]
      trivial
    | ok p =>
      simp only [spec, Kernel.answer, h]
      rfl
  | sendTxBuffer handle len => trivial
  | freeTxBuffer handle => trivial
  | rxBufferConsumed handle => trivial

theorem met_rx (rx : RxToken) (n : Nat) :
    (spec R).Met (.rx rx) n (rx.consume : TokenCode R) [] := by
  refine ⟨rfl, fun result a _ => ?_⟩
  cases a with
  | error _ => exact ⟨_, _, rfl⟩
  | ok _ => exact ⟨_, _, rfl⟩

theorem met_tx (tx : TxToken) (n len : Nat) :
    (spec R).Met (.tx tx len) n (tx.consume len : TokenCode R) [] := by
  intro a ha
  cases a with
  | error _ => exact .noBuffer
  | ok p =>
    obtain ⟨buffer, handle⟩ := p
    refine ⟨⟨buffer, handle, ha, rfl⟩, fun result => ?_⟩
    cases result with
    | ok result =>
      intro a _
      cases a with
      | ok _ => exact .accepted buffer handle result ha
      | error _ => exact .refused buffer handle ha
    | error e =>
      intro a _
      exact .freed buffer handle e ha

/-! ## The tokens -/

variable {s s' : Traffic R}

/-- Each frame has one token, and one `consume` gets it. -/
structure Inv (s : Traffic R) : Prop where
  calls : s.calls.Inv (spec R)
  token : ∀ i rx, s.rxTokens i = some rx → rx.handle.acquired = i ∧ i < s.received
  moved : ∀ (n : Nat) rx, s.calls.args[n]? = some (.rx rx) →
    rx.handle.acquired < s.received ∧ s.rxTokens rx.handle.acquired = none
  once : ∀ (n n' : Nat) rx rx', s.calls.args[n]? = some (.rx rx) →
    s.calls.args[n']? = some (.rx rx') → rx.handle.acquired = rx'.handle.acquired → n = n'

theorem inv_start : Inv (start : Traffic R) where
  calls := Calls.inv_none
  token i rx h := by cases h
  moved n rx h := by cases h
  once n n' rx rx' h := by cases h

/-- A frame is received. -/
theorem Inv.received (hi : Inv s) {rx : RxToken} (hrx : rx.handle.acquired = s.received)
    (txTokens : List TxToken) :
    Inv { s with received := s.received + 1
                 rxTokens := Function.update s.rxTokens s.received (some rx)
                 txTokens } where
  calls := hi.calls
  token i rx' h := by
    rcases update_cases h with ⟨rfl, heq⟩ | ⟨-, hold⟩
    · cases heq
      exact ⟨hrx, Nat.lt_succ_self _⟩
    · obtain ⟨hacquired, hlt⟩ := hi.token i rx' hold
      exact ⟨hacquired, Nat.lt_succ_of_lt hlt⟩
  moved n rx' h := by
    obtain ⟨hlt, hnone⟩ := hi.moved n rx' h
    refine ⟨Nat.lt_succ_of_lt hlt, ?_⟩
    show Function.update s.rxTokens s.received (some rx) rx'.handle.acquired = none
    rw [Function.update_of_ne (Nat.ne_of_lt hlt)]
    exact hnone
  once := hi.once

/-- A frame's token is consumed. -/
theorem Inv.consumeRx (hi : Inv s) {i : Nat} {rx : RxToken} (hrx : s.rxTokens i = some rx)
    (kernel : Kernel) :
    Inv { s with rxTokens := Function.update s.rxTokens i none
                 calls := s.calls.enter (.rx rx) rx.consume kernel.answer } := by
  obtain ⟨hacquired, hlt⟩ := hi.token i rx hrx
  have hfresh : ∀ (n : Nat) rx', s.calls.args[n]? = some (.rx rx') →
      rx'.handle.acquired ≠ i := by
    intro n rx' h heq
    have hnone := (hi.moved n rx' h).2
    rw [heq, hrx] at hnone
    cases hnone
  refine ⟨Calls.inv_enter hi.calls (met_rx rx _) (allowed_answer kernel), fun j rx' h => ?_,
    fun n rx' h => ?_, fun n n' rx' rx'' h h' heq => ?_⟩
  · rcases update_cases h with ⟨-, heq⟩ | ⟨-, hold⟩
    · cases heq
    · exact hi.token j rx' hold
  · show rx'.handle.acquired < s.received ∧
      Function.update s.rxTokens i none rx'.handle.acquired = none
    rcases Calls.args_concat h with hold | ⟨-, heq⟩
    · rw [Function.update_of_ne (hfresh n rx' hold)]
      exact hi.moved n rx' hold
    · cases heq
      rw [hacquired, Function.update_self]
      exact ⟨hlt, rfl⟩
  · rcases Calls.args_concat h with hold | ⟨rfl, hnew⟩ <;>
      rcases Calls.args_concat h' with hold' | ⟨rfl, hnew'⟩
    · exact hi.once n n' rx' rx'' hold hold' heq
    · cases hnew'
      exact absurd (heq.trans hacquired) (hfresh n rx' hold)
    · cases hnew
      exact absurd (heq.symm.trans hacquired) (hfresh n' rx'' hold')
    · rfl

/-- Calls that move no token. -/
theorem Inv.of_args (hi : Inv s) {calls : Calls Consume KernelCall KernelCall.Answer Slice _}
    (hcalls : calls.Inv (spec R)) (txTokens : List TxToken)
    (hargs : ∀ (n : Nat) rx, calls.args[n]? = some (.rx rx) →
      s.calls.args[n]? = some (.rx rx)) :
    Inv { s with txTokens, calls } where
  calls := hcalls
  token := hi.token
  moved n rx h := hi.moved n rx (hargs n rx h)
  once n n' rx rx' h h' := hi.once n n' rx rx' (hargs n rx h) (hargs n' rx' h')

theorem Inv.next (hi : Inv s) {l : Label R} (h : s.next l = some s') : Inv s' := by
  cases l with
  | receive kernel =>
    cases hframe : kernel.sys_receive_rx_buffer with
    | error e =>
      simp only [Traffic.next, hframe] at h
      cases h
      exact hi
    | ok p =>
      simp only [Traffic.next, hframe] at h
      cases h
      exact hi.received rfl _
  | transmit =>
    cases h
    exact hi.of_args hi.calls _ fun n rx h => h
  | consumeRx i kernel =>
    cases hrx : s.rxTokens i with
    | none =>
      simp only [Traffic.next, hrx] at h
      cases h
    | some rx =>
      simp only [Traffic.next, hrx] at h
      cases h
      exact hi.consumeRx hrx kernel
  | consumeTx len kernel =>
    cases htx : s.txTokens with
    | nil =>
      simp only [Traffic.next, htx] at h
      cases h
    | cons tx txTokens =>
      simp only [Traffic.next, htx] at h
      cases h
      refine hi.of_args (Calls.inv_enter hi.calls (met_tx tx _ len) (allowed_answer kernel)) _
        fun n rx hn => ?_
      rcases Calls.args_concat hn with hold | ⟨-, heq⟩
      · exact hold
      · cases heq
  | result result kernel =>
    obtain ⟨calls, hcalls, rfl⟩ := Option.map_eq_some_iff.mp h
    refine hi.of_args (Calls.inv_resume hi.calls (allowed_answer kernel) hcalls) _
      fun n rx hn => ?_
    rw [Calls.args_resume hcalls] at hn
    exact hn

theorem reachable_inv (h : (machine R).Reachable s) : Inv s := by
  refine h.invariant (I := Inv) (fun s hinit => ?_) fun s l s' hi hnext => hi.next hnext
  rw [show s = start from hinit]
  exact inv_start

/-! ## Counting -/

/-- The trace of a `consume`, whether it has returned or not. -/
theorem Inv.trace_rx (hi : Inv s) {n : Nat} {rx : RxToken}
    (h : s.calls.args[n]? = some (.rx rx)) :
    s.calls.trace n = [] ∨ ∃ a result,
      s.calls.trace n = [.called (.rxBufferConsumed rx.handle) a, .returned result] :=
  hi.calls.opened_or_closed h

theorem Inv.trace_tx (hi : Inv s) {n len : Nat} {tx : TxToken}
    (h : s.calls.args[n]? = some (.tx tx len)) :
    (∃ buffer handle, handle.acquired = n ∧
      s.calls.trace n = [.called (.getTxBuffer len) (.ok (buffer, handle))]) ∨
    TxClosed n len (s.calls.trace n) :=
  hi.calls.opened_or_closed h

theorem TxClosed.countP_isConsumed {n len : Nat} {tr : List (Event R)} (h : TxClosed n len tr)
    (handle : BufferHandle) : tr.countP (isConsumed handle) = 0 := by
  cases h <;> rfl

/-- A buffer is only given back by the `consume` that has its token. -/
theorem Inv.countP_isConsumed (hi : Inv s) {m : Nat} {y : Consume} {handle : BufferHandle}
    (hm : s.calls.args[m]? = some y) (hy : ∀ rx, y = .rx rx → rx.handle ≠ handle) :
    (s.calls.trace m).countP (isConsumed handle) = 0 := by
  cases y with
  | rx rx =>
    rcases hi.trace_rx hm with htr | ⟨a, result, htr⟩
    · rw [htr]
      rfl
    · simp [htr, isConsumed, hy rx rfl]
  | tx tx len =>
    rcases hi.trace_tx hm with ⟨buffer, h, -, htr⟩ | hclosed
    · rw [htr]
      rfl
    · exact hclosed.countP_isConsumed handle

theorem Inv.total_isConsumed (hi : Inv s) {n : Nat} {rx : RxToken}
    (h : s.calls.args[n]? = some (.rx rx)) :
    s.calls.total (isConsumed rx.handle) = (s.calls.returned n).toNat := by
  have hothers : ∀ m y, s.calls.args[m]? = some y → m ≠ n →
      (s.calls.trace m).countP (isConsumed rx.handle) = 0 := by
    intro m y hm hne
    refine hi.countP_isConsumed hm fun rx' hy heq => hne ?_
    subst hy
    exact hi.once m n rx' rx hm h (congrArg BufferHandle.acquired heq)
  rw [Calls.total_eq h hothers, Calls.returned]
  rcases hi.trace_rx h with htr | ⟨a, result, htr⟩
  · rw [htr]
    rfl
  · simp [htr, isConsumed, CodeEvent.isReturned]

/-- A frame whose token is still there keeps its buffer. -/
theorem Inv.total_isConsumed_kept (hi : Inv s) {i : Nat} {rx : RxToken}
    (h : s.rxTokens i = some rx) : s.calls.total (isConsumed rx.handle) = 0 := by
  refine Finset.sum_eq_zero fun m hm => ?_
  have hlt : m < s.calls.args.length := Finset.mem_range.mp hm
  refine hi.countP_isConsumed (List.getElem?_eq_getElem hlt) fun rx' hy heq => ?_
  have hnone := (hi.moved m rx' ((List.getElem?_eq_getElem hlt).trans (congrArg some hy))).2
  rw [heq, (hi.token i rx h).1, h] at hnone
  cases hnone

/-- Who does something has been called. -/
theorem Inv.exists_arg (hi : Inv s) {n : Nat} {e : Event R} (h : e ∈ s.calls.trace n) :
    ∃ y, s.calls.args[n]? = some y := by
  by_cases hn : n < s.calls.args.length
  · exact ⟨_, List.getElem?_eq_getElem hn⟩
  · rw [hi.calls.fresh n (by omega)] at h
    cases h

/-- The kernel refuses to send the frame in the buffer `handle`. -/
def isRefused (handle : BufferHandle) : Event R → Bool
  | .called (.sendTxBuffer h _) (.error ()) => h == handle
  | _ => false

theorem eq_of_isRefused {handle : BufferHandle} {e : Event R} (h : isRefused handle e = true) :
    ∃ len, e = .called (.sendTxBuffer handle len) (.error ()) := by
  unfold isRefused at h
  split at h
  · rename_i h' len
    exact ⟨len, by rw [eq_of_beq h]⟩
  · cases h

/-- Only the `consume` that got a buffer has the driver send or free it. -/
theorem Inv.countP_tx (hi : Inv s) {m : Nat} {y : Consume} {handle : BufferHandle}
    (hm : s.calls.args[m]? = some y) (hne : m ≠ handle.acquired) :
    (s.calls.trace m).countP (isAccepted handle) = 0 ∧
      (s.calls.trace m).countP (isFreed handle) = 0 := by
  have hhandle : ∀ h : BufferHandle, h.acquired = m → h ≠ handle := by
    intro h hacquired heq
    exact hne (hacquired.symm.trans (congrArg BufferHandle.acquired heq))
  cases y with
  | rx rx =>
    rcases hi.trace_rx hm with htr | ⟨a, result, htr⟩
    · rw [htr]
      exact ⟨rfl, rfl⟩
    · rw [htr]
      exact ⟨rfl, rfl⟩
  | tx tx len =>
    rcases hi.trace_tx hm with ⟨buffer, h, -, htr⟩ | hclosed
    · rw [htr]
      exact ⟨rfl, rfl⟩
    · generalize s.calls.trace m = tr at hclosed
      cases hclosed with
      | noBuffer => exact ⟨rfl, rfl⟩
      | accepted buffer h result hacquired =>
        simp [isAccepted, isFreed, hhandle h hacquired]
      | refused buffer h hacquired => exact ⟨rfl, rfl⟩
      | freed buffer h e hacquired =>
        simp [isAccepted, isFreed, hhandle h hacquired]

/-- A `consume` that has returned has had its buffer sent, been refused that or freed it. -/
theorem TxClosed.counts {n len len' buffer : Nat} {handle : BufferHandle} {tr : List (Event R)}
    (h : TxClosed n len tr) (hgot : .called (.getTxBuffer len') (.ok (buffer, handle)) ∈ tr) :
    handle.acquired = n ∧ tr.countP (isAccepted handle) + tr.countP (isFreed handle)
      + tr.countP (isRefused handle) = (tr.any CodeEvent.isReturned).toNat := by
  cases h with
  | noBuffer => simp at hgot
  | accepted b h result hacquired =>
    obtain ⟨rfl, rfl, rfl⟩ : len' = len ∧ buffer = b ∧ handle = h := by simpa using hgot
    exact ⟨hacquired, by simp [isAccepted, isFreed, isRefused, CodeEvent.isReturned]⟩
  | refused b h hacquired =>
    obtain ⟨rfl, rfl, rfl⟩ : len' = len ∧ buffer = b ∧ handle = h := by simpa using hgot
    exact ⟨hacquired, by simp [isAccepted, isFreed, isRefused, CodeEvent.isReturned]⟩
  | freed b h e hacquired =>
    obtain ⟨rfl, rfl, rfl⟩ : len' = len ∧ buffer = b ∧ handle = h := by simpa using hgot
    exact ⟨hacquired, by simp [isAccepted, isFreed, isRefused, CodeEvent.isReturned]⟩

theorem Inv.counts (hi : Inv s) {n len buffer : Nat} {handle : BufferHandle}
    (h : .called (.getTxBuffer len) (.ok (buffer, handle)) ∈ s.calls.trace n) :
    handle.acquired = n ∧ (s.calls.trace n).countP (isAccepted handle)
      + (s.calls.trace n).countP (isFreed handle) + (s.calls.trace n).countP (isRefused handle)
      = (s.calls.returned n).toNat := by
  obtain ⟨y, hy⟩ := hi.exists_arg h
  cases y with
  | rx rx =>
    rcases hi.trace_rx hy with htr | ⟨a, result, htr⟩ <;> simp [htr] at h
  | tx tx len' =>
    rcases hi.trace_tx hy with ⟨b, h', hacquired, htr⟩ | hclosed
    · obtain ⟨rfl, rfl, rfl⟩ : len = len' ∧ buffer = b ∧ handle = h' := by simpa [htr] using h
      rw [Calls.returned, htr]
      exact ⟨hacquired, rfl⟩
    · exact hclosed.counts h

/-- The three ends of a buffer to transmit. -/
theorem Inv.total_tx (hi : Inv s) {n len buffer : Nat} {handle : BufferHandle}
    (h : .called (.getTxBuffer len) (.ok (buffer, handle)) ∈ s.calls.trace n) :
    s.calls.total (isAccepted handle) + s.calls.total (isFreed handle)
      + (s.calls.trace n).countP (isRefused handle) = (s.calls.returned n).toNat := by
  obtain ⟨rfl, hcounts⟩ := hi.counts h
  obtain ⟨y, hy⟩ := hi.exists_arg h
  rw [Calls.total_eq hy fun m z hm hne => (hi.countP_tx hm hne).1,
    Calls.total_eq hy fun m z hm hne => (hi.countP_tx hm hne).2]
  exact hcounts

/-- A refusal comes from the `consume` that got the buffer, and that returns then. -/
theorem Inv.refused (hi : Inv s) {n len : Nat} {handle : BufferHandle}
    (h : .called (.sendTxBuffer handle len) (.error ()) ∈ s.calls.trace n) :
    ∃ buffer, .called (.getTxBuffer len) (.ok (buffer, handle)) ∈ s.calls.trace n := by
  obtain ⟨y, hy⟩ := hi.exists_arg h
  cases y with
  | rx rx =>
    rcases hi.trace_rx hy with htr | ⟨a, result, htr⟩ <;> simp [htr] at h
  | tx tx len' =>
    rcases hi.trace_tx hy with ⟨b, h', -, htr⟩ | hclosed
    · simp [htr] at h
    · generalize s.calls.trace n = tr at hclosed h
      cases hclosed with
      | noBuffer => simp at h
      | accepted b h' result hacquired => simp at h
      | refused b h' hacquired =>
        obtain ⟨rfl, rfl⟩ : handle = h' ∧ len = len' := by simpa using h
        exact ⟨b, List.mem_cons_self⟩
      | freed b h' e hacquired => simp at h

/-- `TxToken::consume` returns `Ok` when the frame has been accepted. -/
theorem Inv.accepted_of_ok (hi : Inv s) {n len : Nat} {tx : TxToken} {result : R}
    (hn : s.calls.args[n]? = some (.tx tx len))
    (h : .returned (.ok result) ∈ s.calls.trace n) :
    ∃ handle, .called (.sendTxBuffer handle len) (.ok ()) ∈ s.calls.trace n := by
  rcases hi.trace_tx hn with ⟨b, h', -, htr⟩ | hclosed
  · simp [htr] at h
  · generalize s.calls.trace n = tr at hclosed h
    cases hclosed with
    | noBuffer => simp at h
    | accepted b h' r hacquired => exact ⟨h', by simp⟩
    | refused b h' hacquired => simp at h
    | freed b h' e hacquired => simp at h

/-- **The driver's buffers are released, and once**, as long as the kernel sends the
frames it is given. `consume` does not give back the buffer of one that it refuses. -/
theorem released_iff (h : (machine R).Reachable s) : Released s ↔ ¬ Refused s := by
  have hi := reachable_inv h
  constructor
  · rintro hreleased ⟨n, handle, len, hrefused⟩
    obtain ⟨buffer, hgot⟩ := hi.refused hrefused
    have htotal := hi.total_tx hgot
    have htx := hreleased.tx n len buffer handle hgot
    have hpos : 0 < (s.calls.trace n).countP (isRefused handle) :=
      List.countP_pos_iff.mpr ⟨_, hrefused, by simp [isRefused]⟩
    omega
  · intro hnot
    refine ⟨fun n rx hn => hi.total_isConsumed hn, fun i rx hrx => hi.total_isConsumed_kept hrx,
      fun n len buffer handle hgot => ?_,
      fun n tx len result hn hok => hi.accepted_of_ok hn hok⟩
    have htotal := hi.total_tx hgot
    have hzero : (s.calls.trace n).countP (isRefused handle) = 0 := by
      refine List.countP_eq_zero.mpr fun e he hrefused => hnot ?_
      obtain ⟨len', rfl⟩ := eq_of_isRefused hrefused
      exact ⟨n, handle, len', he⟩
    omega

/-- A kernel that has a frame and a buffer, for which `send` is the result of sending. -/
def demoKernel (send : Except Unit Unit) : Kernel where
  sys_receive_rx_buffer := .ok (⟨0, 60⟩, 0)
  sys_get_tx_buffer _ := .ok (0, 0)
  sys_send_tx_buffer _ _ := send
  sys_rx_buffer_consumed _ := .ok ()

/-- A reply is sent while the frame that it answers is held. -/
def demoReply (kernel : Kernel) : List (Label Unit) :=
  [.receive kernel, .consumeRx 0 kernel, .consumeTx 60 kernel, .result (.ok ()) kernel,
    .result (.ok ()) kernel]

theorem released_reply :
    ∃ s, (machine Unit).run start (demoReply (demoKernel (.ok ()))) = some s ∧ Released s := by
  obtain ⟨s, hs, hrx, htx, hargs⟩ :
      ∃ s, (machine Unit).run start (demoReply (demoKernel (.ok ()))) = some s ∧
        s.calls.trace 0 = [.called (.rxBufferConsumed ⟨0, 0⟩) (.ok ()), .returned (.ok ())] ∧
        s.calls.trace 1 = [.called (.getTxBuffer 60) (.ok (0, ⟨0, 1⟩)),
          .called (.sendTxBuffer ⟨0, 1⟩ 60) (.ok ()), .returned (.ok ())] ∧
        s.calls.args.length = 2 := ⟨_, rfl, rfl, rfl, rfl⟩
  have hreach : (machine Unit).Reachable s := Machine.Reachable.run (.init rfl) hs
  refine ⟨s, hs, (released_iff hreach).mpr ?_⟩
  rintro ⟨n, handle, len, h⟩
  match n with
  | 0 => simp [hrx] at h
  | 1 => simp [htx] at h
  | n + 2 =>
    obtain ⟨y, hy⟩ := (reachable_inv hreach).exists_arg h
    have hlt : n + 2 < s.calls.args.length := (List.getElem?_eq_some_iff.mp hy).1
    omega

/-- The kernel refuses to send the reply. -/
theorem not_released : ¬ ∀ s : Traffic Unit, (machine Unit).Reachable s → Released s := by
  intro h
  obtain ⟨s, hs, htx, htotal, hreturned⟩ :
      ∃ s, (machine Unit).run start (demoReply (demoKernel (.error ()))) = some s ∧
        s.calls.trace 1 = [.called (.getTxBuffer 60) (.ok (0, ⟨0, 1⟩)),
          .called (.sendTxBuffer ⟨0, 1⟩ 60) (.error ()), .returned (.error .exhausted)] ∧
        s.calls.total (isAccepted ⟨0, 1⟩) + s.calls.total (isFreed ⟨0, 1⟩) = 0 ∧
        s.calls.returned 1 = true := ⟨_, rfl, rfl, rfl, rfl⟩
  have hreach : (machine Unit).Reachable s := Machine.Reachable.run (.init rfl) hs
  have hgot : .called (.getTxBuffer 60) (.ok (0, ⟨0, 1⟩)) ∈ s.calls.trace 1 :=
    htx ▸ List.mem_cons_self
  have hsettled := (h s hreach).tx 1 60 0 ⟨0, 1⟩ hgot
  rw [htotal, hreturned] at hsettled
  cases hsettled

end Traffic

end RustyHermit.Net
