import RustyHermit.Net.Flush

/-!
# Who asks for a poll of the interface

A socket that has been changed may have something to send, so `AsyncSocket::with`
wakes the NIC after every change: the waker slot is empty, and `network_run` is
due. Two places lock `NIC` by hand, change a socket and wake nobody: the last
section of `accept` and `sys_tcp_stream_peer_addr`, which both set the keep-alive
interval.

Here a flag remembers that a socket has been changed since the interface was last
polled. The flag implies an empty slot as long as nobody changes a socket by hand
while the slot is full (`requested_of_not_forgotten`); `peer_addr_forgets` is a
run in which somebody does.
-/

namespace RustyHermit.Net

open RustyHermit.Smoltcp RustyHermit.Executor

/-- The network, and whether it has anything to do. -/
structure Requests {W : Type} (tcp : SmolTcp W) (ι : Type) where
  nic : Nic tcp ι
  /-- ghost: a socket has been changed since the interface was last polled -/
  dirty : Bool

namespace Requests

variable {W : Type} {tcp : SmolTcp W} {ι : Type}

/-- What can happen next. -/
inductive Label (W ι : Type) where
  | nic (l : Nic.Label W ι)
  /-- a thread calls `sys_tcp_stream_peer_addr` on a handle: one critical section -/
  | peerAddr (h : Handle)

/-- The section is the last one of `accept`, which locks `NIC` by hand. -/
def byHand : Future → Bool
  | .acceptPeer => true
  | _ => false

/-- The flag after a step of the network. Every section that gets hold of a socket
counts as a change. -/
def dirtyAfter (s : Requests tcp ι) : Nic.Label W ι → Bool
  | .section i _ =>
    s.dirty || (s.nic.current i).any fun fut => fut.usesWith tcp || byHand fut
  | .sched l _ => s.dirty && !l.pollsInterface
  | _ => s.dirty

variable [DecidableEq ι]

/-- One step. -/
def next (s : Requests tcp ι) : Label W ι → Option (Requests tcp ι)
  | .nic l => (s.nic.next l).map fun nic => { nic, dirty := s.dirtyAfter l }
  | .peerAddr h =>
    if h ∈ s.nic.handed then
      (s.nic.conns h).map fun c =>
        -- the section is the one that ends `accept`
        let socket := (AsyncSocket.acceptPeer tcp c.socket).2
        { nic :=
            { s.nic with conns := Function.update s.nic.conns h (some { c with socket }) }
          dirty := true }
    else none

/-- From the end of `network_init` on; the interface has just been polled. -/
def machine (tcp : SmolTcp W) (ι : Type) [DecidableEq ι] :
    Machine (Requests tcp ι) (Label W ι) where
  init s := (Nic.machine tcp ι).init s.nic ∧ s.dirty = false
  next := next

/-! ## What should hold -/

omit [DecidableEq ι] in
/-- If a socket has been changed, `network_run` has been woken. -/
def Requested (s : Requests tcp ι) : Prop :=
  s.dirty = true → s.nic.sched.waker.waker = none

omit [DecidableEq ι] in
/-- The step changes a socket by hand while `network_run` waits to be woken. -/
def Forgotten (s : Requests tcp ι) (l : Label W ι) : Prop :=
  s.nic.sched.waker.waker ≠ none ∧
    match l with
    | .peerAddr _ => True
    | .nic (.section i _) => (s.nic.current i).any byHand = true
    | .nic _ => False

/-- A step of the network that is not forgotten. -/
theorem requested_nic {s : Requests tcp ι} {l : Nic.Label W ι} {nic : Nic tcp ι}
    (h : s.Requested) (hok : ¬ s.Forgotten (.nic l)) (hstep : Nic.Step s.nic l nic) :
    Requested { nic, dirty := s.dirtyAfter l } := by
  cases hstep with
  | openSocket | call | act | ret => exact h
  | @«section» i cx f c fut driver hf hc hfut hdriver =>
    intro hdirty
    have hcurrent := Nic.current_eq hf hc hfut
    simp only [Nic.sectioned]
    by_cases hwith : fut.usesWith tcp = true
    · rw [if_pos hwith]
      exact Scheduler.withSocket_waker s.nic.sched i
    · rw [if_neg hwith]
      by_contra hslot
      by_cases hhand : byHand fut = true
      · exact hok ⟨hslot, by simp [hcurrent, hhand]⟩
      · refine hslot (h ?_)
        simpa [dirtyAfter, hcurrent, hwith, hhand] using hdirty
  | @sched l events sched hpermits hnext =>
    intro hdirty
    obtain ⟨hold, hpoll⟩ := Bool.and_eq_true_iff.mp hdirty
    have hl : ∀ i, l ≠ .withSocket i := by
      rintro i rfl
      cases hpermits
    show sched.waker.waker = none
    rw [Scheduler.next_waker hl (by simpa using hpoll) hnext]
    exact h hold

/-- A step that is not forgotten. -/
theorem requested_next {s s' : Requests tcp ι} {l : Label W ι} (h : s.Requested)
    (hok : ¬ s.Forgotten l) (hnext : s.next l = some s') : s'.Requested := by
  cases l with
  | nic l =>
    obtain ⟨nic, hnic, rfl⟩ := Option.map_eq_some_iff.mp hnext
    exact requested_nic h hok (Nic.step_of_next hnic)
  | peerAddr h' =>
    obtain ⟨-, hrest⟩ := Option.ite_none_right_eq_some.mp hnext
    obtain ⟨c, -, rfl⟩ := Option.map_eq_some_iff.mp hrest
    intro _
    by_contra hslot
    exact hok ⟨hslot, trivial⟩

/-- **Every change requests a poll** in every run in which nobody changes a socket
by hand while the waker slot is full. -/
theorem requested_of_not_forgotten {s : Requests tcp ι}
    (h : (machine tcp ι).ReachableBy (fun s l => ¬ s.Forgotten l) s) : s.Requested := by
  refine h.invariant (I := Requested) ?_
    fun _ _ _ hreq hok hnext => requested_next hreq hok hnext
  rintro s ⟨-, hclean⟩ hdirty
  rw [hclean] at hdirty
  cases hdirty

/-- The condition leaves out nothing else: a change by hand leaves a full slot
full. -/
theorem not_requested_of_forgotten {s s' : Requests tcp ι} {l : Label W ι}
    (h : s.Forgotten l) (hnext : s.next l = some s') : ¬ s'.Requested := by
  obtain ⟨hslot, hhand⟩ := h
  cases l with
  | peerAddr h' =>
    obtain ⟨-, hrest⟩ := Option.ite_none_right_eq_some.mp hnext
    obtain ⟨c, -, rfl⟩ := Option.map_eq_some_iff.mp hrest
    exact fun hreq => hslot (hreq rfl)
  | nic l =>
    obtain ⟨nic, hnic, rfl⟩ := Option.map_eq_some_iff.mp hnext
    have hstep := Nic.step_of_next hnic
    cases hstep with
    | openSocket | call | act | sched | ret => exact hhand.elim
    | @«section» i cx f c fut driver hf hc hfut hdriver =>
      have hcurrent := Nic.current_eq hf hc hfut
      replace hhand : (s.nic.current i).any byHand = true := hhand
      rw [hcurrent] at hhand
      cases fut with
      | acceptPeer =>
        refine fun hreq => hslot (hreq ?_)
        simp [dirtyAfter, hcurrent, byHand]
      | _ => cases hhand

/-! ## A keep-alive that is not sent -/

/-- `connect`, up to its return: its last section has woken `network_run`. -/
def connected : List (Label Unit Unit) :=
  (Nic.connectAndWrite.take 13).map .nic

/-- A `read` waits, and `network_run` has polled the interface. -/
def readWaits : List (Label Unit Unit) :=
  [.nic (.call () (.streamRead 0 16) ⟨0⟩),
    .nic (.act () (.pollOn (.setPollingMode true))), .nic (.section () ()),
    .nic (.act () (.pollOn (.timeout ⟨0⟩))), .nic (.sched (.pop ()) []),
    .nic (.sched (.start ()) []), .nic (.sched (.networkRun ()) []),
    .nic (.sched (.finish ()) [])]

/-- The end of `network_init`. -/
def networkInit : Requests (reference Unit) Unit :=
  { nic := .networkInit (reference Unit) Unit 49152, dirty := false }

theorem init_networkInit : (machine (reference Unit) Unit).init networkInit :=
  ⟨Nic.init_networkInit 49152, rfl⟩

/-- The flag, and the slot. -/
def observe (s : Requests (reference Unit) Unit) : Bool × Option Task :=
  (s.dirty, s.nic.sched.waker.waker)

/-- Another thread asks for the address of the peer, and nothing happens. -/
theorem peer_addr_forgets :
    ¬ ∀ s : Requests (reference Unit) Unit,
      (machine (reference Unit) Unit).Reachable s → s.Requested := by
  intro h
  have hobserved : ((machine (reference Unit) Unit).run networkInit
      (connected ++ readWaits ++ [.peerAddr 0])).map observe =
        some (true, some .networkRun) := by decide +kernel
  obtain ⟨s, hrun, hs⟩ := Option.map_eq_some_iff.mp hobserved
  have hinit : (machine (reference Unit) Unit).Reachable networkInit :=
    .init init_networkInit
  have hslot := h s (hinit.run hrun) (congrArg Prod.fst hs)
  rw [show s.nic.sched.waker.waker = _ from congrArg Prod.snd hs] at hslot
  cases hslot

/-- With a waker in the slot, no section of `peer_addr` comes. -/
def requestsOnly (s : Requests (reference Unit) Unit) (l : Label Unit Unit) : Bool :=
  s.nic.sched.waker.waker.isNone ||
    match l with
    | .peerAddr _ => false
    | .nic (.section i _) => !(s.nic.current i).any byHand
    | .nic _ => true

theorem not_forgotten {s : Requests (reference Unit) Unit} {l : Label Unit Unit}
    (h : requestsOnly s l = true) : ¬ s.Forgotten l := by
  rintro ⟨hslot, hhand⟩
  have hnone : s.nic.sched.waker.waker.isNone = false := by
    rw [Option.isNone_eq_false_iff, Option.isSome_iff_ne_none]
    exact hslot
  simp only [requestsOnly, hnone, Bool.false_or] at h
  split at h
  · cases h
  · replace hhand : (s.nic.current _).any byHand = true := hhand
    rw [hhand] at h
    cases h
  · rename_i l hl
    cases l with
    | «section» i cx => exact hl i cx rfl
    | _ => exact hhand

/-- Had it asked before the `read`, `network_run` would have been due. -/
theorem peer_addr_requested : ∃ s : Requests (reference Unit) Unit,
    (machine (reference Unit) Unit).run networkInit (connected ++ [.peerAddr 0]) =
        some s ∧
      s.dirty = true ∧ s.Requested := by
  have hinit : (machine (reference Unit) Unit).ReachableBy (fun s l => ¬ s.Forgotten l)
      networkInit := .init init_networkInit
  have hobserved : ((machine (reference Unit) Unit).runBy requestsOnly networkInit
      (connected ++ [.peerAddr 0])).map observe = some (true, none) := by decide +kernel
  obtain ⟨s, hrun, hs⟩ := Option.map_eq_some_iff.mp hobserved
  exact ⟨s, Machine.run_of_runBy hrun, congrArg Prod.fst hs,
    requested_of_not_forgotten (hinit.runBy (fun _ _ => not_forgotten) hrun)⟩

end Requests

end RustyHermit.Net
