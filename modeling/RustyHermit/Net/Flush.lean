import RustyHermit.Net.Nic
import RustyHermit.Smoltcp.Reference

/-!
# What a call has put into a socket when it returns

`connect` queues a SYN, `write` bytes and `close` a FIN; sending them is the work
of the next poll of the interface. The drivers run the executor only after a
`Pending` poll, "when idling on network I/O", so a call that is ready at once
returns with its work still to be done (`write_returns_unpolled`).

`change_polled_or_owed` says what every call leaves behind. The poll that follows
its change has happened or is owed by `network_run`. It has happened when the
future waits for something the peer must answer: in `connect`, and in a `close`
after the peer has closed.
-/

namespace RustyHermit.Net

open RustyHermit.Smoltcp RustyHermit.Executor

namespace Driver

/-- What the driver returns, once that is settled. -/
def outcome : Driver → Option (Except Unit (Except Error Output))
  | .pollOn ⟨_, _, .leave res⟩ | .pollOn ⟨_, _, .ret res⟩ => some res
  | .blockOn ⟨_, _, .ret res⟩ => some res
  | _ => none

/-- The driver is going to return `Ok`. -/
def succeeds (d : Driver) : Prop :=
  ∃ out, d.outcome = some (.ok (.ok out))

theorem succeeds_of_result {d : Driver} {out : Output}
    (h : d.result = some (.ok (.ok out))) : d.succeeds := by
  unfold result at h
  split at h
  case h_3 => cases h
  all_goals exact ⟨out, h⟩

/-- After a poll of its future a driver is going to return `Ok` only if that was
ready with `Ok`. -/
theorem poll_succeeds {d d' : Driver} {p : Poll (Except Error Output)}
    (h : d.poll p = some d') (hd : d'.succeeds) : ∃ out, p = .ready (.ok out) := by
  obtain ⟨out, hout⟩ := hd
  cases d with
  | pollOn call =>
    obtain ⟨call', hcall, rfl⟩ := Option.map_eq_some_iff.mp h
    obtain ⟨loc, hstep, rfl⟩ := PollOn.Call.next_cases hcall
    cases hstep with
    | ready =>
      cases hout
      exact ⟨out, rfl⟩
    | pending => cases hout
  | blockOn call =>
    obtain ⟨call', hcall, rfl⟩ := Option.map_eq_some_iff.mp h
    obtain ⟨loc, hstep, rfl⟩ := BlockOn.Call.next_cases hcall
    cases hstep with
    | ready =>
      cases hout
      exact ⟨out, rfl⟩
    | pending => cases hout

/-- After a critical section a driver is going to return `Ok` only if its future
is ready with `Ok`. -/
theorem after_succeeds {d d' : Driver} {progress : Progress}
    (h : d.after progress = some d') (hd : d'.succeeds) :
    ∃ out, progress = .ready (.ok out) := by
  cases progress with
  | next fut =>
    obtain ⟨hpolling, heq⟩ := Option.ite_none_right_eq_some.mp h
    cases heq
    obtain ⟨out, hout⟩ := hd
    unfold polling at hpolling
    split at hpolling
    case h_3 => cases hpolling
    all_goals cases hout
  | pending =>
    obtain ⟨out, hout⟩ := poll_succeeds h hd
    cases hout
  | ready res =>
    obtain ⟨out, hout⟩ := poll_succeeds h hd
    cases hout
    exact ⟨out, rfl⟩

/-- No other step of a driver settles on `Ok`. -/
theorem next_succeeds {d d' : Driver} {a : Act} (h : d.next a = some d')
    (ha : a.isPoll = false) (hd : d'.succeeds) : d.succeeds := by
  obtain ⟨out, hout⟩ := hd
  unfold next at h
  split at h
  case h_1 call a =>
    obtain ⟨call', hcall, rfl⟩ := Option.map_eq_some_iff.mp h
    obtain ⟨loc, hstep, rfl⟩ := PollOn.Call.next_cases hcall
    obtain ⟨start, timeout, loc₀⟩ := call
    cases hstep with
    | ready | pending => cases ha
    | leave hloc =>
      cases hloc
      exact ⟨out, hout⟩
    | _ => cases hout
  case h_2 call a =>
    obtain ⟨call', hcall, rfl⟩ := Option.map_eq_some_iff.mp h
    obtain ⟨loc, hstep, rfl⟩ := BlockOn.Call.next_cases hcall
    cases hstep with
    | ready | pending => cases ha
    | _ => cases hout
  case h_3 => cases h

end Driver

/-- The call that makes this change waits for the peer to answer it. -/
def Change.awaited : Change → Bool
  | .syn | .fin .closeWait => true
  | _ => false

namespace Nic

variable {W : Type} {tcp : SmolTcp W} {ι : Type}

/-! ## Where a change is -/

/-- Thread `i` waits for the answer to its change, which is still in the
socket. -/
def Awaiting (i : ι) (c : Conn tcp ι) : Change → Prop
  | .syn => c.calls i = some .connectPoll ∧ c.view.state = .synSent
  | .fin _ => c.calls i = some .closeWait ∧ c.view.state = .lastAck
  | .data => False

/-- What is known of a change that thread `i` has made when the interface had
been polled `polls` times. -/
structure Tracked (n : Nic tcp ι) (i : ι) (f : Frame) (change : Change)
    (polls : Nat) : Prop where
  stamped : ∃ p, n.sched.changed i = some p ∧ polls ≤ p
  awaited : change.awaited = true → polls < n.sched.polls ∨
    (¬f.driver.succeeds ∧ ∃ c, n.conns f.handle = some c ∧ Awaiting i c change)

/-- Every change of every call is tracked. -/
def AllTracked (n : Nic tcp ι) : Prop :=
  ∀ i f change polls, n.frames i = some f → f.change = some (change, polls) →
    Tracked n i f change polls

/-- A step that changes nothing that is tracked of this call. -/
theorem Tracked.keep {n n' : Nic tcp ι} {i : ι} {f f' : Frame} {change : Change}
    {polls : Nat} (h : Tracked n i f change polls)
    (hchanged : n'.sched.changed i = n.sched.changed i)
    (hpolls : n.sched.polls ≤ n'.sched.polls) (hhandle : f'.handle = f.handle)
    (hsucceeds : f'.driver.succeeds → f.driver.succeeds)
    (hconn : ∀ c, n.conns f.handle = some c → Awaiting i c change →
      ∃ c', n'.conns f.handle = some c' ∧ Awaiting i c' change) :
    Tracked n' i f' change polls where
  stamped := hchanged ▸ h.stamped
  awaited hawaited := by
    rcases h.awaited hawaited with hlt | ⟨hnot, c, hc, hawaiting⟩
    · exact .inl (Nat.lt_of_lt_of_le hlt hpolls)
    · refine .inr ⟨fun hs => hnot (hsucceeds hs), ?_⟩
      rw [hhandle]
      exact hconn c hc hawaiting

variable [DecidableEq ι]

omit [DecidableEq ι] in
/-- The socket of another thread's step is updated. -/
theorem Awaiting.update {conns : Handle → Option (Conn tcp ι)} {i : ι}
    {change : Change} {h h₀ : Handle} {c₀' : Option (Conn tcp ι)}
    (hstep : ∀ c, conns h₀ = some c → Awaiting i c change →
      ∃ c', c₀' = some c' ∧ Awaiting i c' change)
    (c : Conn tcp ι) (hc : conns h = some c) (hawaiting : Awaiting i c change) :
    ∃ c', Function.update conns h₀ c₀' h = some c' ∧ Awaiting i c' change := by
  by_cases hh : h = h₀
  · subst hh
    rw [Function.update_self]
    exact hstep c hc hawaiting
  · rw [Function.update_of_ne hh]
    exact ⟨c, hc, hawaiting⟩

omit [DecidableEq ι] in
/-- Another thread's call starts, or is dropped. -/
theorem Awaiting.of_calls {i : ι} {c c' : Conn tcp ι} {change : Change}
    (h : Awaiting i c change) (hcalls : c'.calls i = c.calls i)
    (hsocket : c'.socket = c.socket) : Awaiting i c' change := by
  have hview : c'.view = c.view := by
    simp only [Conn.view, hsocket]
  cases change with
  | data => exact h
  | syn | fin => simpa only [Awaiting, hcalls, hview] using h

/-- A socket in `LastAck` stays there while calls on the handle go on. -/
theorem lastAck_step {self : Handle} {v v' : TcpView} {k : History} {fut : Future}
    {progress : Progress} (hst : v.state = .lastAck) (husing : Using k fut)
    (hstep : Future.Step self v fut progress v') : v'.state = .lastAck := by
  cases hstep with
  | connectStart | acceptStart => exact absurd husing.not_opens nofun
  | close =>
    show v.state.close = .lastAck
    rw [hst]
    rfl
  | _ => exact hst

/-- A critical section of another thread. -/
theorem Awaiting.polled [tcp.Documented] {i i₀ : ι} {c : Conn tcp ι} {fut : Future}
    {change : Change} (hinv : c.Inv) (hi₀ : c.calls i₀ = some fut) (hne : i ≠ i₀)
    (cx : W) (localPort : UInt16) (h : Awaiting i c change) :
    Awaiting i (c.polled i₀ fut cx localPort) change := by
  have hcalls : (c.polled i₀ fut cx localPort).calls i = c.calls i :=
    Function.update_of_ne hne ..
  have hstep := c.step_spec fut cx localPort
  cases change with
  | data => exact h
  | syn =>
    -- the thread that connects is alone on its socket
    obtain ⟨hi, -⟩ := h
    rcases hinv.caller hi with ⟨-, -, hsolo⟩ | ⟨-, husing, -⟩
    · rw [hsolo i₀ (Ne.symm hne)] at hi₀
      cases hi₀
    · rcases husing with huses | ⟨hwait, -⟩
      · cases huses
      · cases hwait
  | fin st =>
    obtain ⟨hi, hst⟩ := h
    refine ⟨hcalls.trans hi, ?_⟩
    rcases hinv.caller hi with ⟨-, hopening, -⟩ | ⟨hstage, -, -⟩
    · exact hopening.elim
    · exact lastAck_step hst ((hinv.handed hstage).1 i₀ fut hi₀) hstep

/-- The thread's own next section finds no answer yet. -/
theorem Awaiting.own [tcp.Documented] {i : ι} {c : Conn tcp ι} {fut : Future}
    {change : Change} (hi : c.calls i = some fut) (cx : W) (localPort : UInt16)
    (h : Awaiting i c change) :
    (c.step fut cx localPort).1 = .pending ∧
      Awaiting i (c.polled i fut cx localPort) change := by
  have hstep := c.step_spec fut cx localPort
  have hcalls : (c.polled i fut cx localPort).calls i =
      fut.rest (c.step fut cx localPort).1 := Function.update_self ..
  have hview : (c.polled i fut cx localPort).view =
      tcp.view (c.step fut cx localPort).2 := rfl
  cases change with
  | data => exact h.elim
  | syn =>
    obtain ⟨hfut, hst⟩ := h
    obtain rfl := Option.some.inj (hi.symm.trans hfut)
    rw [Awaiting, hcalls, hview]
    generalize (c.step .connectPoll cx localPort).1 = progress at hstep
    generalize tcp.view (c.step .connectPoll cx localPort).2 = v' at hstep
    cases hstep with
    | connectPending => exact ⟨rfl, rfl, hst⟩
    | connectRefused _ hrefused => simp [hst] at hrefused
    | connected _ _ _ hne _ => exact absurd hst hne
  | fin st =>
    obtain ⟨hfut, hst⟩ := h
    obtain rfl := Option.some.inj (hi.symm.trans hfut)
    rw [Awaiting, hcalls, hview]
    generalize (c.step .closeWait cx localPort).1 = progress at hstep
    generalize tcp.view (c.step .closeWait cx localPort).2 = v' at hstep
    cases hstep with
    | closeWaiting => exact ⟨rfl, rfl, hst⟩
    | closed hended =>
      rw [hst] at hended
      cases hended

/-- A section that makes a change does not finish a call that awaits the
answer. -/
theorem Awaiting.of_change [tcp.Documented] {i : ι} {c : Conn tcp ι} {fut : Future}
    {change : Change} (cx : W) (localPort : UInt16)
    (hchange : changeOf c.view fut (c.step fut cx localPort).1 = some change)
    (hawaited : change.awaited = true) :
    (∃ fut', (c.step fut cx localPort).1 = .next fut') ∧
      Awaiting i (c.polled i fut cx localPort) change := by
  have hstep := c.step_spec fut cx localPort
  have hcalls : (c.polled i fut cx localPort).calls i =
      fut.rest (c.step fut cx localPort).1 := Function.update_self ..
  have hview : (c.polled i fut cx localPort).view =
      tcp.view (c.step fut cx localPort).2 := rfl
  have hgoal : ∀ change, Awaiting i (c.polled i fut cx localPort) change ↔
      match change with
      | .syn => fut.rest (c.step fut cx localPort).1 = some .connectPoll ∧
        (tcp.view (c.step fut cx localPort).2).state = .synSent
      | .fin _ => fut.rest (c.step fut cx localPort).1 = some .closeWait ∧
        (tcp.view (c.step fut cx localPort).2).state = .lastAck
      | .data => False := by
    intro change
    cases change <;> simp only [Awaiting, hcalls, hview]
  rw [hgoal]
  generalize (c.step fut cx localPort).1 = progress at hstep hchange ⊢
  generalize tcp.view (c.step fut cx localPort).2 = v' at hstep ⊢
  cases hstep with
  | connectStart =>
    cases hchange
    exact ⟨⟨_, rfl⟩, rfl, rfl⟩
  | close =>
    simp only [changeOf] at hchange
    split at hchange <;> cases hchange
    case h_1 hst | h_2 hst =>
      -- `FinWait1` is enough for `close` to return
      rw [hst] at hawaited
      cases hawaited
    case h_3 hst =>
      refine ⟨⟨_, rfl⟩, rfl, ?_⟩
      show c.view.state.close = .lastAck
      rw [hst]
      rfl
  | writeBytes | writeEnd =>
    simp only [changeOf] at hchange
    split at hchange <;> cases hchange
    cases hawaited
  | _ => cases hchange

omit [DecidableEq ι] in
/-- A section that makes a change goes through `AsyncSocket::with`. -/
theorem usesWith_of_change {c : Conn tcp ι} {fut : Future} {change : Change} {cx : W}
    {localPort : UInt16}
    (hchange : changeOf c.view fut (c.step fut cx localPort).1 = some change) :
    fut.usesWith tcp = true := by
  cases fut with
  | connect ip port =>
    simp only [Conn.step, Future.step] at hchange
    rw [Future.usesWith]
    split at hchange
    · cases hchange
    · rename_i haddress
      rw [haddress]
      rfl
  | acceptPeer => cases hchange
  | _ => rfl

/-! ## Every step keeps track -/

omit [DecidableEq ι] in
/-- The stamp of a change is not later than the interface's last poll. -/
theorem Tracked.polls_le {n : Nic tcp ι} {i : ι} {f : Frame} {change : Change}
    {polls : Nat} (h : Tracked n i f change polls) (hsched : n.sched.Inv) :
    polls ≤ n.sched.polls := by
  obtain ⟨p, hp, hle⟩ := h.stamped
  exact Nat.le_trans hle (hsched.stamped i p hp).1

/-- What a critical section of thread `i` does to the stamps. -/
theorem sectioned_stamps (n : Nic tcp ι) (i : ι) (f : Frame) (c : Conn tcp ι)
    (fut : Future) (cx : W) (driver : Driver) :
    (n.sectioned i f c fut cx driver).sched.polls = n.sched.polls ∧
    (∀ j, j ≠ i → (n.sectioned i f c fut cx driver).sched.changed j = n.sched.changed j) ∧
    (n.sectioned i f c fut cx driver).sched.changed i =
      if fut.usesWith tcp then some n.sched.polls else n.sched.changed i := by
  obtain ⟨hpolls, hchanged⟩ := n.sched.withSocket_polls i
  simp only [sectioned]
  split
  · rw [hpolls, hchanged]
    exact ⟨rfl, fun j hj => Function.update_of_ne hj .., Function.update_self ..⟩
  · exact ⟨rfl, fun _ _ => rfl, rfl⟩

/-- The thread that executes a critical section. -/
theorem Tracked.sectioned_own [tcp.Documented] {n : Nic tcp ι} {i : ι} {f : Frame}
    {c : Conn tcp ι} {fut : Future} {cx : W} {driver : Driver} (hsched : n.sched.Inv)
    (htracked : ∀ change polls, f.change = some (change, polls) →
      Tracked n i f change polls)
    (hc : n.conns f.handle = some c) (hfut : c.calls i = some fut)
    (hdriver : f.driver.after (c.step fut cx n.localEndpoint).1 = some driver)
    {f' : Frame} (hf' : (n.sectioned i f c fut cx driver).frames i = some f')
    {change : Change} {polls : Nat} (hchange : f'.change = some (change, polls)) :
    Tracked (n.sectioned i f c fut cx driver) i f' change polls := by
  obtain ⟨hpolls, -, hstamp⟩ := sectioned_stamps n i f c fut cx driver
  have hconn : (n.sectioned i f c fut cx driver).conns f.handle =
      some (c.polled i fut cx n.localEndpoint) := Function.update_self ..
  replace hf' : Function.update n.frames i _ i = some f' := hf'
  rw [Function.update_self] at hf'
  cases hf'
  simp only at hchange
  split at hchange
  case h_1 new hnew =>
    -- this section makes the change
    cases hchange
    refine ⟨⟨n.sched.polls, ?_, Nat.le_refl _⟩, fun hawaited => .inr ⟨fun hs => ?_, ?_⟩⟩
    · rw [hstamp, usesWith_of_change hnew, if_pos rfl]
    · obtain ⟨⟨fut', hnext⟩, -⟩ := Awaiting.of_change (i := i) cx _ hnew hawaited
      obtain ⟨out, hout⟩ := Driver.after_succeeds hdriver hs
      rw [hnext] at hout
      cases hout
    · exact ⟨_, hconn, (Awaiting.of_change cx _ hnew hawaited).2⟩
  case h_2 =>
    have hold := htracked change polls hchange
    refine ⟨?_, fun hawaited => ?_⟩
    · rw [hstamp]
      split
      · exact ⟨n.sched.polls, rfl, hold.polls_le hsched⟩
      · exact hold.stamped
    · rcases hold.awaited hawaited with hlt | ⟨-, c', hc', hawaiting⟩
      · exact .inl (Nat.lt_of_lt_of_eq hlt hpolls.symm)
      · obtain rfl : c = c' := Option.some.inj (hc.symm.trans hc')
        obtain ⟨hpending, hawaiting'⟩ := hawaiting.own hfut cx n.localEndpoint
        refine .inr ⟨fun hs => ?_, _, hconn, hawaiting'⟩
        obtain ⟨out, hout⟩ := Driver.after_succeeds hdriver hs
        rw [hpending] at hout
        cases hout

/-- The scheduler makes a step. -/
theorem Tracked.scheduled {n : Nic tcp ι} {i : ι} {f : Frame} {change : Change}
    {polls : Nat} (h : Tracked n i f change polls) (hsched : n.sched.Inv)
    {l : Scheduler.Label ι} {events : List (Handle × Event)} {sched : Scheduler ι}
    (hpermits : n.permits l = true) (hnext : n.sched.next l = some sched) :
    Tracked (n.scheduled l events sched) i f change polls := by
  have hl : ∀ i, l ≠ .withSocket i := by
    rintro i rfl
    cases hpermits
  obtain ⟨hchanged, hle, hlt⟩ := Scheduler.next_polls hl hnext
  cases hpolls : l.pollsInterface with
  | true =>
    -- the poll that comes after the change; what it does to the socket is open
    refine ⟨?_, fun _ => .inl ?_⟩
    · obtain ⟨p, hp, hple⟩ := h.stamped
      exact ⟨p, (congrFun hchanged i).trans hp, hple⟩
    · exact Nat.lt_of_le_of_lt (h.polls_le hsched) (hlt hpolls)
  | false =>
    refine h.keep (congrFun hchanged i) hle rfl id fun c hc hawaiting => ?_
    refine ⟨c, ?_, hawaiting⟩
    simp only [Nic.scheduled, hpolls, Bool.false_eq_true, if_false]
    exact hc

/-- Every step keeps track of every change. -/
theorem allTracked_step [tcp.Documented] {n n' : Nic tcp ι} {l : Label W ι}
    (hconns : ConnsReachable n.conns) (hsched : n.sched.Inv) (h : AllTracked n)
    (hstep : Step n l n') : AllTracked n' := by
  intro i f change polls hf hchange
  cases hstep with
  | @openSocket i₀ call h₀ start fut c₀ hi₀ hh₀ _ =>
    rcases update_cases (f := n.frames) (i := i₀) hf with ⟨-, hf⟩ | ⟨hi, hf⟩
    · -- the thread has just entered the call
      cases hf
      cases hchange
    · refine (h i f change polls hf hchange).keep rfl (Nat.le_refl _) rfl id ?_
      exact Awaiting.update fun c hc => nomatch hh₀.symm.trans hc
  | @call i₀ call h₀ start fut c₀ c₀' hi₀ _ hc₀ hnext =>
    rcases update_cases (f := n.frames) (i := i₀) hf with ⟨-, hf⟩ | ⟨hi, hf⟩
    · -- the thread has just entered the call
      cases hf
      cases hchange
    · refine (h i f change polls hf hchange).keep rfl (Nat.le_refl _) rfl id ?_
      refine Awaiting.update fun c hc hawaiting => ⟨c₀', rfl, ?_⟩
      obtain rfl : c₀ = c := Option.some.inj (hc₀.symm.trans hc)
      obtain ⟨-, hc₀'⟩ := Option.ite_none_right_eq_some.mp hnext
      cases hc₀'
      exact hawaiting.of_calls (Function.update_of_ne hi ..) rfl
  | @«section» i₀ cx f₀ c₀ fut driver hf₀ hc₀ hfut hdriver =>
    rcases update_cases (f := n.frames) (i := i₀) hf with ⟨rfl, -⟩ | ⟨hi, hf⟩
    · exact Tracked.sectioned_own hsched (fun change polls => h i f₀ change polls hf₀) hc₀
        hfut hdriver hf hchange
    · obtain ⟨hpolls, hstamp, -⟩ := sectioned_stamps n i₀ f₀ c₀ fut cx driver
      refine (h i f change polls hf hchange).keep (hstamp i hi) (Nat.le_of_eq hpolls.symm)
        rfl id ?_
      refine Awaiting.update fun c hc hawaiting => ⟨_, rfl, ?_⟩
      obtain rfl : c₀ = c := Option.some.inj (hc₀.symm.trans hc)
      exact hawaiting.polled (Conn.Reachable.inv (hconns _ _ hc₀)) hfut hi cx _
  | @act i₀ a f₀ driver ha hf₀ hdriver =>
    rcases update_cases (f := n.frames) (i := i₀) hf with ⟨rfl, hf'⟩ | ⟨-, hf⟩
    · cases hf'
      exact (h i f₀ change polls hf₀ hchange).keep rfl (Nat.le_refl _) rfl
        (Driver.next_succeeds hdriver ha) fun c hc hawaiting => ⟨c, hc, hawaiting⟩
    · exact (h i f change polls hf hchange).keep rfl (Nat.le_refl _) rfl id
        fun c hc hawaiting => ⟨c, hc, hawaiting⟩
  | @sched l events sched hpermits hnext =>
    exact (h i f change polls hf hchange).scheduled hsched hpermits hnext
  | @ret i₀ f₀ res hf₀ _ =>
    rcases update_cases (f := n.frames) (i := i₀) hf with ⟨-, hf⟩ | ⟨hi, hf⟩
    · cases hf
    · refine (h i f change polls hf hchange).keep rfl (Nat.le_refl _) rfl id ?_
      refine Awaiting.update fun c hc hawaiting => ?_
      rw [hc]
      refine ⟨(c.next (.drop i₀)).getD c, rfl, ?_⟩
      cases hdrop : c.next (.drop i₀) with
      | none => exact hawaiting
      | some c' =>
        obtain ⟨fut, -, rfl⟩ := Option.map_eq_some_iff.mp hdrop
        exact hawaiting.of_calls (Function.update_of_ne hi ..) rfl

/-- **What a call leaves behind**: when it returns `Ok`, the interface has been
polled since its last change, or that poll is owed by `network_run`; and it has
been polled if the change was one the peer had to answer, the SYN of a `connect`
or the FIN of a socket whose peer had closed. -/
theorem change_polled_or_owed [tcp.Documented] {n : Nic tcp ι}
    (h : (machine tcp ι).Reachable n) {i : ι} {f : Frame} (hf : n.frames i = some f)
    {out : Output} (hok : f.driver.result = some (.ok (.ok out))) {change : Change}
    {polls : Nat} (hchange : f.change = some (change, polls)) :
    (polls < n.sched.polls ∨ n.sched.Owed) ∧
    (change.awaited = true → polls < n.sched.polls) := by
  have hsched := Reachable.sched h
  have htracked : AllTracked n := h.invariant_under (I := AllTracked)
    (J := fun n => ConnsReachable n.conns ∧ n.sched.Inv)
    (fun _ hn => ⟨Reachable.conn hn, Reachable.sched hn⟩)
    (fun n hinit i f change polls hf => absurd (hf.symm.trans (hinit.2.1 i)) nofun)
    (fun _ _ _ hinv ht hnext => allTracked_step hinv.1 hinv.2 ht (step_of_next hnext))
  have hthis := htracked i f change polls hf hchange
  constructor
  · obtain ⟨p, hp, hle⟩ := hthis.stamped
    obtain ⟨hle', hempty⟩ := hsched.stamped i p hp
    rcases Nat.lt_or_eq_of_le (Nat.le_trans hle hle') with hlt | heq
    · exact .inl hlt
    · exact .inr (hsched.owed (hempty (Nat.le_antisymm hle' (heq ▸ hle))))
  · intro hawaited
    rcases hthis.awaited hawaited with hlt | ⟨hnot, -⟩
    · exact hlt
    · exact absurd (Driver.succeeds_of_result hok) hnot

/-! ## A write that is not sent -/

/-- `connect`, and then a `write` into an empty buffer. -/
def connectAndWrite : List (Label Unit Unit) :=
  [.openSocket () (.streamConnect remoteHostText 80 none) 0 ⟨0⟩, .section () (),
    .section () (), .act () (.blockOn (.timeout ⟨0⟩)), .act () (.blockOn (.delay (some 0))),
    .sched (.pop ()) [], .sched (.start ()) [], .sched (.networkRun ()) [],
    .sched (.finish ()) [], .sched .nicThread [(0, .segment (fromRemote .syn true 0 []))],
    .act () (.blockOn .runExecutor), .section () (), .ret (),
    .call () (.streamWrite 0 [42]) ⟨0⟩, .act () (.pollOn (.setPollingMode true)),
    .section () (), .act () (.pollOn (.setPollingMode false))]

/-- What the call of thread `()` returns, its last change, the polls so far, and
`QUEUE`. -/
structure Observation where
  out : Option Output
  change : Option (Change × Nat)
  polls : Nat
  queue : List Task
deriving DecidableEq

def observe (n : Nic (reference Unit) Unit) : Observation where
  out := (n.frames ()).bind fun f =>
    match f.driver.result with
    | some (.ok (.ok out)) => some out
    | _ => none
  change := (n.frames ()).bind fun f => f.change
  polls := n.sched.polls
  queue := n.sched.executor.queue

theorem observe_out {n : Nic (reference Unit) Unit} {out : Output}
    (h : (observe n).out = some out) :
    ∃ f, n.frames () = some f ∧ f.driver.result = some (.ok (.ok out)) ∧
      (observe n).change = f.change := by
  obtain ⟨f, hf, hres⟩ := Option.bind_eq_some_iff.mp h
  refine ⟨f, hf, ?_, ?_⟩
  · split at hres <;> cases hres
    assumption
  · show (n.frames ()).bind _ = _
    rw [hf]
    rfl

/-- The write is ready at its first poll and returns `Ok`: the interface has not
been polled since, and `network_run` sits in `QUEUE`. -/
theorem write_returns_unpolled :
    ¬ ∀ (n : Nic (reference Unit) Unit) (f : Frame) (out : Output) (change : Change)
      (polls : Nat), (machine (reference Unit) Unit).Reachable n →
        n.frames () = some f → f.driver.result = some (.ok (.ok out)) →
        f.change = some (change, polls) → polls < n.sched.polls := by
  intro h
  have hobserved : ((machine (reference Unit) Unit).run
      (networkInit (reference Unit) Unit 49152) connectAndWrite).map observe =
        some ⟨some (.count 1), some (.data, 3), 3, [.networkRun]⟩ := by decide +kernel
  obtain ⟨n, hrun, hn⟩ := Option.map_eq_some_iff.mp hobserved
  obtain ⟨f, hf, hres, hchange⟩ := observe_out (congrArg Observation.out hn)
  rw [hn] at hchange
  have hlt := h n f _ _ _ ((reachable_networkInit 49152).run hrun) hf hres hchange.symm
  rw [show n.sched.polls = 3 from congrArg Observation.polls hn] at hlt
  exact absurd hlt (Nat.lt_irrefl 3)

/-- The `connect` of that run returns after its SYN has been sent. -/
theorem connect_returns_polled : ∃ n : Nic (reference Unit) Unit,
    (machine (reference Unit) Unit).run (networkInit (reference Unit) Unit 49152)
      (connectAndWrite.take 12) = some n ∧
      ∃ f polls, n.frames () = some f ∧ f.driver.result = some (.ok (.ok (.handle 0))) ∧
        f.change = some (.syn, polls) ∧ polls < n.sched.polls := by
  have hobserved : ((machine (reference Unit) Unit).run
      (networkInit (reference Unit) Unit 49152) (connectAndWrite.take 12)).map observe =
        some ⟨some (.handle 0), some (.syn, 1), 3, [.networkRun]⟩ := by decide +kernel
  obtain ⟨n, hrun, hn⟩ := Option.map_eq_some_iff.mp hobserved
  obtain ⟨f, hf, hres, hchange⟩ := observe_out (congrArg Observation.out hn)
  rw [hn] at hchange
  exact ⟨n, hrun, f, 1, hf, hres, hchange.symm, (change_polled_or_owed
    ((reachable_networkInit 49152).run hrun) hf hres hchange.symm).2 rfl⟩

end Nic

end RustyHermit.Net
