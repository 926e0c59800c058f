import RustyHermit.Benches.Bandwidth
import RustyHermit.Benches.Latency
import RustyHermit.Net.Rest

/-!
# The network benchmarks on sockets

The two benchmarks, each program with a socket of its own: every write and read is a call of
`sys_tcp_stream_write` or `sys_tcp_stream_read`, and TCP carries the segments. What was shown
for a stream holds here, with the buffers of both sides for its capacity.

The programs are those of `run.sh`, with `--nonblocking 0`: `connection::setup` then leaves the
stream as it is. Otherwise it calls `set_nonblocking`, which is refused as nothing implements it,
and its `expect` panics before the first byte.

- `Latency.echoed_on_sockets`, `Latency.finished_on_sockets`: the client gets back what it sent,
  and compatible programs come to a halt only when both have finished.
- `Latency.gets_through_on_sockets`: they do finish, if both programs go on and TCP brings what
  there is to bring.
- `Latency.lost_of_failed_on_sockets`: a call fails only without a connection.
- `Bandwidth.delivered_on_sockets`, `Bandwidth.all_read_on_sockets`: what the server has read is
  what the client has sent, and all of it where they come to a halt.
- `Bandwidth.all_arrives_on_sockets`: and all of it is read at some time.
- `Bandwidth.read_exact_panics`: the server may panic between `accept` and the end of the
  handshake, where a read returns `Ok(0)`, and not later.
-/

namespace RustyHermit.Benches

open RustyHermit.Smoltcp RustyHermit.Net RustyHermit.Net.Hosted Duplex

variable {W : Type} {tcp : SmolTcp W} [tcp.Documented]

/-! ## `rust-tcp-latency` -/

namespace Latency

variable {nRounds nRounds' nBytes' : Nat} {wbuf : List UInt8}

/-- A read of nothing. -/
theorem got_nil (i pos : Nat) (buf : List UInt8) :
    Peer.got ⟨i, .receive pos, buf⟩ pos [] = ⟨i, .receive pos, buf⟩ := by
  simp only [Peer.got, fill, List.append_nil, List.length_nil, Nat.add_zero, List.take_append_drop]

theorem client_steady (nRounds : Nat) (wbuf : List UInt8) (s : Peer) :
    SteadyAt false s (client nRounds wbuf s) := by
  obtain ⟨i, stage, buf⟩ := s
  cases stage with
  | head =>
    simp only [client]
    split
    · trivial
    · split <;> trivial
  | send pos =>
    simp only [client]
    split
    · rfl
    · trivial
  | receive pos =>
    simp only [client]
    split
    · exact ⟨rfl, fun _ => got_nil i pos buf⟩
    · split <;> trivial
  | done | panicked | overflowed => trivial

theorem server_steady (nRounds nBytes : Nat) (s : Peer) :
    SteadyAt false s (server nRounds nBytes s) := by
  obtain ⟨i, stage, buf⟩ := s
  cases stage with
  | head =>
    simp only [server]
    split
    · trivial
    · split <;> trivial
  | receive pos =>
    simp only [server]
    split
    · exact ⟨rfl, fun _ => got_nil i pos buf⟩
    · trivial
  | send pos =>
    simp only [server]
    split
    · rfl
    · trivial
  | done | panicked | overflowed => trivial

/-! ### On sockets -/

def clientProgram (nRounds : Nat) (wbuf : List UInt8) : Program Peer where
  op := client nRounds wbuf
  start := .start wbuf.length
  exact := false
  steady := client_steady nRounds wbuf

def serverProgram (nRounds nBytes : Nat) : Program Peer where
  op := server nRounds nBytes
  start := .start nBytes
  exact := false
  steady := server_steady nRounds nBytes

/-- The benchmark on two sockets. -/
def onSockets (tcp : SmolTcp W) (nRounds : Nat) (wbuf : List UInt8) (nRounds' nBytes' : Nat) :
    Machine (Hosted tcp Peer Peer) (Hosted.Label W) :=
  Hosted.machine tcp (clientProgram nRounds wbuf) (serverProgram nRounds' nBytes')

variable {s : Hosted tcp Peer Peer}

/-- **Echo** on sockets, in every run. -/
theorem echoed_on_sockets
    (h : (onSockets tcp nRounds wbuf nRounds' nBytes').ReachableBy Hosted.ok s) :
    ∃ t, s.Shows t ∧ Echoed wbuf t := by
  obtain ⟨t, ht, hshows⟩ := Hosted.Reachable.shows h
  exact ⟨t, hshows, .of_spec (reachable_spec ht)⟩

/-- A message of two bytes, which comes in two segments and is answered in one. -/
def roundOnSockets : List (Hosted.Label Unit) :=
  connecting ++ [.left .goto, .left .call, .left (.poll () 0), .left .goto, .left .call,
    .right .goto, .right .call, .right (.segment (fromRemote .none true 0 [7])),
    .right (.poll () 0), .right .call, .right (.segment (fromRemote .none true 0 [8])),
    .right (.poll () 0), .right .goto, .right .call, .right (.poll () 0),
    .left (.segment (fromRemote .none true 2 [7, 8])), .left (.poll () 0)]

theorem echoed_on_sockets_round : ∃ s,
    runOnSockets (clientProgram 50 [7, 8]) (serverProgram 50 2) roundOnSockets = some s ∧
      s.left.prog = ⟨0, .receive 2, [7, 8]⟩ ∧ ∃ t, s.Shows t ∧ Echoed [7, 8] t := by
  obtain ⟨s, hrun, hleft⟩ : ∃ s,
      runOnSockets (clientProgram 50 [7, 8]) (serverProgram 50 2) roundOnSockets = some s ∧
        s.left.prog = ⟨0, .receive 2, [7, 8]⟩ :=
    ⟨_, rfl, rfl⟩
  exact ⟨s, hrun, hleft, echoed_on_sockets (reachable_of_run hrun)⟩

/-- **Compatible programs with a connection come to a halt only when both have finished.** -/
theorem finished_on_sockets [Nonempty W]
    (hcompat : Compatible nRounds wbuf.length nRounds' nBytes' (65535 + 65535) (65535 + 65535))
    (h : (onSockets tcp nRounds wbuf nRounds' nBytes').ReachableBy Hosted.ok s)
    (hleft : s.left.conn.stage = .handed) (hright : s.right.conn.stage = .handed)
    (hhalted : s.Halted (clientProgram nRounds wbuf) (serverProgram nRounds' nBytes'))
    (hreset : s.left.conn.history.reset = false) (hreset' : s.right.conn.history.reset = false) :
    s.left.prog.stage = .done ∧ s.right.prog.stage = .done := by
  obtain ⟨t, ht, hshows⟩ := Hosted.Reachable.shows h
  obtain ⟨hlost, hlost'⟩ := Hosted.Reachable.lost h
  have hstuck := Hosted.stuck_of_halted h (Host.runs_of_lost hleft hreset (hlost rfl))
    (Host.runs_of_lost hright hreset' (hlost' rfl)) hhalted hreset hreset' hshows
  have hfinished := finished_of_stuck (by omega) (by omega) hcompat ht hstuck
  rw [← hshows.left, ← hshows.right]
  exact hfinished

/-- A message of one byte, its answer, and the acknowledgement of that. -/
def echoOnSockets : List (Hosted.Label Unit) :=
  [.left .goto, .left .call, .left (.poll () 0), .left .goto, .left .call,
    .right .goto, .right .call, .right (.segment (fromRemote .none true 0 [7])),
    .right (.poll () 0), .right .goto, .right .call, .right (.poll () 0), .right .goto,
    .left (.segment (fromRemote .none true 1 [7])), .left (.poll () 0), .left .goto,
    .right (.segment (fromRemote .none true 1 []))]

/-- All rounds of two programs with `--n-rounds 50`: no client tracks its progress with fewer. -/
def fiftyOnSockets : List (Hosted.Label Unit) :=
  connecting ++ (List.replicate (50 * 2) echoOnSockets).flatten ++ [.left .goto, .right .goto]

/-- Done, with nothing left in its socket. -/
def OverAndDrained (s : Host (reference Unit) Peer) : Prop :=
  s.Runs ∧ s.prog.stage = .done ∧ (s.conn.calls ()).isNone = true ∧
    s.conn.view.state = .established ∧ s.conn.view.tx = [] ∧ s.conn.history.reset = false

instance (s : Host (reference Unit) Peer) : Decidable (OverAndDrained s) :=
  inferInstanceAs (Decidable (_ ∧ _))

theorem OverAndDrained.drained {P : Program Peer} {s : Host (reference Unit) Peer}
    (h : OverAndDrained s) (hstop : s.prog.stage = .done → P.op s.prog = .stop) : Drained P s := by
  obtain ⟨hruns, hdone, hcalls, hstate, htx, hreset⟩ := h
  exact ⟨hruns, hstop hdone, Option.isNone_iff_eq_none.mp hcalls, hstate, htx, hreset⟩

theorem fifty_drained : ∃ s,
    runOnSockets (clientProgram 50 [7]) (serverProgram 50 1) fiftyOnSockets = some s ∧
      s.left.conn.history.delivered = List.replicate 100 7 ∧
      Drained (clientProgram 50 [7]) s.left ∧ Drained (serverProgram 50 1) s.right ∧
      s.right.conn.history.received = s.left.conn.history.accepted ∧
      s.left.conn.history.received = s.right.conn.history.accepted := by
  have hall : (runOnSockets (clientProgram 50 [7]) (serverProgram 50 1) fiftyOnSockets).any
      (fun s => decide (s.left.conn.history.delivered = List.replicate 100 7 ∧
        OverAndDrained s.left ∧ OverAndDrained s.right ∧
        s.right.conn.history.received = s.left.conn.history.accepted ∧
        s.left.conn.history.received = s.right.conn.history.accepted)) = true := by
    decide +kernel
  obtain ⟨s, hrun, hs⟩ := (Option.any_eq_true _ _).mp hall
  obtain ⟨hdelivered, hleft, hright, hforth, hback⟩ := of_decide_eq_true hs
  refine ⟨s, hrun, hdelivered, hleft.drained fun hdone => ?_, hright.drained fun hdone => ?_,
    hforth, hback⟩
  · simp only [clientProgram, client, hdone]
  · simp only [serverProgram, server, hdone]

theorem fifty_compatible :
    Compatible 50 [(7 : UInt8)].length 50 1 (65535 + 65535) (65535 + 65535) where
  rounds := by decide
  rounds' := by decide
  tracked := .inr (by decide)
  sameData := rfl
  divides _ := Nat.dvd_refl 1
  fits _ := by decide

theorem finished_on_sockets_fifty : ∃ s,
    runOnSockets (clientProgram 50 [7]) (serverProgram 50 1) fiftyOnSockets = some s ∧
      s.left.conn.history.delivered = List.replicate 100 7 ∧
      s.left.prog.stage = .done ∧ s.right.prog.stage = .done := by
  obtain ⟨s, hrun, hdelivered, hleft, hright, hforth, hback⟩ := fifty_drained
  exact ⟨s, hrun, hdelivered, finished_on_sockets fifty_compatible (reachable_of_run hrun)
    hleft.runs.2 hright.runs.2 (hleft.halted hright hforth hback) hleft.reset hright.reset⟩

/-- **A call of theirs fails only without a connection**: it is `connect` or `accept`, or there
was a reset. -/
theorem lost_of_failed_on_sockets
    (h : (onSockets tcp nRounds wbuf nRounds' nBytes').ReachableBy Hosted.ok s) :
    (s.left.failed = true → s.left.Lost) ∧ (s.right.failed = true → s.right.Lost) := by
  obtain ⟨hlost, hlost'⟩ := Hosted.Reachable.lost h
  exact ⟨hlost rfl, hlost' rfl⟩

/-- A reset, and then the first write. -/
def resetOnSockets : List (Hosted.Label Unit) :=
  connecting ++ [.left .goto, .left (.segment (fromRemote .rst true 0 [])), .left .call,
    .left (.poll () 0)]

theorem lost_of_failed_on_sockets_reset : ∃ s,
    runOnSockets (clientProgram 50 [7]) (serverProgram 50 1) resetOnSockets = some s ∧
      s.left.failed = true ∧ s.left.Lost := by
  obtain ⟨s, hrun, hfailed⟩ : ∃ s,
      runOnSockets (clientProgram 50 [7]) (serverProgram 50 1) resetOnSockets = some s ∧
        s.left.failed = true :=
    ⟨_, rfl, rfl⟩
  exact ⟨s, hrun, hfailed, (lost_of_failed_on_sockets (reachable_of_run hrun)).1 hfailed⟩

/-- **The benchmark finishes**: whatever the order of events, if both programs go on and TCP brings
what there is to bring, then compatible programs that have got a connection finish, if it is not
reset. -/
theorem gets_through_on_sockets {p : (onSockets tcp nRounds wbuf nRounds' nBytes').Path}
    (hfair : Fair p)
    (hcompat : Compatible nRounds wbuf.length nRounds' nBytes' (65535 + 65535) (65535 + 65535))
    {n₀ : Nat} (hleft : (p.state n₀).left.conn.stage = .handed)
    (hright : (p.state n₀).right.conn.stage = .handed)
    (hreset : ∀ n, (p.state n).left.conn.history.reset = false ∧
      (p.state n).right.conn.history.reset = false) :
    ∃ N, ∀ n, N ≤ n → (p.state n).left.prog.stage = .done ∧
      (p.state n).right.prog.stage = .done := by
  have hlost : ∀ n, ((p.state n).left.failed = true → (p.state n).left.Lost) ∧
      ((p.state n).right.failed = true → (p.state n).right.Lost) := by
    intro n
    obtain ⟨hlost, hlost'⟩ := Hosted.Reachable.lost (p.reachableBy hfair.ok n)
    exact ⟨hlost rfl, hlost' rfl⟩
  obtain ⟨N, t, -, ht, hshows, hstuck⟩ := hfair.comes_to_rest (client_keeps nRounds wbuf)
    (server_keeps nRounds' nBytes') (client_bounds nRounds wbuf) (server_bounds nRounds' nBytes')
    (fun _ => not_writes_of_stop hcompat)
    (connected_of_handed hleft hright hreset fun n _ => hlost n)
  obtain ⟨hdone, hdone'⟩ := finished_of_stuck (by omega) (by omega) hcompat ht hstuck
  refine ⟨N, fun n hn => ?_⟩
  rw [← (hshows n hn).left, ← (hshows n hn).right]
  exact ⟨hdone, hdone'⟩

theorem gets_through_on_sockets_fifty : ∃ s,
    ∃ h : runOnSockets (clientProgram 50 [7]) (serverProgram 50 1) fiftyOnSockets = some s,
    s.left.conn.history.delivered = List.replicate 100 7 ∧
    ∃ N, ∀ n, N ≤ n → ((pathOfRun h).state n).left.prog.stage = .done ∧
      ((pathOfRun h).state n).right.prog.stage = .done := by
  obtain ⟨s, hrun, hdelivered, hleft, hright, hforth, hback⟩ := fifty_drained
  obtain ⟨n₀, hhanded, hhanded'⟩ := handed_pathOfRun hrun hleft hright
  exact ⟨s, hrun, hdelivered,
    gets_through_on_sockets (fair_pathOfRun hrun hleft hright hforth hback) fifty_compatible
      hhanded hhanded'
      fun n => (pathOfRun_sound hrun hleft.reset hright.reset hright.runs.1 n).1⟩

end Latency

/-! ## `rust-tcp-bw` -/

namespace Bandwidth

variable {nRounds nRounds' nBytes' : Nat} {buf : List UInt8}

theorem client_steady (nRounds : Nat) (buf : List UInt8) (s : Client) :
    SteadyAt false s (client nRounds buf s) := by
  obtain ⟨i, stage⟩ := s
  cases stage with
  | head =>
    simp only [client]
    split <;> trivial
  | write pos =>
    simp only [client]
    split
    · rfl
    · trivial
  | done => trivial

theorem server_steady (nRounds : Nat) (s : Server) :
    SteadyAt true s (server false nRounds s) := by
  obtain ⟨i, stage, buf⟩ := s
  cases stage with
  | head =>
    simp only [server]
    split <;> trivial
  | readExact pos =>
    simp only [server]
    split
    · exact ⟨rfl, fun h => by cases h⟩
    · trivial
  | done | panicked => trivial

/-! ### On sockets -/

def clientProgram (nRounds : Nat) (buf : List UInt8) : Program Client where
  op := client nRounds buf
  start := .start
  exact := false
  steady := client_steady nRounds buf

def serverProgram (nRounds nBytes : Nat) : Program Server where
  op := server false nRounds
  start := .start nBytes
  exact := true
  steady := server_steady nRounds

/-- The benchmark on two sockets. -/
def onSockets (tcp : SmolTcp W) (nRounds : Nat) (buf : List UInt8) (nRounds' nBytes' : Nat) :
    Machine (Hosted tcp Client Server) (Hosted.Label W) :=
  Hosted.machine tcp (clientProgram nRounds buf) (serverProgram nRounds' nBytes')

variable {s s' : Hosted tcp Client Server}

/-- **Delivery** on sockets, in every run. -/
theorem delivered_on_sockets
    (h : (onSockets tcp nRounds buf nRounds' nBytes').ReachableBy Hosted.ok s) :
    ∃ t, s.Shows t ∧ Delivered nRounds buf nBytes' t := by
  obtain ⟨t, ht, hshows⟩ := Hosted.Reachable.shows h
  exact ⟨t, hshows, .of_spec (reachable_spec ht)⟩

/-- A round of one byte, which the server has read when the client is done. -/
def roundOnSockets : List (Hosted.Label Unit) :=
  connecting ++ [.left .goto, .left .call, .left (.poll () 0), .left .goto, .left .goto,
    .right .goto, .right .call, .right (.segment (fromRemote .none true 0 [7])),
    .right (.poll () 0), .right .goto, .right .goto,
    .left (.segment (fromRemote .none true 1 []))]

theorem round_drained : ∃ s,
    runOnSockets (clientProgram 1 [7]) (serverProgram 1 1) roundOnSockets = some s ∧
      Drained (clientProgram 1 [7]) s.left ∧ Drained (serverProgram 1 1) s.right ∧
      s.right.conn.history.received = s.left.conn.history.accepted ∧
      s.left.conn.history.received = s.right.conn.history.accepted :=
  ⟨_, rfl, ⟨⟨rfl, rfl⟩, rfl, rfl, rfl, rfl, rfl⟩, ⟨⟨rfl, rfl⟩, rfl, rfl, rfl, rfl, rfl⟩, rfl, rfl⟩

theorem delivered_on_sockets_round : ∃ s,
    runOnSockets (clientProgram 1 [7]) (serverProgram 1 1) roundOnSockets = some s ∧
      s.right.conn.history.delivered = [7] ∧ ∃ t, s.Shows t ∧ Delivered 1 [7] 1 t := by
  obtain ⟨s, hrun, hdelivered⟩ : ∃ s,
      runOnSockets (clientProgram 1 [7]) (serverProgram 1 1) roundOnSockets = some s ∧
        s.right.conn.history.delivered = [7] :=
    ⟨_, rfl, rfl⟩
  exact ⟨s, hrun, hdelivered, delivered_on_sockets (reachable_of_run hrun)⟩

/-- **With the same amount of data on both sides** programs with a connection come to a halt only
when all is sent and read, or when the server has panicked. -/
theorem all_read_on_sockets [Nonempty W] (hdata : nRounds * buf.length = nRounds' * nBytes')
    (h : (onSockets tcp nRounds buf nRounds' nBytes').ReachableBy Hosted.ok s)
    (hleft : s.left.conn.stage = .handed) (hright : s.right.conn.stage = .handed)
    (hhalted : s.Halted (clientProgram nRounds buf) (serverProgram nRounds' nBytes'))
    (hreset : s.left.conn.history.reset = false) (hreset' : s.right.conn.history.reset = false) :
    s.right.failed = true ∨ s.left.prog.stage = .done ∧ s.right.prog.stage = .done ∧
      s.right.conn.history.delivered = s.left.conn.history.accepted := by
  refine (Bool.eq_false_or_eq_true s.right.failed).imp_right fun hruns => ?_
  obtain ⟨t, ht, hshows⟩ := Hosted.Reachable.shows h
  have hlost := (Hosted.Reachable.lost h).1 rfl
  have hstuck := Hosted.stuck_of_halted h (Host.runs_of_lost hleft hreset hlost) ⟨hruns, hright⟩
    hhalted hreset hreset' hshows
  have hfinished := finished_of_stuck (by omega) (.of_eq hdata) (fun h => by cases h) ht hstuck
  rw [← hshows.left, ← hshows.right, ← hshows.forth.read, ← hshows.forth.written]
  exact ⟨hfinished.1, hfinished.2, read_eq_of_finished hdata ht hfinished⟩

theorem all_read_on_sockets_round : ∃ s,
    runOnSockets (clientProgram 1 [7]) (serverProgram 1 1) roundOnSockets = some s ∧
      s.left.prog.stage = .done ∧ s.right.prog.stage = .done ∧
      s.right.conn.history.delivered = s.left.conn.history.accepted := by
  obtain ⟨s, hrun, hleft, hright, hforth, hback⟩ := round_drained
  have hread := all_read_on_sockets rfl (reachable_of_run hrun) hleft.runs.2 hright.runs.2
    (hleft.halted hright hforth hback) hleft.reset hright.reset
  refine ⟨s, hrun, hread.resolve_left fun hfailed => ?_⟩
  cases hright.runs.1.symm.trans hfailed

/-- **All arrives**: if both programs go on and TCP brings what there is to bring, then with the
same amount of data on both sides the client sends all of it and the server reads all of it,
unless the server panics or the connection is reset. -/
theorem all_arrives_on_sockets {p : (onSockets tcp nRounds buf nRounds' nBytes').Path}
    (hfair : Fair p) (hdata : nRounds * buf.length = nRounds' * nBytes') {n₀ : Nat}
    (hleft : (p.state n₀).left.conn.stage = .handed)
    (hright : (p.state n₀).right.conn.stage = .handed)
    (hreset : ∀ n, (p.state n).left.conn.history.reset = false ∧
      (p.state n).right.conn.history.reset = false)
    (hruns : ∀ n, (p.state n).right.failed = false) :
    ∃ N, ∀ n, N ≤ n → (p.state n).left.prog.stage = .done ∧
      (p.state n).right.prog.stage = .done ∧
      (p.state n).right.conn.history.delivered = (p.state n).left.conn.history.accepted := by
  have hlost : ∀ n, ((p.state n).left.failed = true → (p.state n).left.Lost) ∧
      ((p.state n).right.failed = true → (p.state n).right.Lost) := fun n =>
    ⟨(Hosted.Reachable.lost (p.reachableBy hfair.ok n)).1 rfl, fun hfailed => by
      cases (hruns n).symm.trans hfailed⟩
  obtain ⟨N, t, -, ht, hshows, hstuck⟩ := hfair.comes_to_rest (client_keeps nRounds buf)
    (server_keeps false nRounds' nBytes') (client_bounds nRounds buf)
    (server_bounds false nRounds' nBytes')
    (fun _ ht => ⟨not_writes_of_stop hdata (fun h => by cases h) ht, fun _ => server_not_writes _⟩)
    (connected_of_handed hleft hright hreset fun n _ => hlost n)
  have hfinished := finished_of_stuck (by omega) (.of_eq hdata) (fun h => by cases h) ht hstuck
  refine ⟨N, fun n hn => ?_⟩
  obtain ⟨hleft', hright', hforth, -⟩ := hshows n hn
  rw [← hleft', ← hright', ← hforth.read, ← hforth.written]
  exact ⟨hfinished.1, hfinished.2, read_eq_of_finished hdata ht hfinished⟩

theorem all_arrives_on_sockets_round : ∃ s,
    ∃ h : runOnSockets (clientProgram 1 [7]) (serverProgram 1 1) roundOnSockets = some s,
    ∃ N, ∀ n, N ≤ n → ((pathOfRun h).state n).left.prog.stage = .done ∧
      ((pathOfRun h).state n).right.prog.stage = .done ∧
      ((pathOfRun h).state n).right.conn.history.delivered =
        ((pathOfRun h).state n).left.conn.history.accepted := by
  obtain ⟨s, hrun, hleft, hright, hforth, hback⟩ := round_drained
  obtain ⟨n₀, hhanded, hhanded'⟩ := handed_pathOfRun hrun hleft hright
  have hsound := pathOfRun_sound hrun hleft.reset hright.reset hright.runs.1
  exact ⟨s, hrun, all_arrives_on_sockets (fair_pathOfRun hrun hleft hright hforth hback) rfl
    hhanded hhanded' (fun n => (hsound n).1) fun n => (hsound n).2⟩

/-- Where a server is that reads. -/
theorem stage_of_read {p : Server} {room : Nat} {got : List UInt8 → Server}
    {wouldBlock : Option Server} (h : server false nRounds p = .read room got wouldBlock) :
    ∃ pos, p.stage = .readExact pos ∧ pos < p.buf.length ∧ room = p.buf.length - pos := by
  obtain ⟨i, stage, buf⟩ := p
  cases stage with
  | head =>
    simp only [server] at h
    split at h <;> cases h
  | readExact pos =>
    simp only [server] at h
    split at h
    · rename_i hpos
      cases h
      exact ⟨pos, rfl, hpos, rfl⟩
    · cases h
  | done | panicked => cases h

/-- Where a client is that has stopped. -/
theorem stage_of_stop {p : Client} (h : client nRounds buf p = .stop) : p.stage = .done := by
  obtain ⟨i, stage⟩ := p
  cases stage with
  | done => rfl
  | head | write =>
    simp only [client] at h
    split at h <;> cases h

/-- **Why the server panics**: it has no connection, or `accept` has returned before the
handshake was over, where a read returns `Ok(0)`. -/
theorem read_exact_panics (hdata : nRounds * buf.length = nRounds' * nBytes')
    (h : (onSockets tcp nRounds buf nRounds' nBytes').ReachableBy Hosted.ok s)
    {l : Host.Label W}
    (hnext : s.next (clientProgram nRounds buf) (serverProgram nRounds' nBytes') (.right l)
      = some s')
    (hruns : s.right.failed = false) (hfailed : s'.right.failed = true) :
    s'.right.Lost ∨ s.right.conn.history.peer = none := by
  have hinv := Hosted.Reachable.inv h
  have hconn : s.right.conn.Inv := hinv.ends.conn true
  obtain ⟨right, hright, rfl⟩ := Option.map_eq_some_iff.mp hnext
  have hmoves := Host.next_cases hright
  rcases hmoves.failed_cause hconn hinv.right hruns hfailed with hdropped | hreset |
    ⟨-, len, cx, localPort, hcalls, hend⟩
  · exact .inl (.inl hdropped)
  · exact .inl (hmoves.lost hconn (.inr hreset))
  · obtain ⟨got, wouldBlock, hop⟩ := hinv.right.fits _ hcalls
    obtain ⟨pos, hstage, hpos, hlen⟩ := stage_of_read hop
    refine .inr ?_
    by_contra hpeer
    -- after the handshake this is the end of all that a client has sent that is done
    obtain ⟨hall, hcloses⟩ := hinv.ends.ends false cx localPort hcalls (by omega)
      (Option.isSome_iff_ne_none.mpr hpeer) hend
    have hdone := stage_of_stop (hinv.left.closing (hinv.left.closes hcloses))
    obtain ⟨t, ht, hshows⟩ := Hosted.Reachable.shows h
    obtain ⟨hclient, hserver⟩ := reachable_spec ht
    have hsent := hclient.length_out
    have hround := hclient.round
    have hread := hserver.length_inp
    have hround' := hserver.round
    have hlength := hserver.length_buf
    rw [hshows.left, hdone] at hsent hround
    rw [hshows.right, hstage] at hread hround'
    rw [hshows.right] at hlength
    have hbytes := hread ServerStage.noConfusion
    simp only [ClientStage.written, ClientStage.InRound, ServerStage.filled,
      ServerStage.InRound] at hsent hround hbytes hround'
    have hmore : (s.right.prog.i + 1) * nBytes' ≤ nRounds' * nBytes' :=
      Nat.mul_le_mul_right _ hround'
    have hsame : t.forth.read = t.forth.written := by
      rw [hshows.forth.read, hshows.forth.written]
      exact hall
    rw [hround] at hsent
    rw [hsame, hsent, hdata] at hbytes
    rw [Nat.succ_mul] at hmore
    omega

/-- A server that panics and is not lost: `accept` has returned before the handshake is over. -/
theorem read_exact_panics_early : ∃ s s',
    runOnSockets (clientProgram 1 [7]) (serverProgram 1 1)
      (accepting ++ [.right .goto, .right .call]) = some s ∧
      s.next (clientProgram 1 [7]) (serverProgram 1 1) (.right (.poll () 0)) = some s' ∧
      ¬ s'.right.Lost ∧ (s'.right.Lost ∨ s.right.conn.history.peer = none) := by
  obtain ⟨s, s', hrun, hnext, hruns, hfailed, hstage, hreset⟩ : ∃ s s',
      runOnSockets (clientProgram 1 [7]) (serverProgram 1 1)
        (accepting ++ [.right .goto, .right .call]) = some s ∧
      s.next (clientProgram 1 [7]) (serverProgram 1 1) (.right (.poll () 0)) = some s' ∧
      s.right.failed = false ∧ s'.right.failed = true ∧ s'.right.conn.stage = .handed ∧
      s'.right.conn.history.reset = false :=
    ⟨_, _, rfl, rfl, rfl, rfl, rfl, rfl⟩
  refine ⟨s, s', hrun, hnext, ?_, read_exact_panics rfl (reachable_of_run hrun) hnext hruns hfailed⟩
  rintro (hdropped | hlost)
  · cases hstage.symm.trans hdropped
  · cases hreset.symm.trans hlost

end Bandwidth

end RustyHermit.Benches
