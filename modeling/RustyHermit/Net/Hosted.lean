import RustyHermit.Net.Stream

/-!
# Programs on sockets

Two programs of `Duplex`, each on one side of a TCP connection. A write of a program is a call
of `sys_tcp_stream_write`, a read one of `sys_tcp_stream_read`: it is polled, section by section,
until it returns, while segments come in between. The programs have one thread each and call no
operation with a timeout.

- `Hosted.Reachable.shows`: whatever the two programs do on sockets, they do on a pure stream
  whose channels hold what the buffers of both sides hold. So what holds of all their runs there
  (`Duplex.machine`) holds here.
- `Host.Moves.failed_cause`: why a call fails.
-/

namespace RustyHermit.Net

open RustyHermit.Smoltcp Duplex

variable {W : Type} {tcp : SmolTcp W} {σ τ : Type}

/-- A call that moves nothing leaves the program at `s`. It does not look for `WouldBlock`:
`set_nonblocking` is not implemented. -/
def SteadyAt (exact : Bool) (s : σ) : Op σ UInt8 → Prop
  | .write _ wrote => wrote 0 = s
  | .read _ got wouldBlock => wouldBlock = none ∧ (exact = false → got [] = s)
  | .goto _ => True
  | .stop => True

/-- A program that tries again what has moved nothing, and where it starts. It ends at a call that
fails. -/
structure Program (σ : Type) where
  op : σ → Op σ UInt8
  start : σ
  /-- it reads with `read_exact` -/
  exact : Bool
  steady : ∀ s, SteadyAt exact s (op s)

namespace Program

variable {P : Program σ} {s : σ}

theorem write_zero {rest : List UInt8} {wrote : Nat → σ} (hop : P.op s = .write rest wrote) :
    wrote 0 = s := by
  have hs := P.steady s
  rw [hop] at hs
  exact hs

theorem read_nil {room : Nat} {got : List UInt8 → σ} {wouldBlock : Option σ}
    (hop : P.op s = .read room got wouldBlock) :
    wouldBlock = none ∧ (P.exact = false → got [] = s) := by
  have hs := P.steady s
  rw [hop] at hs
  exact hs

end Program

/-- A program and its socket. -/
structure Host (tcp : SmolTcp W) (σ : Type) where
  conn : Conn tcp Unit
  prog : σ
  /-- a call has failed: the program has panicked, or it has given up this socket -/
  failed : Bool
  /-- it has called `close_connection` -/
  closing : Bool

namespace Host

/-- What can happen next on one side. -/
inductive Label (W : Type) where
  /-- the program connects or accepts -/
  | setup (fut : Future)
  /-- it does something that does not touch the stream -/
  | goto
  /-- it starts the write or the read that is next -/
  | call
  /-- `close_connection`, when its loops are over -/
  | close
  /-- the next critical section of its call -/
  | poll (cx : W) (localPort : UInt16)
  | segment (g : Segment)
  | expire

/-- The call for an operation. -/
def call : Op σ UInt8 → Option Future
  | .write rest _ => some (.write rest)
  | .read room _ _ => some (.read room)
  | .goto _ => none
  | .stop => none

/-- The program is there and has its stream. -/
def Runs (s : Host tcp σ) : Prop :=
  s.failed = false ∧ s.conn.stage = .handed

instance (s : Host tcp σ) : Decidable s.Runs :=
  inferInstanceAs (Decidable (_ ∧ _))

/-- How a program goes on after a section of its call. There is a `panic!`, an `unwrap` or an
`expect` for an error, after `connect` aside, and `read_exact` turns `Ok(0)` into one. -/
def resume (P : Program σ) (s : Host tcp σ) : Progress → Host tcp σ
  | .ready (.ok (.count n)) =>
    match P.op s.prog with
    | .write _ wrote => { s with prog := wrote n }
    | _ => s
  | .ready (.ok (.bytes bytes)) =>
    match P.op s.prog with
    | .read _ got _ =>
      if P.exact ∧ bytes = [] then { s with failed := true } else { s with prog := got bytes }
    | _ => s
  | .ready (.error _) => { s with failed := true }
  | _ => s

/-- One step. -/
def next (P : Program σ) (s : Host tcp σ) : Label W → Option (Host tcp σ)
  | .setup fut => (s.conn.next (.open () fut)).map fun conn => { s with conn }
  | .goto =>
    if s.Runs then
      match P.op s.prog with
      | .goto prog => some { s with prog }
      | _ => none
    else none
  | .call =>
    if s.Runs then
      (call (P.op s.prog)).bind fun fut =>
        (s.conn.next (.call () fut)).map fun conn => { s with conn }
    else none
  | .close =>
    if s.Runs ∧ s.closing = false then
      match P.op s.prog with
      | .stop => (s.conn.next (.call () .close)).map fun conn => { s with conn, closing := true }
      | _ => none
    else none
  | .poll cx localPort =>
    (s.conn.calls ()).bind fun fut => (s.conn.next (.poll () cx localPort)).map fun conn =>
      { s.resume P (s.conn.step fut cx localPort).1 with conn }
  | .segment g => (s.conn.next (.segment g)).map fun conn => { s with conn }
  | .expire => (s.conn.next .expire).map fun conn => { s with conn }

/-- A program whose socket is not there yet. -/
def new (P : Program σ) (self : Handle) : Host tcp σ where
  conn := .new self
  prog := P.start
  failed := false
  closing := false

/-! ## One program -/

/-- The call that a program is in is the one that it has come to. -/
def Fits (P : Program σ) (s : Host tcp σ) : Future → Prop
  | .write buffer => ∃ wrote, P.op s.prog = .write buffer wrote
  | .read len => ∃ got wouldBlock, P.op s.prog = .read len got wouldBlock
  | .close | .closeWait => s.closing = true
  | _ => s.conn.stage = .opening ()

/-- What the calls of a program are like, and that it closes once. -/
structure Tied (P : Program σ) (s : Host tcp σ) : Prop where
  fits : ∀ fut, s.conn.calls () = some fut → s.Fits P fut
  closing : s.closing = true → P.op s.prog = .stop
  closes : s.conn.history.closes ≠ [] → s.closing = true
  once : s.conn.calls () = some .close → s.conn.history.closes = []

/-- What a step comes to, as the program sees it. -/
inductive Step (P : Program σ) (s s' : Host tcp σ) : Prop where
  | same : s'.prog = s.prog → s'.conn.history.accepted = s.conn.history.accepted →
      s'.conn.history.delivered = s.conn.history.delivered → Step P s s'
  | goto : P.op s.prog = .goto s'.prog → s'.conn = s.conn → Step P s s'
  | wrote {rest : List UInt8} {wrote : Nat → σ} (n : Nat) : P.op s.prog = .write rest wrote →
      s'.prog = wrote n → n ≤ rest.length →
      s'.conn.history.accepted = s.conn.history.accepted ++ rest.take n →
      s'.conn.history.delivered = s.conn.history.delivered → Step P s s'
  | got {room : Nat} {got : List UInt8 → σ} {wouldBlock : Option σ} (bytes : List UInt8) :
      P.op s.prog = .read room got wouldBlock → s'.prog = got bytes → bytes.length ≤ room →
      (bytes = [] → P.exact = false) →
      s'.conn.history.accepted = s.conn.history.accepted →
      s'.conn.history.delivered = s.conn.history.delivered ++ bytes → Step P s s'

/-- What a step can be, with its guard. -/
inductive Moves (P : Program σ) (s : Host tcp σ) : Label W → Host tcp σ → Prop where
  | setup {fut : Future} {conn : Conn tcp Unit} : s.conn.next (.open () fut) = some conn →
      Moves P s (.setup fut) { s with conn }
  | goto {prog : σ} : s.Runs → P.op s.prog = .goto prog → Moves P s .goto { s with prog }
  | call {fut : Future} {conn : Conn tcp Unit} : s.Runs → call (P.op s.prog) = some fut →
      s.conn.next (.call () fut) = some conn → Moves P s .call { s with conn }
  | close {conn : Conn tcp Unit} : s.Runs → s.closing = false → P.op s.prog = .stop →
      s.conn.next (.call () .close) = some conn →
      Moves P s .close { s with conn, closing := true }
  | poll {fut : Future} (cx : W) (localPort : UInt16) : s.conn.calls () = some fut →
      Moves P s (.poll cx localPort)
        { s.resume P (s.conn.step fut cx localPort).1 with
          conn := s.conn.polled () fut cx localPort }
  | segment {conn : Conn tcp Unit} (g : Segment) : s.conn.next (.segment g) = some conn →
      Moves P s (.segment g) { s with conn }
  | expire {conn : Conn tcp Unit} : s.conn.next .expire = some conn →
      Moves P s .expire { s with conn }

variable {P : Program σ}

/-- **Inversion** of a step. -/
theorem next_cases {s s' : Host tcp σ} {l : Label W} (h : s.next P l = some s') :
    s.Moves P l s' := by
  cases l with
  | setup fut =>
    obtain ⟨conn, hconn, rfl⟩ := Option.map_eq_some_iff.mp h
    exact .setup hconn
  | goto =>
    obtain ⟨hruns, h⟩ := Option.ite_none_right_eq_some.mp h
    split at h
    · rename_i prog hop
      cases h
      exact .goto hruns hop
    · cases h
  | call =>
    obtain ⟨hruns, h⟩ := Option.ite_none_right_eq_some.mp h
    obtain ⟨fut, hfut, h⟩ := Option.bind_eq_some_iff.mp h
    obtain ⟨conn, hconn, rfl⟩ := Option.map_eq_some_iff.mp h
    exact .call hruns hfut hconn
  | close =>
    obtain ⟨⟨hruns, hclosing⟩, h⟩ := Option.ite_none_right_eq_some.mp h
    split at h
    · rename_i hop
      obtain ⟨conn, hconn, rfl⟩ := Option.map_eq_some_iff.mp h
      exact .close hruns hclosing hop hconn
    · cases h
  | poll cx localPort =>
    obtain ⟨fut, hfut, h⟩ := Option.bind_eq_some_iff.mp h
    obtain ⟨conn, hconn, rfl⟩ := Option.map_eq_some_iff.mp h
    obtain ⟨fut', hfut', rfl⟩ := Option.map_eq_some_iff.mp hconn
    cases hfut.symm.trans hfut'
    exact .poll cx localPort hfut
  | segment g =>
    cases h
    exact .segment g rfl
  | expire =>
    cases h
    exact .expire rfl

/-- A step of a host is one of its socket, or the socket stays as it is. -/
theorem Moves.conn {s s' : Host tcp σ} {l : Label W} (h : s.Moves P l s') : s'.conn = s.conn ∨
    ∃ cl, s.conn.next cl = some s'.conn ∧ ∀ g, cl = .segment g → l = .segment g := by
  cases h with
  | goto => exact .inl rfl
  | setup hconn | expire hconn => exact .inr ⟨_, hconn, fun g hg => by cases hg⟩
  | call _ _ hconn => exact .inr ⟨_, hconn, fun g hg => by cases hg⟩
  | close _ _ _ hconn => exact .inr ⟨_, hconn, fun g hg => by cases hg⟩
  | segment g hconn => exact .inr ⟨_, hconn, fun g' hg => by cases hg; rfl⟩
  | poll cx localPort hfut =>
    refine .inr ⟨.poll () cx localPort, ?_, fun g hg => by cases hg⟩
    show (s.conn.calls ()).map _ = _
    rw [hfut]
    rfl

/-! ### Its calls -/

theorem resume_closing (P : Program σ) (s : Host tcp σ) (progress : Progress) :
    (s.resume P progress).closing = s.closing := by
  unfold resume
  split
  · split <;> rfl
  · split
    · split <;> rfl
    · rfl
  · rfl
  · rfl

/-- A program that has stopped stays where it is. -/
theorem resume_of_stop {s : Host tcp σ} (h : P.op s.prog = .stop) (progress : Progress) :
    (s.resume P progress).prog = s.prog := by
  unfold resume
  rw [h]
  split <;> rfl

/-- What a section leaves of a call is the same call, or its next section. -/
theorem fits_rest {self : Handle} {v v' : TcpView} {s : Host tcp σ} {fut fut' : Future}
    {progress : Progress} {conn : Conn tcp Unit} (hfits : s.Fits P fut)
    (hstep : Future.Step self v fut progress v') (hrest : fut.rest progress = some fut')
    (hstage : conn.stage = s.conn.stage.after progress) :
    Fits P { s.resume P progress with conn } fut' := by
  cases hstep with
  | connectStart | acceptStart | acceptActive | connectPending | acceptPending =>
    cases hrest
    have hopening : s.conn.stage = .opening () := hfits
    rw [hopening] at hstage
    exact hstage
  | readPending | writePending | closePending | close | closeWaiting =>
    cases hrest
    exact hfits
  | _ => cases hrest

/-- Only `TcpSocket::close` is recorded as such. -/
theorem record_closes {self : Handle} {v v' : TcpView} {k : History} {fut : Future}
    {progress : Progress} (hstep : Future.Step self v fut progress v') :
    (k.record v fut progress).closes = k.closes ∨
      (fut = .close ∧ fut.rest progress = some .closeWait) := by
  cases hstep with
  | close => exact .inr ⟨rfl, rfl⟩
  | _ => exact .inl rfl

theorem not_close_of_rest {self : Handle} {v v' : TcpView} {fut : Future} {progress : Progress}
    (hstep : Future.Step self v fut progress v') (hrest : fut.rest progress = some .close) :
    fut = .close ∧ progress = .pending := by
  cases hstep with
  | closePending => exact ⟨rfl, rfl⟩
  | _ => cases hrest

/-- A program that does something else is in no call. -/
theorem Tied.calls_of_goto {s : Host tcp σ} (h : s.Tied P) (hruns : s.Runs) {prog : σ}
    (hop : P.op s.prog = .goto prog) (fut : Future) : s.conn.calls () ≠ some fut := by
  intro hfut
  have hfits := h.fits fut hfut
  cases fut with
  | write =>
    obtain ⟨_, hwrite⟩ := hfits
    cases hop.symm.trans hwrite
  | read =>
    obtain ⟨_, _, hread⟩ := hfits
    cases hop.symm.trans hread
  | close | closeWait => cases hop.symm.trans (h.closing hfits)
  | _ => cases hruns.2.symm.trans hfits

theorem tied_new (P : Program σ) (self : Handle) : (new P self : Host tcp σ).Tied P :=
  ⟨fun _ h => (by cases h), fun h => (by cases h), fun h => absurd rfl h, fun h => (by cases h)⟩

/-! ### Its steps -/

/-- A read has returned. -/
theorem step_bytes {s : Host tcp σ} {len : Nat} {bytes : List UInt8} {conn : Conn tcp Unit}
    (hfits : s.Fits P (.read len)) (hlen : bytes.length ≤ len)
    (haccepted : conn.history.accepted = s.conn.history.accepted)
    (hdelivered : conn.history.delivered = s.conn.history.delivered ++ bytes) :
    s.Step P { s.resume P (.ready (.ok (.bytes bytes))) with conn } := by
  obtain ⟨got, wouldBlock, hop⟩ := hfits
  simp only [resume, hop]
  by_cases hexact : P.exact = true ∧ bytes = []
  · rw [hexact.2, List.append_nil] at hdelivered
    rw [if_pos hexact]
    exact .same rfl haccepted hdelivered
  · rw [if_neg hexact]
    refine .got bytes hop rfl hlen (fun hnil => ?_) haccepted hdelivered
    exact Bool.eq_false_iff.mpr fun htrue => hexact ⟨htrue, hnil⟩

/-- A write has returned. -/
theorem step_count {s : Host tcp σ} {buffer : List UInt8} {n : Nat} {conn : Conn tcp Unit}
    (hfits : s.Fits P (.write buffer)) (hn : n ≤ buffer.length)
    (haccepted : conn.history.accepted = s.conn.history.accepted ++ buffer.take n)
    (hdelivered : conn.history.delivered = s.conn.history.delivered) :
    s.Step P { s.resume P (.ready (.ok (.count n))) with conn } := by
  obtain ⟨wrote, hop⟩ := hfits
  simp only [resume, hop]
  exact .wrote n hop rfl hn haccepted hdelivered

/-- A section of a call changes nothing, or a write or a read has returned. -/
theorem step_resume {self : Handle} {v v' : TcpView} {fut : Future} {progress : Progress}
    {s : Host tcp σ} (hfits : s.Fits P fut) (hstep : Future.Step self v fut progress v')
    {conn : Conn tcp Unit}
    (haccepted : conn.history.accepted = s.conn.history.accepted ++ fut.wrote progress)
    (hdelivered : conn.history.delivered = s.conn.history.delivered ++ fut.took progress) :
    s.Step P { s.resume P progress with conn } := by
  cases hstep with
  | @readBytes len =>
    exact step_bytes hfits (List.length_take_le _ _) (haccepted.trans (List.append_nil _))
      hdelivered
  | readEnd =>
    exact step_bytes hfits (Nat.zero_le _) (haccepted.trans (List.append_nil _)) hdelivered
  | writeBytes =>
    exact step_count hfits (Nat.min_le_left _ _) haccepted (hdelivered.trans (List.append_nil _))
  | writeEnd =>
    exact step_count hfits (Nat.zero_le _) haccepted (hdelivered.trans (List.append_nil _))
  | _ =>
    exact .same rfl (haccepted.trans (List.append_nil _)) (hdelivered.trans (List.append_nil _))

variable [tcp.Documented]

/-- **What a step comes to.** -/
theorem Moves.step {s s' : Host tcp σ} {l : Label W} (h : s.Moves P l s') (htied : s.Tied P) :
    s.Step P s' := by
  have hconn : ∀ {conn : Conn tcp Unit} {cl : Conn.Label W Unit}, s.conn.next cl = some conn →
      s.conn.wrote cl = [] → s.conn.took cl = [] →
      conn.history.accepted = s.conn.history.accepted ∧
        conn.history.delivered = s.conn.history.delivered := by
    intro conn cl hnext hwrote htook
    have hmoved := Conn.moved_of_next hnext
    exact ⟨by rw [hmoved.accepted, hwrote, List.append_nil],
      by rw [hmoved.delivered, htook, List.append_nil]⟩
  cases h with
  | goto _ hop => exact .goto hop rfl
  | setup hnext | expire hnext =>
    obtain ⟨haccepted, hdelivered⟩ := hconn hnext rfl rfl
    exact .same rfl haccepted hdelivered
  | call _ _ hnext =>
    obtain ⟨haccepted, hdelivered⟩ := hconn hnext rfl rfl
    exact .same rfl haccepted hdelivered
  | close _ _ _ hnext =>
    obtain ⟨haccepted, hdelivered⟩ := hconn hnext rfl rfl
    exact .same rfl haccepted hdelivered
  | segment g hnext =>
    obtain ⟨haccepted, hdelivered⟩ := hconn hnext rfl rfl
    exact .same rfl haccepted hdelivered
  | @poll fut cx localPort hfut =>
    exact step_resume (htied.fits fut hfut) (s.conn.step_spec fut cx localPort)
      (s.conn.history.record_accepted _ _ _) (s.conn.history.record_delivered _ _ _)

/-- A section of its call keeps them tied. -/
theorem Tied.polled {s : Host tcp σ} (h : s.Tied P) {fut : Future}
    (hfut : s.conn.calls () = some fut) (cx : W) (localPort : UInt16) :
    Tied P { s.resume P (s.conn.step fut cx localPort).1 with
      conn := s.conn.polled () fut cx localPort } := by
  have hstep := s.conn.step_spec fut cx localPort
  have hfits := h.fits fut hfut
  have hcloses := record_closes (k := s.conn.history) hstep
  constructor
  · intro fut' hfut'
    exact fits_rest hfits hstep hfut' rfl
  · intro hclosing
    have hbefore : s.closing = true := (resume_closing P s _).symm.trans hclosing
    exact (congrArg P.op (resume_of_stop (h.closing hbefore) _)).trans (h.closing hbefore)
  · intro hne
    refine (resume_closing P s _).trans ?_
    rcases hcloses with hsame | ⟨rfl, -⟩
    · exact h.closes (hsame ▸ hne)
    · exact hfits
  · intro hclose
    obtain ⟨rfl, hpending⟩ := not_close_of_rest hstep hclose
    rcases hcloses with hsame | ⟨-, hrest⟩
    · exact hsame.trans (h.once hfut)
    · cases hclose.symm.trans hrest

/-- **Every step of a program keeps its calls tied to it.** -/
theorem Moves.tied {s s' : Host tcp σ} {l : Label W} (h : s.Moves P l s') (htied : s.Tied P) :
    s'.Tied P := by
  cases h with
  | @setup fut conn hnext =>
    obtain ⟨⟨-, hopens⟩, hconn⟩ := Option.ite_none_right_eq_some.mp hnext
    cases hconn
    refine ⟨fun fut' hfut => ?_, htied.closing, htied.closes, fun hclose => ?_⟩
    · cases hfut
      cases fut <;> first | rfl | cases hopens
    · cases hclose
      cases hopens
  | goto hruns hop =>
    have hnone := htied.calls_of_goto hruns hop
    refine ⟨fun fut hfut => absurd hfut (hnone fut), fun hclosing => ?_, htied.closes,
      fun hclose => absurd hclose (hnone _)⟩
    cases hop.symm.trans (htied.closing hclosing)
  | @call fut conn hruns hcall hnext =>
    obtain ⟨-, hconn⟩ := Option.ite_none_right_eq_some.mp hnext
    cases hconn
    refine ⟨fun fut' hfut => ?_, htied.closing, htied.closes, fun hclose => ?_⟩
    · cases hfut
      cases hop : P.op s.prog with
      | write rest wrote =>
        rw [hop] at hcall
        cases hcall
        exact ⟨wrote, hop⟩
      | read room got wouldBlock =>
        rw [hop] at hcall
        cases hcall
        exact ⟨got, wouldBlock, hop⟩
      | _ =>
        rw [hop] at hcall
        cases hcall
    · cases hclose
      cases hop : P.op s.prog <;> rw [hop] at hcall <;> cases hcall
  | close hruns hclosing hop hnext =>
    obtain ⟨-, hconn⟩ := Option.ite_none_right_eq_some.mp hnext
    cases hconn
    refine ⟨fun fut' hfut => ?_, fun _ => hop, fun _ => rfl, fun _ => ?_⟩
    · cases hfut
      rfl
    · by_contra hne
      exact Bool.false_ne_true (hclosing.symm.trans (htied.closes hne))
  | poll cx localPort hfut => exact htied.polled hfut cx localPort
  | segment g hnext =>
    cases hnext
    exact ⟨htied.fits, htied.closing, htied.closes, htied.once⟩
  | expire hnext =>
    cases hnext
    exact ⟨htied.fits, htied.closing, htied.closes, htied.once⟩

/-! ### On a pure stream -/

omit [tcp.Documented] in
/-- What a step does on the socket, the program could do on two pipes that hold as much. -/
theorem Step.acts {s s' : Host tcp σ} (h : s.Step P s') {c d : Nat}
    {out : Pipe UInt8 c} {inp : Pipe UInt8 d} (hout : out.written = s.conn.history.accepted)
    (hinp : inp.read = s.conn.history.delivered)
    (hroom : s'.conn.history.accepted.length ≤ out.read.length + c)
    (hnext : s'.conn.history.delivered <+: inp.written) :
    ∃ out' inp', ((s'.prog = s.prog ∧ out' = out ∧ inp' = inp) ∨
        ∃ n, act P.op s.prog out inp n = some (s'.prog, out', inp')) ∧
      out'.written = s'.conn.history.accepted ∧ out'.read = out.read ∧
      inp'.written = inp.written ∧ inp'.read = s'.conn.history.delivered := by
  cases h with
  | same hprog haccepted hdelivered =>
    exact ⟨out, inp, .inl ⟨hprog, rfl, rfl⟩, hout.trans haccepted.symm, rfl, rfl,
      hinp.trans hdelivered.symm⟩
  | goto hop hconn =>
    rw [hconn]
    exact ⟨out, inp, .inr ⟨0, by simp only [act, hop]⟩, hout, rfl, rfl, hinp⟩
  | @wrote rest wrote n hop hprog hn haccepted hdelivered =>
    rcases Nat.eq_zero_or_pos n with rfl | hpos
    · rw [List.take_zero, List.append_nil] at haccepted
      exact ⟨out, inp, .inl ⟨hprog.trans (Program.write_zero hop), rfl, rfl⟩,
        hout.trans haccepted.symm, rfl, rfl, hinp.trans hdelivered.symm⟩
    · have hlength : (rest.take n).length = n := by rw [List.length_take, Nat.min_eq_left hn]
      rw [haccepted, ← hout, List.length_append, hlength] at hroom
      have hfits : n ≤ out.room := Pipe.le_room hroom
      refine ⟨out.put (rest.take n), inp, .inr ⟨n, ?_⟩, ?_, rfl, rfl, hinp.trans hdelivered.symm⟩
      · rw [act_write hop hpos hn hfits, hprog]
      · rw [Pipe.put_written (by rwa [hlength]), hout, haccepted]
  | @got room got wouldBlock bytes hop hprog hlen hexact haccepted hdelivered =>
    by_cases hnil : bytes = []
    · rw [hnil] at hprog hdelivered
      rw [List.append_nil] at hdelivered
      exact ⟨out, inp, .inl ⟨hprog.trans ((Program.read_nil hop).2 (hexact hnil)), rfl, rfl⟩,
        hout.trans haccepted.symm, rfl, rfl, hinp.trans hdelivered.symm⟩
    · rw [hdelivered, ← hinp] at hnext
      have hheld : bytes <+: inp.held := Pipe.prefix_held hnext
      refine ⟨out, inp.get bytes.length, .inr ⟨bytes.length, ?_⟩, hout.trans haccepted.symm, rfl,
        rfl, ?_⟩
      · rw [act_read hop hnil hlen hheld, hprog]
      · rw [Pipe.get_read hheld, hinp, hdelivered]

/-! ### Why a call fails -/

omit [tcp.Documented] in
/-- A call that fails with `Error::Illegal`: the connection was reset, or the program has
closed. -/
theorem reset_of_ended {s : Host tcp σ} (hinv : s.conn.Inv) (hst : s.conn.stage = .handed)
    (hcloses : s.conn.history.closes = []) (hended : ended s.conn.view.state = true) :
    s.conn.history.reset = true :=
  (hinv.ended_cases hst hended).resolve_right fun hne => hne hcloses

omit [tcp.Documented] in
/-- A program that has not stopped has not closed. -/
theorem Tied.closes_nil {s : Host tcp σ} (h : s.Tied P) (hop : P.op s.prog ≠ .stop) :
    s.conn.history.closes = [] := by
  by_contra hne
  exact hop (h.closing (h.closes hne))

omit [tcp.Documented] in
/-- A read, a write and a close are calls on a handle. -/
theorem handed_of_uses {c : Conn tcp Unit} (h : c.Inv) {fut : Future}
    (hfut : c.calls () = some fut) (huses : fut.uses = true) : c.stage = .handed := by
  rcases h.caller hfut with ⟨-, hopening, -⟩ | ⟨hst, -, -⟩
  · cases fut <;> first | exact hopening.elim | cases huses
  · exact hst

omit [tcp.Documented] in
/-- After a section with which a call has failed, the program has no socket, or the connection
was reset, or `read_exact` has got `Ok(0)`. -/
theorem failed_of_resume {self : Handle} {v' : TcpView} {s : Host tcp σ} {fut : Future}
    {progress : Progress} (hinv : s.conn.Inv) (htied : s.Tied P)
    (hfut : s.conn.calls () = some fut) (hstep : Future.Step self s.conn.view fut progress v')
    (hruns : s.failed = false) (hfailed : (s.resume P progress).failed = true) :
    s.conn.stage.after progress = .dropped ∨ s.conn.history.reset = true ∨
      P.exact = true ∧ ∃ len, fut = .read len ∧ progress = .ready (.ok (.bytes [])) := by
  have hfits := htied.fits fut hfut
  -- what is not an error fails only where `read_exact` does
  have hbytes : ∀ len bytes, fut = .read len → progress = .ready (.ok (.bytes bytes)) →
      P.exact = true ∧ bytes = [] := by
    rintro len bytes rfl rfl
    obtain ⟨got, wouldBlock, hop⟩ := hfits
    simp only [resume, hop] at hfailed
    by_contra hnot
    rw [if_neg hnot] at hfailed
    cases hruns.symm.trans hfailed
  cases hstep with
  | connectError | connectRefused | acceptError | acceptClosed =>
    have hopening : s.conn.stage = .opening () := hfits
    rw [hopening]
    exact .inl rfl
  | readError e hended =>
    obtain ⟨_, _, hop⟩ := hfits
    have hcloses := htied.closes_nil (by rw [hop]; exact fun h => by cases h)
    exact .inr (.inl (reset_of_ended hinv (handed_of_uses hinv hfut rfl) hcloses hended))
  | writeError e hended =>
    obtain ⟨_, hop⟩ := hfits
    have hcloses := htied.closes_nil (by rw [hop]; exact fun h => by cases h)
    exact .inr (.inl (reset_of_ended hinv (handed_of_uses hinv hfut rfl) hcloses hended))
  | closeError e hended =>
    exact .inr (.inl (reset_of_ended hinv (handed_of_uses hinv hfut rfl) (htied.once hfut) hended))
  | @readBytes len =>
    obtain ⟨hexact, hnil⟩ := hbytes _ _ rfl rfl
    exact .inr (.inr ⟨hexact, len, rfl, by rw [hnil]⟩)
  | @readEnd len =>
    obtain ⟨hexact, -⟩ := hbytes _ _ rfl rfl
    exact .inr (.inr ⟨hexact, len, rfl, rfl⟩)
  | writeBytes | writeEnd =>
    obtain ⟨_, hop⟩ := hfits
    simp only [resume, hop] at hfailed
    cases hruns.symm.trans hfailed
  | _ => cases hruns.symm.trans hfailed

/-- **Why a call fails**: the step after which it has. -/
theorem Moves.failed_cause {s s' : Host tcp σ} {l : Label W} (h : s.Moves P l s')
    (hinv : s.conn.Inv) (htied : s.Tied P) (hruns : s.failed = false) (hfailed : s'.failed = true) :
    s'.conn.stage = .dropped ∨ s.conn.history.reset = true ∨
      P.exact = true ∧ ∃ len cx localPort, s.conn.calls () = some (.read len) ∧
        (s.conn.step (.read len) cx localPort).1 = .ready (.ok (.bytes [])) := by
  cases h with
  | @poll fut cx localPort hfut =>
    rcases failed_of_resume hinv htied hfut (s.conn.step_spec fut cx localPort) hruns hfailed with
      hdropped | hreset | ⟨hexact, len, rfl, hend⟩
    · exact .inl hdropped
    · exact .inr (.inl hreset)
    · exact .inr (.inr ⟨hexact, len, cx, localPort, hfut, hend⟩)
  | _ => cases hruns.symm.trans hfailed

omit [tcp.Documented] in
theorem record_reset (k : History) (v : TcpView) (fut : Future) (progress : Progress) :
    (k.record v fut progress).reset = k.reset := by
  unfold History.record
  split <;> rfl

/-- The socket was not handed over, or the connection was reset. -/
def Lost (s : Host tcp σ) : Prop :=
  s.conn.stage = .dropped ∨ s.conn.history.reset = true

omit [tcp.Documented] in
/-- A socket that is lost is lost for good. -/
theorem Moves.lost {s s' : Host tcp σ} {l : Label W} (h : s.Moves P l s') (hinv : s.conn.Inv)
    (hlost : s.Lost) : s'.Lost := by
  cases h with
  | goto => exact hlost
  | setup hnext =>
    obtain ⟨⟨hst, -⟩, hconn⟩ := Option.ite_none_right_eq_some.mp hnext
    cases hconn
    rcases hlost with hdropped | hreset
    · cases hst.symm.trans hdropped
    · exact .inr hreset
  | call _ _ hnext =>
    obtain ⟨-, hconn⟩ := Option.ite_none_right_eq_some.mp hnext
    cases hconn
    exact hlost
  | close _ _ _ hnext =>
    obtain ⟨-, hconn⟩ := Option.ite_none_right_eq_some.mp hnext
    cases hconn
    exact hlost
  | @poll fut cx localPort hfut =>
    rcases hlost with hdropped | hreset
    · rcases hinv.caller hfut with ⟨hst, -, -⟩ | ⟨hst, -, -⟩
      · cases hst.symm.trans hdropped
      · cases hst.symm.trans hdropped
    · exact .inr ((record_reset s.conn.history _ fut _).trans hreset)
  | segment g hnext =>
    cases hnext
    refine hlost.imp_right fun hreset => ?_
    show (s.conn.history.reset || _) = true
    rw [hreset, Bool.true_or]
  | expire hnext =>
    cases hnext
    exact hlost

/-- Without `read_exact` it takes that for a call to fail. -/
theorem Moves.lost_of_failed {s s' : Host tcp σ} {l : Label W} (h : s.Moves P l s')
    (hinv : s.conn.Inv) (htied : s.Tied P) (hexact : P.exact = false)
    (hlost : s.failed = true → s.Lost) (hfailed : s'.failed = true) : s'.Lost := by
  cases hruns : s.failed with
  | true => exact h.lost hinv (hlost hruns)
  | false =>
    rcases h.failed_cause hinv htied hruns hfailed with hdropped | hreset | ⟨hread, -⟩
    · exact .inl hdropped
    · exact h.lost hinv (.inr hreset)
    · cases hexact.symm.trans hread

end Host

/-! ## Two programs -/

/-- Two programs, each with its socket. -/
structure Hosted (tcp : SmolTcp W) (σ τ : Type) where
  left : Host tcp σ
  right : Host tcp τ

namespace Hosted

/-- The sockets of the two programs. -/
def ends (s : Hosted tcp σ τ) : Ends tcp Unit
  | false => s.left.conn
  | true => s.right.conn

/-- On which side something happens. -/
inductive Label (W : Type) where
  | left (l : Host.Label W)
  | right (l : Host.Label W)

def next (P : Program σ) (Q : Program τ) (s : Hosted tcp σ τ) : Label W → Option (Hosted tcp σ τ)
  | .left l => (s.left.next P l).map fun left => { s with left }
  | .right l => (s.right.next Q l).map fun right => { s with right }

/-- All runs of two programs on two sockets. -/
def machine (tcp : SmolTcp W) (P : Program σ) (Q : Program τ) :
    Machine (Hosted tcp σ τ) (Label W) where
  init s := ∃ self self', s = { left := .new P self, right := .new Q self' }
  next := next P Q

/-- A step that TCP allows between the two. -/
def ok (s : Hosted tcp σ τ) : Label W → Prop
  | .left (.segment g) => Ends.Promised s.right.conn s.left.conn g
  | .right (.segment g) => Ends.Promised s.left.conn s.right.conn g
  | _ => True

instance (s : Hosted tcp σ τ) : (a : Label W) → Decidable (s.ok a)
  | .left (.segment g) => inferInstanceAs (Decidable (Ends.Promised s.right.conn s.left.conn g))
  | .right (.segment g) => inferInstanceAs (Decidable (Ends.Promised s.left.conn s.right.conn g))
  | .left (.setup _) | .left .goto | .left .call | .left .close | .left (.poll ..)
  | .left .expire | .right (.setup _) | .right .goto | .right .call | .right .close
  | .right (.poll ..) | .right .expire => inferInstanceAs (Decidable True)

variable {P : Program σ} {Q : Program τ}

/-- A step of two programs is one of their sockets, or these stay as they are. -/
theorem ends_next {s s' : Hosted tcp σ τ} {a : Label W} (h : s.next P Q a = some s') :
    s'.ends = s.ends ∨ ∃ b, s.ends.next b = some s'.ends ∧ (s.ok a → s.ends.ok b) := by
  cases a with
  | left l =>
    obtain ⟨left, hleft, rfl⟩ := Option.map_eq_some_iff.mp h
    rcases (Host.next_cases hleft).conn with hsame | ⟨cl, hcl, hsegment⟩
    · refine .inl (funext fun side => ?_)
      cases side
      · exact hsame
      · rfl
    · refine .inr ⟨(false, cl), Option.map_eq_some_iff.mpr ⟨_, hcl, funext fun side => ?_⟩,
        fun hok => ?_⟩
      · cases side <;> rfl
      · cases cl with
        | segment g =>
          cases hsegment g rfl
          exact hok
        | _ => trivial
  | right l =>
    obtain ⟨right, hright, rfl⟩ := Option.map_eq_some_iff.mp h
    rcases (Host.next_cases hright).conn with hsame | ⟨cl, hcl, hsegment⟩
    · refine .inl (funext fun side => ?_)
      cases side
      · rfl
      · exact hsame
    · refine .inr ⟨(true, cl), Option.map_eq_some_iff.mpr ⟨_, hcl, funext fun side => ?_⟩,
        fun hok => ?_⟩
      · cases side <;> rfl
      · cases cl with
        | segment g =>
          cases hsegment g rfl
          exact hok
        | _ => trivial

/-- What holds of two programs on two sockets. -/
structure Inv (P : Program σ) (Q : Program τ) (s : Hosted tcp σ τ) : Prop where
  ends : s.ends.Inv
  left : s.left.Tied P
  right : s.right.Tied Q

variable [tcp.Documented]

theorem Inv.next {s s' : Hosted tcp σ τ} {a : Label W} (h : s.Inv P Q) (hok : s.ok a)
    (hnext : s.next P Q a = some s') : s'.Inv P Q := by
  have hends : s'.ends.Inv := by
    rcases ends_next hnext with hsame | ⟨b, hb, hok'⟩
    · rw [hsame]
      exact h.ends
    · exact h.ends.next (hok' hok) hb
  cases a with
  | left l =>
    obtain ⟨left, hleft, rfl⟩ := Option.map_eq_some_iff.mp hnext
    exact ⟨hends, (Host.next_cases hleft).tied h.left, h.right⟩
  | right l =>
    obtain ⟨right, hright, rfl⟩ := Option.map_eq_some_iff.mp hnext
    exact ⟨hends, h.left, (Host.next_cases hright).tied h.right⟩

theorem Reachable.inv {s : Hosted tcp σ τ} (h : (machine tcp P Q).ReachableBy ok s) :
    s.Inv P Q := by
  refine h.invariant (I := Inv P Q) ?_ fun _ _ _ hinv hok hnext => hinv.next hok hnext
  rintro s ⟨self, self', rfl⟩
  refine ⟨Ends.Reachable.inv (.init fun side => ?_), Host.tied_new P self, Host.tied_new Q self'⟩
  cases side
  · exact ⟨self, rfl⟩
  · exact ⟨self', rfl⟩

/-! ### On a pure stream -/

/-- What the two programs are like on a stream that holds what is on the way and in the
buffers of both sides. -/
structure Shows (s : Hosted tcp σ τ) (t : State σ τ UInt8 (65535 + 65535) (65535 + 65535)) :
    Prop where
  left : t.left = s.left.prog
  right : t.right = s.right.prog
  forth : Ends.Between s.left.conn s.right.conn t.forth
  back : Ends.Between s.right.conn s.left.conn t.back

omit [tcp.Documented] in
/-- The two sides of the pipes, from the invariant. -/
theorem Inv.pipes {s : Hosted tcp σ τ} (h : s.Inv P Q) :
    (s.right.conn.history.delivered <+: s.left.conn.history.accepted ∧
      s.left.conn.history.accepted.length ≤
        s.right.conn.history.delivered.length + (65535 + 65535)) ∧
    s.left.conn.history.delivered <+: s.right.conn.history.accepted ∧
      s.right.conn.history.accepted.length ≤
        s.left.conn.history.delivered.length + (65535 + 65535) :=
  ⟨⟨h.ends.inOrder false, h.ends.bounded false⟩, h.ends.inOrder true, h.ends.bounded true⟩

/-- One step, or none, on the stream. -/
theorem Shows.next {s s' : Hosted tcp σ τ} {a : Label W}
    {t : State σ τ UInt8 (65535 + 65535) (65535 + 65535)} (h : s.Shows t) (hinv : s.Inv P Q)
    (hinv' : s'.Inv P Q) (hnext : s.next P Q a = some s') :
    s'.Shows t ∨ ∃ b t', Duplex.next P.op Q.op t b = some t' ∧ s'.Shows t' := by
  obtain ⟨⟨hforth, hroom⟩, hback, hroom'⟩ := hinv'.pipes
  cases a with
  | left l =>
    obtain ⟨left, hleft, rfl⟩ := Option.map_eq_some_iff.mp hnext
    have hstep := (Host.next_cases hleft).step hinv.left
    obtain ⟨out, inp, hact, hwritten, hread, hwritten', hread'⟩ :=
      hstep.acts h.forth.written h.back.read (by rwa [h.forth.read]) (by rwa [h.back.written])
    have hshows : Shows { s with left } { t with left := left.prog, forth := out, back := inp } :=
      ⟨rfl, h.right, ⟨hwritten, hread.trans h.forth.read⟩, ⟨hwritten'.trans h.back.written, hread'⟩⟩
    rcases hact with ⟨hprog, rfl, rfl⟩ | ⟨n, hact⟩
    · rw [hprog, ← h.left] at hshows
      exact .inl hshows
    · refine .inr ⟨.left n, _, ?_, hshows⟩
      simp only [Duplex.next, h.left, hact, Option.map_some]
  | right l =>
    obtain ⟨right, hright, rfl⟩ := Option.map_eq_some_iff.mp hnext
    have hstep := (Host.next_cases hright).step hinv.right
    obtain ⟨out, inp, hact, hwritten, hread, hwritten', hread'⟩ :=
      hstep.acts h.back.written h.forth.read (by rwa [h.back.read]) (by rwa [h.forth.written])
    have hshows :
        Shows { s with right } { t with right := right.prog, back := out, forth := inp } :=
      ⟨h.left, rfl, ⟨hwritten'.trans h.forth.written, hread'⟩, ⟨hwritten, hread.trans h.back.read⟩⟩
    rcases hact with ⟨hprog, rfl, rfl⟩ | ⟨n, hact⟩
    · rw [hprog, ← h.right] at hshows
      exact .inl hshows
    · refine .inr ⟨.right n, _, ?_, hshows⟩
      simp only [Duplex.next, h.right, hact, Option.map_some]

/-- **Two programs on sockets do what they could do on a stream.** -/
theorem Reachable.shows {s : Hosted tcp σ τ}
    (h : (machine tcp P Q).ReachableBy ok s) : ∃ t,
      (Duplex.machine P.op Q.op P.start Q.start (65535 + 65535) (65535 + 65535)).Reachable t ∧
        s.Shows t := by
  induction h with
  | init hinit =>
    obtain ⟨self, self', rfl⟩ := hinit
    exact ⟨_, .init rfl, rfl, rfl, ⟨rfl, rfl⟩, ⟨rfl, rfl⟩⟩
  | step hs hok hnext ih =>
    obtain ⟨t, ht, hshows⟩ := ih
    rcases hshows.next (Reachable.inv hs) (Reachable.inv (hs.step hok hnext)) hnext with
      hsame | ⟨b, t', hb, hshows'⟩
    · exact ⟨t, ht, hsame⟩
    · exact ⟨t', ht.step hb, hshows'⟩

/-! ### Why a call fails -/

/-- **Where no `read_exact` is used, a call fails only** if it is `connect` or `accept`, or
after a reset. -/
theorem Reachable.lost {s : Hosted tcp σ τ} (h : (machine tcp P Q).ReachableBy ok s) :
    (P.exact = false → s.left.failed = true → s.left.Lost) ∧
      (Q.exact = false → s.right.failed = true → s.right.Lost) := by
  refine Machine.ReachableBy.invariant_under (J := Inv P Q) (I := fun s : Hosted tcp σ τ =>
    (P.exact = false → s.left.failed = true → s.left.Lost) ∧
      (Q.exact = false → s.right.failed = true → s.right.Lost)) (fun _ => Reachable.inv) ?_ ?_ h
  · rintro s ⟨self, self', rfl⟩
    exact ⟨fun _ h => (by cases h), fun _ h => (by cases h)⟩
  · rintro s a s' hinv ⟨hlost, hlost'⟩ _ hnext
    cases a with
    | left l =>
      obtain ⟨left, hleft, rfl⟩ := Option.map_eq_some_iff.mp hnext
      refine ⟨fun hP => ?_, hlost'⟩
      exact (Host.next_cases hleft).lost_of_failed (hinv.ends.conn false) hinv.left hP (hlost hP)
    | right l =>
      obtain ⟨right, hright, rfl⟩ := Option.map_eq_some_iff.mp hnext
      refine ⟨hlost, fun hQ => ?_⟩
      exact (Host.next_cases hright).lost_of_failed (hinv.ends.conn true) hinv.right hQ (hlost' hQ)

end Hosted

end RustyHermit.Net
