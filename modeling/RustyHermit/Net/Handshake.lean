import RustyHermit.Net.Conn
import RustyHermit.Smoltcp.Reference

/-!
# When `connect` and `accept` return `Ok`

`connect` waits for a state in which the handshake has been completed. `accept`
waits for `is_active()`, which holds from the first SYN on, and reads the remote
endpoint in a later critical section, before which segments may still be
processed; so it may return a peer that never completed a handshake, or none at
all (`accept_before_handshake`). `established_iff` says when that happens: never
in `connect`, and in `accept` exactly when its last section finds the socket in
another state than `Established` and `CloseWait`.
-/

namespace RustyHermit.Net.Conn

open RustyHermit.Smoltcp

variable {W : Type} {tcp : SmolTcp W} {ι : Type}

/-- If this is a return of `connect` or `accept` with `Ok`, the handshake has
been completed, and a peer that is returned is the one it was completed with. -/
def Established (k : History) : Progress → Prop
  | .ready (.ok (.handle _)) => k.peer.isSome = true
  | .ready (.ok (.peer addr port)) =>
    k.peer = some ⟨addr, port⟩ ∧ (IpEndpoint.mk addr port).isSpecified = true
  | _ => True

/-- The last section of `accept` finds the connection established. -/
def PeerThere (s : Conn tcp ι) (fut : Future) : Prop :=
  match fut with
  | .acceptPeer => s.view.state = .established ∨ s.view.state = .closeWait
  | _ => True

/-! ## A peer without a handshake -/

/-- A listening socket is reset between the two critical sections of `accept`
after it has become active. -/
def resetInAccept : List (Label Unit Unit) :=
  [.open () (.accept 80), .poll () () 0, .segment (fromRemote .syn false 0 []),
    .poll () () 0, .segment (fromRemote .rst true 0 [])]

/-- `accept` returns `Ok` with an unspecified endpoint: its first test is passed
by a half-open connection, which a reset then takes back to `Listen`. -/
theorem accept_before_handshake :
    ¬ ∀ (s : Conn (reference Unit) Unit) (fut : Future) (cx : Unit) (localPort : UInt16),
      (machine (reference Unit) Unit).Reachable s → s.calls () = some fut →
        Established s.history (s.step fut cx localPort).1 := by
  intro h
  obtain ⟨s, hrun, hcall, hresult⟩ : ∃ s : Conn (reference Unit) Unit,
      (machine (reference Unit) Unit).run (new 0) resetInAccept = some s ∧
        s.calls () = some .acceptPeer ∧
        (s.step .acceptPeer () 0).1 = .ready (.ok (.peer .unspecified 0)) :=
    ⟨_, rfl, rfl, rfl⟩
  have hpeer := h s .acceptPeer () 0 ((reachable_new 0).run hrun) hcall
  rw [hresult] at hpeer
  exact absurd hpeer.2 (by decide)

/-! ## Exactly when the connection is established -/

/-- In the states in which `connect` returns `Ok`, the handshake is complete. -/
theorem Inv.connected {s : Conn tcp ι} (h : s.Inv)
    (hopening : Opening s.view s.history .connectPoll) (hclosed : s.view.state ≠ .closed)
    (hsent : s.view.state ≠ .synSent) : s.history.peer.isSome = true := by
  obtain ⟨-, hst | hst | hst | ⟨hst, -⟩⟩ := hopening
  · exact absurd hst hsent
  · rw [h.sound.after (.inl hst)]
    rfl
  · rw [h.sound.after (.inr hst)]
    rfl
  · exact absurd hst hclosed

/-- What the last section of `accept` reads is the peer of a completed handshake
in two states only. -/
theorem Inv.accepted_iff {s : Conn tcp ι} (h : s.Inv)
    (hopening : Opening s.view s.history .acceptPeer) :
    (s.history.peer = some s.view.remote ∧ s.view.remote.isSpecified = true) ↔
      s.view.state = .established ∨ s.view.state = .closeWait := by
  constructor
  · -- in the other states there was no handshake, or a reset has cleared the peer
    rintro ⟨hpeer, hspec⟩
    obtain ⟨hcloses, hst | hst | hst | hst | ⟨hst, -⟩⟩ := hopening
    · rw [h.sound.before (.inl hst)] at hpeer
      cases hpeer
    · rw [h.sound.before (.inr (.inr hst))] at hpeer
      cases hpeer
    · exact .inl hst
    · exact .inr hst
    · rw [h.sound.reset hst hcloses] at hspec
      cases hspec
  · intro hst
    exact ⟨h.sound.after hst, h.sound.specified (.inr (.inr hst))⟩

/-- **Exactly when `connect` and `accept` return `Ok` on an established
connection**: whatever section a thread executes next, in whatever state, a
return with `Ok` reports a completed handshake and its peer if and only if the
section is not the last one of `accept`, or it finds the connection in
`Established` or `CloseWait`. -/
theorem established_iff [tcp.Documented] [DecidableEq ι] {s : Conn tcp ι}
    (h : (machine tcp ι).Reachable s) {i : ι} {fut : Future}
    (hi : s.calls i = some fut) (cx : W) (localPort : UInt16) :
    Established s.history (s.step fut cx localPort).1 ↔ s.PeerThere fut := by
  have hinv := Reachable.inv h
  have hstep := s.step_spec fut cx localPort
  have hcaller := hinv.caller hi
  generalize (s.step fut cx localPort).1 = progress at hstep ⊢
  generalize tcp.view (s.step fut cx localPort).2 = v at hstep
  cases hstep with
  | connected hclosed _ _ hsent _ =>
    refine iff_of_true ?_ trivial
    rcases hcaller with ⟨-, hopening, -⟩ | ⟨-, husing, -⟩
    · exact hinv.connected hopening hclosed hsent
    · rcases husing with huses | ⟨hwait, -⟩
      · cases huses
      · cases hwait
  | accepted =>
    rcases hcaller with ⟨-, hopening, -⟩ | ⟨-, husing, -⟩
    · exact hinv.accepted_iff hopening
    · rcases husing with huses | ⟨hwait, -⟩
      · cases huses
      · cases hwait
  -- no other section returns from `connect` or `accept` with `Ok`
  | _ => exact iff_of_true trivial trivial

/-- The peer's acknowledgement arrives before the last section of `accept`. -/
theorem established_after_ack : ∃ s : Conn (reference Unit) Unit,
    (machine (reference Unit) Unit).run (new 0)
      [.open () (.accept 80), .poll () () 0, .segment (fromRemote .syn false 0 []),
        .poll () () 0, .segment (fromRemote .none true 0 [])] = some s ∧
      s.PeerThere .acceptPeer ∧ Established s.history (s.step .acceptPeer () 0).1 := by
  obtain ⟨s, hrun, hcall, hpeer⟩ : ∃ s : Conn (reference Unit) Unit,
      (machine (reference Unit) Unit).run (new 0)
        [.open () (.accept 80), .poll () () 0, .segment (fromRemote .syn false 0 []),
          .poll () () 0, .segment (fromRemote .none true 0 [])] = some s ∧
        s.calls () = some .acceptPeer ∧ s.PeerThere .acceptPeer :=
    ⟨_, rfl, rfl, .inl rfl⟩
  exact ⟨s, hrun, hpeer, (established_iff ((reachable_new 0).run hrun) hcall () 0).mpr hpeer⟩

end RustyHermit.Net.Conn
