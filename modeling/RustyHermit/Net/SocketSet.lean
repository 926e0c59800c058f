import RustyHermit.Net.Nic
import RustyHermit.Smoltcp.Reference

/-!
# The sockets in `nic.sockets`

`AsyncSocket::new` adds a socket to `nic.sockets` and nothing takes one out. So
the set holds one socket for every `connect` and `accept` that was ever called:
those whose handle was returned, those whose call failed, and those whose call
is still running (`sockets_kept`). In particular a failed call leaves its socket
behind (`failed_connect_leaks`).
-/

namespace RustyHermit.Net.Nic

open RustyHermit.Smoltcp RustyHermit.Executor

variable {W : Type} {tcp : SmolTcp W} {ι : Type}

/-- Thread `i` is in the `connect` or `accept` that created the socket `h`. -/
def Opens (frames : ι → Option Frame) (i : ι) (h : Handle) : Prop :=
  ∃ f, frames i = some f ∧ f.opens = true ∧ f.handle = h

/-- No socket outlives its use: `nic.sockets` holds those that were handed to
the application and are not both closed and in state `Closed`. -/
def NoLeak (n : Nic tcp ι) : Prop :=
  ∀ h, (n.conns h).isSome = true ↔ h ∈ n.handed ∧
    ¬∃ c, n.conns h = some c ∧ c.history.closed = true ∧ c.view.state = .closed

/-! ## A leak -/

/-- A `connect` to the empty string. -/
def failedConnect : List (Label Unit Unit) :=
  [.openSocket () (.streamConnect ⟨#[]⟩ 80 none) 0 ⟨0⟩, .section () (), .ret ()]

/-- A `connect` to an address that does not parse fails, and its socket stays. -/
theorem failed_connect_leaks :
    ¬ ∀ n : Nic (reference Unit) Unit, (machine (reference Unit) Unit).Reachable n →
      (∀ i, n.frames i = none) → n.NoLeak := by
  intro h
  have hobserved : ((machine (reference Unit) Unit).run
      (networkInit (reference Unit) Unit 49152) failedConnect).map
        (fun n => ((n.frames ()).isNone, (n.conns 0).isSome, n.handed)) =
          some (true, true, []) := by decide +kernel
  obtain ⟨n, hrun, hn⟩ := Option.map_eq_some_iff.mp hobserved
  obtain ⟨hframe, hconn, hhanded⟩ : (n.frames ()).isNone = true ∧
      (n.conns 0).isSome = true ∧ n.handed = [] := by simpa using hn
  have hreach := (reachable_networkInit 49152).run hrun
  have hmem := ((h n hreach fun _ => Option.isNone_iff_eq_none.mp hframe) 0).mp hconn
  rw [hhanded] at hmem
  cases hmem.1

/-! ## Every socket is kept -/

/-- Whose sockets there are: `returned` lists the sockets of the calls of
`connect` and `accept` that have returned, whatever they returned. -/
structure Owners (conns : Handle → Option (Conn tcp ι)) (frames : ι → Option Frame)
    (returned : List Handle) : Prop where
  present : ∀ h, (conns h).isSome = true ↔ h ∈ returned ∨ ∃ i, Opens frames i h
  distinct : returned.Nodup
  fresh : ∀ i h, Opens frames i h → h ∉ returned
  unique : ∀ i j h, Opens frames i h → Opens frames j h → i = j

/-- A step that keeps the sockets and the calls that opened them. -/
theorem Owners.keep {conns conns' : Handle → Option (Conn tcp ι)}
    {frames frames' : ι → Option Frame} {returned : List Handle}
    (h : Owners conns frames returned)
    (hconns : ∀ h, (conns' h).isSome = (conns h).isSome)
    (hopens : ∀ i h, Opens frames' i h ↔ Opens frames i h) :
    Owners conns' frames' returned where
  present h' := by
    rw [hconns, h.present]
    simp only [hopens]
  distinct := h.distinct
  fresh i h' ho := h.fresh i h' ((hopens i h').mp ho)
  unique i j h' hi hj := h.unique i j h' ((hopens i h').mp hi) ((hopens j h').mp hj)

variable [DecidableEq ι]

/-- A thread stays in the same call. -/
theorem opens_update_same {frames : ι → Option Frame} {i : ι} {f f' : Frame}
    (hf : frames i = some f) (hopens : f'.opens = f.opens) (hhandle : f'.handle = f.handle)
    (j : ι) (h : Handle) :
    Opens (Function.update frames i (some f')) j h ↔ Opens frames j h := by
  unfold Opens
  by_cases hji : j = i
  · subst hji
    rw [Function.update_self, hf]
    constructor
    · rintro ⟨_, ⟨⟩, ho, hh⟩
      exact ⟨f, rfl, hopens ▸ ho, hhandle ▸ hh⟩
    · rintro ⟨_, ⟨⟩, ho, hh⟩
      exact ⟨f', rfl, hopens ▸ ho, hhandle ▸ hh⟩
  · rw [Function.update_of_ne hji]

/-- A thread that is in no call enters one. -/
theorem opens_update_enter {frames : ι → Option Frame} {i : ι} (hi : frames i = none)
    (f : Frame) (j : ι) (h : Handle) :
    Opens (Function.update frames i (some f)) j h ↔
      Opens frames j h ∨ (j = i ∧ f.opens = true ∧ f.handle = h) := by
  unfold Opens
  by_cases hji : j = i
  · subst hji
    rw [Function.update_self, hi]
    constructor
    · rintro ⟨_, ⟨⟩, hf⟩
      exact .inr ⟨rfl, hf⟩
    · rintro (⟨_, ⟨⟩, -⟩ | ⟨-, hf⟩)
      exact ⟨f, rfl, hf⟩
  · rw [Function.update_of_ne hji]
    exact (or_iff_left fun hand => hji hand.1).symm

/-- A thread returns from its call. -/
theorem opens_update_ret (frames : ι → Option Frame) (i j : ι) (h : Handle) :
    Opens (Function.update frames i none) j h ↔ j ≠ i ∧ Opens frames j h := by
  unfold Opens
  by_cases hji : j = i
  · subst hji
    rw [Function.update_self]
    exact iff_of_false (fun ⟨_, hnone, _⟩ => nomatch hnone) fun hand => hand.1 rfl
  · rw [Function.update_of_ne hji]
    exact ⟨fun hex => ⟨hji, hex⟩, fun hand => hand.2⟩

/-- Events neither add nor remove sockets. -/
theorem isSome_events (conns : Handle → Option (Conn tcp ι))
    (events : List (Handle × Event)) (h : Handle) :
    (events.foldl handleEvent conns h).isSome = (conns h).isSome := by
  induction events generalizing conns with
  | nil => rfl
  | cons e events ih =>
    rw [List.foldl_cons, ih, handleEvent]
    exact update_keeps Option.isSome (Option.isSome_map ..) h

/-- `connect` and `accept` add one socket. -/
theorem Owners.openSocket {conns : Handle → Option (Conn tcp ι)}
    {frames : ι → Option Frame} {returned : List Handle}
    (h : Owners conns frames returned) {i : ι} (hi : frames i = none) {f : Frame}
    (hf : f.opens = true) (hnone : conns f.handle = none) (c : Conn tcp ι) :
    Owners (Function.update conns f.handle (some c))
      (Function.update frames i (some f)) returned := by
  have habsent : ¬(f.handle ∈ returned ∨ ∃ j, Opens frames j f.handle) := by
    rw [← h.present, hnone]
    nofun
  have hopens := opens_update_enter hi f
  refine ⟨fun h' => ?_, h.distinct, fun j h' ho => ?_, fun j j' h' hj hj' => ?_⟩
  · simp only [hopens]
    by_cases hh' : h' = f.handle
    · rw [hh', Function.update_self]
      exact iff_of_true rfl (.inr ⟨i, .inr ⟨rfl, hf, rfl⟩⟩)
    · rw [Function.update_of_ne hh', h.present]
      simp only [Ne.symm hh', and_false, or_false]
  · rcases (hopens j h').mp ho with ho | ⟨-, -, rfl⟩
    · exact h.fresh j h' ho
    · exact fun hm => habsent (.inl hm)
  · rcases (hopens j h').mp hj with ho | ⟨rfl, -, rfl⟩
    · rcases (hopens j' h').mp hj' with ho' | ⟨-, -, rfl⟩
      · exact h.unique j j' h' ho ho'
      · exact absurd (.inr ⟨j, ho⟩) habsent
    · rcases (hopens j' f.handle).mp hj' with ho' | ⟨rfl, -, -⟩
      · exact absurd (.inr ⟨j', ho'⟩) habsent
      · rfl

/-- The call that created a socket returns. -/
theorem Owners.ret {conns : Handle → Option (Conn tcp ι)} {frames : ι → Option Frame}
    {returned returned' : List Handle} (h : Owners conns frames returned) {i : ι}
    {f : Frame} (hi : frames i = some f) (hf : f.opens = true)
    (hreturned : returned'.Perm (f.handle :: returned)) :
    Owners conns (Function.update frames i none) returned' := by
  have hfresh : f.handle ∉ returned := h.fresh i f.handle ⟨f, hi, hf, rfl⟩
  have hmem : ∀ h', h' ∈ returned' ↔ h' = f.handle ∨ h' ∈ returned := fun h' =>
    hreturned.mem_iff.trans List.mem_cons
  refine ⟨fun h' => ?_, ?_, fun j h' ho => ?_, fun j j' h' hj hj' => ?_⟩
  · rw [h.present, hmem]
    simp only [opens_update_ret]
    constructor
    · rintro (hm | ⟨j, hj⟩)
      · exact .inl (.inr hm)
      · by_cases hji : j = i
        · obtain ⟨f', hf', -, rfl⟩ := hj
          rw [hji, hi] at hf'
          cases hf'
          exact .inl (.inl rfl)
        · exact .inr ⟨j, hji, hj⟩
    · rintro ((rfl | hm) | ⟨j, -, hj⟩)
      · exact .inr ⟨i, f, hi, hf, rfl⟩
      · exact .inl hm
      · exact .inr ⟨j, hj⟩
  · exact hreturned.nodup_iff.mpr (List.nodup_cons.mpr ⟨hfresh, h.distinct⟩)
  · obtain ⟨hji, hj⟩ := (opens_update_ret ..).mp ho
    intro hm
    rcases (hmem h').mp hm with rfl | hm
    · exact hji (h.unique j i f.handle hj ⟨f, hi, hf, rfl⟩)
    · exact h.fresh j h' hj hm
  · exact h.unique j j' h' ((opens_update_ret ..).mp hj).2 ((opens_update_ret ..).mp hj').2

/-- Another call returns. -/
theorem Owners.ret_other {conns : Handle → Option (Conn tcp ι)}
    {frames : ι → Option Frame} {returned : List Handle}
    (h : Owners conns frames returned) {i : ι} {f : Frame} (hi : frames i = some f)
    (hf : f.opens = false) :
    Owners conns (Function.update frames i none) returned := by
  refine h.keep (fun _ => rfl) fun j h' => ?_
  rw [opens_update_ret]
  refine and_iff_right_of_imp ?_
  rintro ⟨f', hf', ho, -⟩ rfl
  rw [hi] at hf'
  cases hf'
  rw [hf] at ho
  cases ho

/-- Every step keeps a socket for each call of `connect` and `accept`. -/
theorem owners_step {n n' : Nic tcp ι} {l : Label W ι}
    (h : Owners n.conns n.frames (n.handed ++ n.abandoned)) (hstep : Step n l n') :
    Owners n'.conns n'.frames (n'.handed ++ n'.abandoned) := by
  cases hstep with
  | @openSocket i call h' start fut c hi hh hnext =>
    exact h.openSocket (f := ⟨h', true, call.driver start, none⟩) hi rfl hh c
  | @call i call h' start fut c c' hi hh hc hnext =>
    refine h.keep (update_keeps Option.isSome (by rw [hc]; rfl)) fun j h'' => ?_
    refine (opens_update_enter hi _ j h'').trans (or_iff_left ?_)
    rintro ⟨-, ⟨⟩, -⟩
  | @«section» i cx f c fut driver hf hc hfut hdriver =>
    exact h.keep (update_keeps Option.isSome (by rw [hc]; rfl)) (opens_update_same hf rfl rfl)
  | @act i a f driver _ hf _ => exact h.keep (fun _ => rfl) (opens_update_same hf rfl rfl)
  | @sched l events sched _ _ =>
    refine h.keep (fun h' => ?_) fun _ _ => Iff.rfl
    simp only [scheduled]
    split
    · exact isSome_events ..
    · rfl
  | @ret i f res hf _ =>
    -- dropping the future leaves its socket in the set
    have hkeep : Owners (n.returned i f res).conns n.frames (n.handed ++ n.abandoned) :=
      h.keep (update_keeps Option.isSome (Option.isSome_map ..)) fun _ _ => Iff.rfl
    simp only [returned]
    cases ho : f.opens with
    | false =>
      simp only [Bool.false_and, Bool.false_eq_true, if_false]
      exact hkeep.ret_other hf ho
    | true =>
      refine hkeep.ret hf ho ?_
      simp only [Bool.true_and]
      split
      · exact .refl _
      · exact List.perm_middle

/-- At first there are the sockets the application has got already. -/
theorem owners_init {n : Nic tcp ι} (h : (machine tcp ι).init n) :
    Owners n.conns n.frames (n.handed ++ n.abandoned) := by
  obtain ⟨-, hframes, hconns, hnodup, habandoned, -⟩ := h
  have hnone : ∀ i h, ¬Opens n.frames i h := by
    rintro i h ⟨f, hf, -⟩
    rw [hframes i] at hf
    cases hf
  rw [habandoned, List.append_nil]
  exact ⟨fun h => (hconns h).trans (or_iff_left fun ⟨i, hi⟩ => hnone i h hi).symm, hnodup,
    fun i h hi => absurd hi (hnone i h), fun i _ h hi => absurd hi (hnone i h)⟩

/-- No step takes a socket out. -/
theorem isSome_step {n n' : Nic tcp ι} {l : Label W ι} (hstep : Step n l n')
    {h : Handle} (hsome : (n.conns h).isSome = true) : (n'.conns h).isSome = true := by
  cases hstep with
  | @openSocket i call h' start fut c hi hh hnext =>
    simp only [entered]
    by_cases heq : h = h'
    · rw [heq, Function.update_self]
      rfl
    · rw [Function.update_of_ne heq]
      exact hsome
  | @call i call h' start fut c c' hi hh hc hnext =>
    exact (update_keeps Option.isSome (by rw [hc]; rfl) h).trans hsome
  | @«section» i cx f c fut driver hf hc hfut hdriver =>
    exact (update_keeps Option.isSome (by rw [hc]; rfl) h).trans hsome
  | act => exact hsome
  | @sched l events sched _ _ =>
    simp only [scheduled]
    split
    · rw [isSome_events]
      exact hsome
    · exact hsome
  | ret => exact (update_keeps Option.isSome (Option.isSome_map ..) h).trans hsome

/-- **One socket for every call of `connect` and `accept`, for ever**: in every
reachable state `nic.sockets` holds the sockets whose handle was returned, those
of the calls that returned `Err` and those of the calls still running, each call
having one of its own; and no step takes a socket out. -/
theorem sockets_kept {n : Nic tcp ι} (h : (machine tcp ι).Reachable n) :
    (∀ h, (n.conns h).isSome = true ↔
      h ∈ n.handed ∨ h ∈ n.abandoned ∨ ∃ i, Opens n.frames i h) ∧
    (n.handed ++ n.abandoned).Nodup ∧
    (∀ i h, Opens n.frames i h → h ∉ n.handed ∧ h ∉ n.abandoned ∧
      ∀ j, Opens n.frames j h → j = i) ∧
    ∀ (l : Label W ι) n', n.next l = some n' →
      ∀ h, (n.conns h).isSome = true → (n'.conns h).isSome = true := by
  obtain ⟨hpresent, hdistinct, hfresh, hunique⟩ :=
    h.invariant (I := fun n => Owners n.conns n.frames (n.handed ++ n.abandoned))
      (fun _ => owners_init) fun _ _ _ ho hnext => owners_step ho (step_of_next hnext)
  refine ⟨fun h' => ?_, hdistinct, fun i h' ho => ?_, fun l n' hnext h' hsome => ?_⟩
  · rw [hpresent, List.mem_append, or_assoc]
  · have hnot := hfresh i h' ho
    rw [List.mem_append, not_or] at hnot
    exact ⟨hnot.1, hnot.2, fun j hj => hunique j i h' hj ho⟩
  · exact isSome_step (step_of_next hnext) hsome

/-- After the failed `connect` its socket is there, and nothing else. -/
theorem sockets_kept_after_failure : ∃ n : Nic (reference Unit) Unit,
    (machine (reference Unit) Unit).run (networkInit (reference Unit) Unit 49152)
      failedConnect = some n ∧
      n.abandoned = [0] ∧ ∀ h, (n.conns h).isSome = true ↔ h = 0 := by
  have hobserved : ((machine (reference Unit) Unit).run
      (networkInit (reference Unit) Unit 49152) failedConnect).map
        (fun n => ((n.frames ()).isNone, n.handed, n.abandoned)) =
          some (true, [], [0]) := by decide +kernel
  obtain ⟨n, hrun, hn⟩ := Option.map_eq_some_iff.mp hobserved
  obtain ⟨hframe, hhanded, habandoned⟩ : (n.frames ()).isNone = true ∧
      n.handed = [] ∧ n.abandoned = [0] := by simpa using hn
  refine ⟨n, hrun, habandoned, fun h => ?_⟩
  rw [(sockets_kept ((reachable_networkInit 49152).run hrun)).1 h, hhanded, habandoned]
  have hnone : ¬∃ i, Opens n.frames i h := by
    rintro ⟨i, f, hf, -⟩
    rw [Option.isNone_iff_eq_none.mp hframe] at hf
    cases hf
  simp only [List.not_mem_nil, List.mem_singleton, hnone, or_false, false_or]

end RustyHermit.Net.Nic
