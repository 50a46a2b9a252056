import TinyNet.Library.StepSystem
import TinyNet.Service.Starting

/-!
# Descriptors are closed once

{lit}`TCPService::stop` closes what the listeners and connectors remember, and the
workers close the sessions.  The steps that meet {lit}`sound` close only what their owner
still holds.

Main results:

- Theorem {lit}`step_inv`: steps that meet the condition keep every descriptor with one
  holder.
- Theorem {lit}`closed_at_most_once`: runs of such steps close no descriptor twice.
- Theorem {lit}`closed_twice`: a listener that could not bind, a second listener, and a
  connector whose session its worker closed.
-/

namespace TinyNet
namespace Service
namespace Descriptors

open Library.DescriptorTable
open Library.StepSystem

/-! ## The steps of {lit}`TCPService::stop` -/

theorem stopLis_inv {s : State} {i : Nat} {ret : Ret} (h : Inv s) (hpc : s.pc = .stopLis i)
    (hsound : sound s (.main ret) = true) :
    Inv ((s.setPc (.stopEpoll i)).close (s.listeners i).lisFd) := by
  simp only [sound, hpc, Bool.and_eq_true, Bool.or_eq_true, decide_eq_true_iff] at hsound
  rcases hsound with ⟨rfl, hlis⟩
  have hlater : s.pc.Later (.stopEpoll 0) := by
    rw [hpc]
    constructor <;> simp [Pc.beforeThread, Pc.beforeSocket, Pc.starting, Pc.lisClosed,
      Pc.epollClosed, Pc.connStopped]
  rcases hlis with hfd | hthread
  · rw [hfd]
    exact (h.setPc hlater).close_of_neg (by decide)
  · refine h.close (h.links.setPc hlater) rfl (.listener 0) ?_
      fun r _ => holds_setPc_sublist hlater r
    simp [State.holds, State.setPc, hpc, hthread, Pc.lisClosed]

theorem stopEpoll_inv {s : State} {i : Nat} {ret : Ret} (h : Inv s) (hpc : s.pc = .stopEpoll i)
    (hsound : sound s (.main ret) = true) :
    Inv ((s.setPc (.stopJoin i)).close s.scheder.epollFd) := by
  simp only [sound, hpc, decide_eq_true_iff] at hsound
  subst hsound
  have hlater : s.pc.Later (.stopJoin 0) := by
    rw [hpc]
    constructor <;> simp [Pc.beforeThread, Pc.beforeSocket, Pc.starting, Pc.lisClosed,
      Pc.epollClosed, Pc.connStopped]
  by_cases hfd : s.scheder.epollFd = -1
  · rw [hfd]
    exact (h.setPc hlater).close_of_neg (by decide)
  · refine h.close (h.links.setPc hlater) rfl .epoll ?_ fun r _ => holds_setPc_sublist hlater r
    simp [State.holds, State.setPc, hpc, hfd, Pc.epollClosed]

theorem stopJoin_inv {cfg : Config} {s s' : State} {i : Nat} (h : Inv s)
    (hpc : s.pc = .stopJoin i) (hstep : s.stopJoin cfg i = some s') : Inv s' := by
  unfold State.stopJoin at hstep
  cases hthread : (s.listeners i).thread with
  | unstarted =>
      rw [hthread] at hstep
      obtain rfl := Option.some.inj hstep
      apply h.setPc
      rw [hpc]
      constructor <;> simp [Pc.beforeThread, Pc.beforeSocket, Pc.starting, Pc.lisClosed,
        Pc.epollClosed, Pc.connStopped]
  | running =>
      rw [hthread] at hstep
      contradiction
  | ended =>
      rw [hthread] at hstep
      obtain rfl := Option.some.inj hstep
      apply h.setPc
      rw [hpc]
      exact Pc.later_nextStop cfg (by simp) (by simp) (by simp) (by simp [Pc.connStopped])

theorem Links.stopConn {cfg : Config} {s : State} {j : Nat} (h : Links s)
    (hlater : s.pc.Later (cfg.nextStopConn (j + 1))) :
    Links ((s.setConnector j { s.connectors j with stopped := true }).setPc
      (cfg.nextStopConn (j + 1))) := by
  have hpast : (cfg.nextStopConn (j + 1)).connStopped j = true := by
    unfold Config.nextStopConn
    split_ifs <;> simp [Pc.connStopped]
  have hsame : ∀ j', Function.update s.connectors j { s.connectors j with stopped := true } j' =
      { s.connectors j' with stopped := j' = j || (s.connectors j').stopped } := by
    intro j'
    rcases eq_or_ne j' j with rfl | hne
    · simp
    · simp [hne]
  constructor
  · exact fun i hi => h.unstarted i (hlater.beforeThread i hi)
  · intro j' hj'
    simpa [State.setPc, State.setConnector, hsame] using
      h.unconnected j' (hlater.beforeSocket j' hj')
  · intro j' hj'
    simpa [State.setPc, State.setConnector, hsame] using
      h.connecting j' (hlater.connecting j' hj')
  · intro j' hj'
    simp only [State.setPc, State.setConnector, hsame, Bool.or_eq_true, decide_eq_true_iff] at hj'
    rcases hj' with rfl | hj'
    · exact hpast
    · exact hlater.connStopped j' (h.stopped j' hj')
  · intro j' k hk
    simp only [State.setPc, State.setConnector, hsame] at hk
    exact h.session_lt j' k hk
  · intro k j' hk hconn
    simpa [State.setPc, State.setConnector, hsame] using h.session k j' hk hconn
  · exact h.closed

theorem stopConn_inv {cfg : Config} {s : State} {j : Nat} {ret : Ret} (h : Inv s)
    (hpc : s.pc = .stopConn j) (hsound : sound s (.main ret) = true) :
    Inv (s.stopConn cfg j) := by
  simp only [sound, hpc, Bool.and_eq_true, Bool.not_eq_true'] at hsound
  rcases hsound with ⟨hstarted, hopen⟩
  have hlater : s.pc.Later (cfg.nextStopConn (j + 1)) := by
    rw [hpc]
    apply Pc.later_nextStopConn cfg (by simp)
    intro j' hj'
    have hlt : j' < j := by simpa [Pc.connStopped] using hj'
    omega
  have hstopped : (s.connectors j).stopped = false := by
    rw [Bool.eq_false_iff]
    intro hj
    have hpast := h.links.stopped j hj
    simp [hpc, Pc.connStopped] at hpast
  have hlinks := h.links.stopConn hlater
  have hdropped : (((s.setConnector j { s.connectors j with stopped := true }).setPc
      (cfg.nextStopConn (j + 1))).holds (.connector j)) = [] := by
    simp [State.holds, State.setPc, State.setConnector]
  have hother : ∀ r, r ≠ .connector j →
      (((s.setConnector j { s.connectors j with stopped := true }).setPc
        (cfg.nextStopConn (j + 1))).holds r).Sublist (s.holds r) := by
    intro r hr
    exact (holds_setConnector_of_ne (s.setPc _) _ hr).symm ▸ holds_setPc_sublist hlater r
  unfold State.stopConn
  by_cases hfd : (s.connectors j).fd = -1
  · rw [hfd]
    refine Inv.close_of_neg ?_ (by decide)
    refine h.mono rfl ?_ hlinks
    intro p
    by_cases hp : p = .connector j
    · rw [hp, hdropped]
      exact List.nil_sublist _
    · exact hother p hp
  · refine h.close hlinks rfl (.connector j) ?_ hother
    rw [hdropped]
    simp [State.holds, hstarted, hstopped, hfd, hopen]

theorem mainStep_inv {cfg : Config} {s s' : State} {ret : Ret} (h : Inv s)
    (hsound : sound s (.main ret) = true) (hstep : s.mainStep cfg ret = some s') : Inv s' := by
  unfold State.mainStep at hstep
  cases hpc : s.pc with
  | epollCreate => exact epollCreate_inv h hpc (by simpa [hpc] using hstep)
  | procCreate k => exact procCreate_inv h hpc (by simpa [hpc] using hstep)
  | lisSocket i => exact lisSocket_inv h hpc (by simpa [hpc] using hstep)
  | lisBind i =>
      have hnext : s.pc.Later (.lisListen i) := by
        rw [hpc]
        constructor <;> simp [Pc.beforeThread, Pc.beforeSocket, Pc.starting, Pc.lisClosed,
          Pc.epollClosed, Pc.connStopped]
      exact lisCall_inv h (.inl hpc) hnext (by simpa [hpc] using hstep)
  | lisListen i =>
      have hnext : s.pc.Later (.lisThread i) := by
        rw [hpc]
        constructor <;> simp [Pc.beforeThread, Pc.beforeSocket, Pc.starting, Pc.lisClosed,
          Pc.epollClosed, Pc.connStopped]
      exact lisCall_inv h (.inr hpc) hnext (by simpa [hpc] using hstep)
  | lisThread i => exact lisThread_inv h hpc (by simpa [hpc] using hstep)
  | connSocket j => exact connSocket_inv h hpc (by simpa [hpc] using hstep)
  | connConnect j => exact connConnect_inv h hpc (by simpa [hpc] using hstep)
  | started =>
      rw [hpc] at hstep
      obtain rfl := Option.some.inj hstep
      apply h.setPc
      rw [hpc]
      exact Pc.later_nextStop cfg (by simp) (by simp [Pc.lisClosed]) (by simp [Pc.epollClosed])
        (by simp [Pc.connStopped])
  | stopLis i =>
      rw [hpc] at hstep
      obtain rfl := Option.some.inj hstep
      exact stopLis_inv h hpc hsound
  | stopEpoll i =>
      rw [hpc] at hstep
      obtain rfl := Option.some.inj hstep
      exact stopEpoll_inv h hpc hsound
  | stopJoin i => exact stopJoin_inv h hpc (by simpa [hpc] using hstep)
  | stopConn j =>
      rw [hpc] at hstep
      obtain rfl := Option.some.inj hstep
      exact stopConn_inv h hpc hsound
  | stopped =>
      rw [hpc] at hstep
      contradiction

/-! ## The steps of the listener threads and of the workers -/

theorem accept_inv {s s₁ : State} {fd : Int} (h : Inv s) (hhand : s.handOut fd = some s₁) :
    Inv (s₁.push fd none) := by
  rcases State.handOut_eq_some hhand with ⟨kernel, hkernel, rfl⟩
  refine h.handOut (p := .session s.created) hkernel ?_ ?_ ?_
  · rw [holds_session_created]
    simp [State.holds, State.push]
  · intro r hr
    exact holds_push_of_ne h.links fd none hr
  · constructor
    · exact h.links.unstarted
    · exact h.links.unconnected
    · exact h.links.connecting
    · exact h.links.stopped
    · exact fun j k hk => Nat.lt_succ_of_lt (h.links.session_lt j k hk)
    · intro k j hk hconn
      have hk' : k < s.created + 1 := hk
      rcases eq_or_ne k s.created with rfl | hne
      · simp [State.push] at hconn
      · simp only [State.push, Function.update_of_ne hne] at hconn ⊢
        exact h.links.session k j (by omega) hconn
    · intro k hk
      rcases eq_or_ne k s.created with rfl | hne
      · simp [State.push] at hk
      · simp only [State.push, Function.update_of_ne hne] at hk ⊢
        exact h.links.closed k hk

theorem listenerEnds_inv {s : State} {i : Nat} (h : Inv s)
    (hrunning : (s.listeners i).thread = .running) :
    Inv (s.setListener i { s.listeners i with thread := .ended }) := by
  refine h.mono rfl ?_ (h.links.setListener ?_)
  · intro p
    by_cases hp : p = .listener i
    · rw [hp]
      simp [State.holds, State.setListener, hrunning]
    · rw [holds_setListener_of_ne s _ hp]
  · intro hbefore
    rw [h.links.unstarted i hbefore] at hrunning
    contradiction

/-- The session {lit}`x` is the session {lit}`y` at a later time. -/
structure Session.After (x y : Session) : Prop where
  fd : x.fd = y.fd
  connector : x.connector = y.connector
  closed : x.closed = false → y.closed = false

theorem sessionClosed_setSession {s : State} {k j : Nat} {x : Session}
    (hx : x.After (s.sessions k)) (h : (s.setSession k x).sessionClosed j = false) :
    s.sessionClosed j = false := by
  rw [sessionClosed_eq_false_iff] at h ⊢
  intro k' hsession
  have hclosed := h k' hsession
  rcases eq_or_ne k' k with rfl | hne
  · exact hx.closed (by simpa [State.setSession] using hclosed)
  · simpa [State.setSession, Function.update_of_ne hne] using hclosed

/-- A session holds no more than it did before. -/
theorem holds_setSession_sublist {s : State} {k : Nat} {x : Session}
    (hx : x.After (s.sessions k)) (p : Place) :
    ((s.setSession k x).holds p).Sublist (s.holds p) := by
  cases p with
  | epoll => exact List.Sublist.refl _
  | listener i => exact List.Sublist.refl _
  | connector j =>
      refine sublist_ite ?_ _
      exact fun hc => ⟨hc.1, hc.2.1, hc.2.2.1, sessionClosed_setSession hx hc.2.2.2⟩
  | session k' =>
      rcases eq_or_ne k' k with rfl | hne
      · have hfd : ((s.setSession k' x).sessions k').fd = (s.sessions k').fd := by
          simpa [State.setSession] using hx.fd
        simp only [State.holds, hfd]
        refine sublist_ite ?_ _
        simp only [State.setSession, Function.update_self, hx.connector]
        exact fun hc => ⟨hc.1, hc.2.1, hx.closed hc.2.2⟩
      · simp [State.holds, State.setSession, Function.update_of_ne hne]

theorem Links.setSession {s : State} {k : Nat} {x : Session} (h : Links s)
    (hx : x.After (s.sessions k))
    (hclosed : x.closed = true → x.pending = false ∧ x.registered = false) :
    Links (s.setSession k x) where
  unstarted := h.unstarted
  unconnected := h.unconnected
  connecting := h.connecting
  stopped := h.stopped
  session_lt := h.session_lt
  session k' j hk' hconn := by
    rcases eq_or_ne k' k with rfl | hne
    · simp only [State.setSession, Function.update_self, hx.connector] at hconn
      simpa [State.setSession, hx.fd] using h.session k' j hk' hconn
    · simp only [State.setSession, Function.update_of_ne hne] at hconn ⊢
      exact h.session k' j hk' hconn
  closed k' hk' := by
    rcases eq_or_ne k' k with rfl | hne
    · simp only [State.setSession, Function.update_self] at hk' ⊢
      exact hclosed hk'
    · simp only [State.setSession, Function.update_of_ne hne] at hk' ⊢
      exact h.closed k' hk'

theorem Inv.setSession {s : State} {k : Nat} {x : Session} (h : Inv s)
    (hx : x.After (s.sessions k))
    (hclosed : x.closed = true → x.pending = false ∧ x.registered = false) :
    Inv (s.setSession k x) :=
  h.mono rfl (holds_setSession_sublist hx) (h.links.setSession hx hclosed)

theorem Inv.epollDel {s : State} (h : Inv s) (fd : Int) : Inv (s.epollDel fd) := by
  refine h.mono rfl ?_ (h.links.epollDel fd)
  intro p
  rw [holds_epollDel]

/-- A session that its worker has not closed is held, by itself or by its connector. -/
theorem Inv.holds_session {s : State} (h : Inv s) {k : Nat} (hk : k < s.created)
    (hopen : (s.sessions k).closed = false) (hsound : sound s (.handle k .close) = true) :
    ∃ p, s.holds p = [(s.sessions k).fd] ∧
      ∀ x : Session, x.closed = true → (s.setSession k x).holds p = [] := by
  cases hconn : (s.sessions k).connector with
  | none =>
      refine ⟨.session k, by simp [State.holds, hk, hconn, hopen], ?_⟩
      intro x hx
      simp [State.holds, State.setSession, hx]
  | some j =>
      rcases h.links.session k j hk hconn with ⟨hstarted, hfd, hsession, hsame⟩
      simp only [sound, hconn, Bool.not_eq_true'] at hsound
      refine ⟨.connector j, ?_, ?_⟩
      · simp [State.holds, State.sessionClosed, hstarted, hsound, hfd, hsession, hopen, hsame]
      · intro x hx
        simp [State.holds, State.setSession, State.sessionClosed, hsession, hx]

theorem handle_inv {s : State} {k : Nat} {outcome : Outcome} (h : Inv s)
    (hk : k < s.created) (hpending : (s.sessions k).pending = true)
    (hsound : sound s (.handle k outcome) = true) : Inv (s.handle k outcome) := by
  have hopen : (s.sessions k).closed = false := by
    rw [Bool.eq_false_iff]
    intro hclosed
    rw [(h.links.closed k hclosed).1] at hpending
    contradiction
  cases outcome with
  | keep =>
      refine h.setSession ⟨rfl, rfl, fun hc => hc⟩ ?_
      intro hclosed
      exact absurd hclosed (by simp [hopen])
  | drop =>
      apply Inv.epollDel
      refine h.setSession ⟨rfl, rfl, fun hc => hc⟩ ?_
      intro hclosed
      exact absurd hclosed (by simp [hopen])
  | close =>
      rcases h.holds_session hk hopen hsound with ⟨p, hp, hdropped⟩
      have hafter : Session.After
          { s.sessions k with pending := false, registered := false, closed := true }
          (s.sessions k) := ⟨rfl, rfl, by simp⟩
      refine h.close ((h.links.setSession hafter fun _ => ⟨rfl, rfl⟩).epollDel _) rfl p ?_ ?_
      · rw [holds_epollDel, hp, hdropped _ rfl]
      · intro r _
        rw [holds_epollDel]
        exact holds_setSession_sublist hafter r

/-! ## Whole runs -/

/-- Steps that meet the condition keep every descriptor with one holder. -/
theorem step_inv {cfg : Config} {s s' : State} {a : Action} (h : Inv s)
    (hsound : sound s a = true) (hstep : step cfg s a = some s') : Inv s' := by
  cases a with
  | main ret => exact mainStep_inv h hsound hstep
  | accept i fd =>
      simp only [step, Option.ite_none_right_eq_some] at hstep
      rcases Option.map_eq_some_iff.mp hstep.2 with ⟨s₁, hhand, rfl⟩
      exact accept_inv h hhand
  | listenerEnds i =>
      simp only [step, Option.ite_none_right_eq_some, Option.some.injEq] at hstep
      rcases hstep with ⟨hrunning, rfl⟩
      exact listenerEnds_inv h hrunning
  | epollWait k =>
      simp only [step, Option.ite_none_right_eq_some, Option.some.injEq] at hstep
      rcases hstep with ⟨⟨-, hregistered, -⟩, rfl⟩
      refine h.setSession ⟨rfl, rfl, fun hc => hc⟩ ?_
      intro hclosed
      rw [(h.links.closed k hclosed).2] at hregistered
      contradiction
  | handle k outcome =>
      simp only [step, Option.ite_none_right_eq_some, Option.some.injEq] at hstep
      rcases hstep with ⟨⟨hk, hpending⟩, rfl⟩
      exact handle_inv h hk hpending hsound

/-- No descriptor is closed twice in a run whose closing steps meet the condition. -/
theorem closed_at_most_once (cfg : Config) (others : Int → Bool) (garbage : Nat → Int)
    (acts : List Action)
    (hsound : EachStep (step cfg) (fun s a => sound s a = true) (start others garbage) acts) :
    Always (step cfg) (fun s => s.kernel.ClosedAtMostOnce) (start others garbage) acts :=
  always_of_eachStep (fun _ _ _ h hok hstep => step_inv h hok hstep) (fun _ h => h.table.le_one)
    (start_inv others garbage) hsound

/-- {lit}`Scheduler::start` gets the descriptors 0 to 50. -/
def schedulerStarts : List Action :=
  (List.range (MAX_THREAD + 1)).map fun fd => .main (.fd fd)

/-- Nothing else is open, and uninitialised descriptors are -1. -/
def fresh : State :=
  start (fun _ => false) (fun _ => -1)

/-- A service with one listener and one connector, and an event handler. -/
def oneOfEach : Config :=
  { listeners := 1, connectors := 1, evtHandler := true }

/-- A listener and a connector are started, a session is accepted and closed by its
peer, and the service is stopped. -/
def ordinaryLife : List Action :=
  schedulerStarts ++
    [.main (.fd 51), .main .ok, .main .ok, .main .ok, .main (.fd 52), .main .ok, .accept 0 53,
      .epollWait 1, .handle 1 .close, .main .ok, .main .ok, .main .ok, .listenerEnds 0,
      .main .ok, .main .ok]

theorem closed_at_most_once_ordinaryLife :
    Always (step oneOfEach) (fun s => s.kernel.ClosedAtMostOnce) fresh ordinaryLife ∧
      (run (step oneOfEach) fresh ordinaryLife).map
        (fun s => [0, 51, 52, 53].map s.kernel.closes) = some [1, 1, 1, 1] := by
  refine ⟨closed_at_most_once _ _ _ _ ?_, by decide⟩
  exact eachStep_of_checkSteps (fun s a h => h) (by decide)

/-- A listener whose {lit}`bind` fails, and then {lit}`stop`. -/
def bindFails : List Action :=
  schedulerStarts ++ [.main (.fd 51), .main .fail, .main .ok, .main .ok]

/-- Two listeners that are started and then stopped. -/
def twoListeners : List Action :=
  schedulerStarts ++
    [.main (.fd 51), .main .ok, .main .ok, .main .ok, .main (.fd 52), .main .ok, .main .ok,
      .main .ok, .main .ok, .main .ok, .main .ok, .listenerEnds 0, .main .ok, .main .ok, .main .ok]

/-- A connector whose peer closes the connection, and then {lit}`stop`. -/
def peerCloses : List Action :=
  schedulerStarts ++
    [.main (.fd 51), .main .ok, .epollWait 0, .handle 0 .close, .main .ok, .main .ok]

/-- The run closes the descriptor twice without its being handed out in between. -/
def ClosesTwice (cfg : Config) (acts : List Action) (fd : Int) : Prop :=
  ∃ s, run (step cfg) fresh acts = some s ∧ s.kernel.closes fd = 2 ∧
    ¬s.kernel.ClosedAtMostOnce

theorem closesTwice_of_run {cfg : Config} {acts : List Action} {fd : Int}
    (h : (run (step cfg) fresh acts).map (fun s => (s.kernel.handedOut fd, s.kernel.closes fd)) =
      some (true, 2)) : ClosesTwice cfg acts fd := by
  rcases Option.map_eq_some_iff.mp h with ⟨s, hs, heq⟩
  rw [Prod.mk.injEq] at heq
  refine ⟨s, hs, heq.2, ?_⟩
  intro honce
  have hle := honce fd heq.1
  omega

/-- {lit}`Listener::stop` closes the socket of a listener that could not bind once more;
the second listener closes the epoll descriptor once more; {lit}`Connector::stop` closes
the descriptor of a session that its worker has closed. -/
theorem closed_twice :
    ClosesTwice { listeners := 1, connectors := 0, evtHandler := true } bindFails 51 ∧
      ClosesTwice { listeners := 2, connectors := 0, evtHandler := true } twoListeners 0 ∧
      ClosesTwice { listeners := 0, connectors := 1, evtHandler := true } peerCloses 51 := by
  refine ⟨?_, ?_, ?_⟩
  · exact closesTwice_of_run (by decide)
  · exact closesTwice_of_run (by decide)
  · exact closesTwice_of_run (by decide)

end Descriptors
end Service
end TinyNet
