import TinyNet.Service.Holding

/-!
# Starting a service

Every step of {lit}`TCPService::start` keeps the invariant, whatever the system calls
return: a listener that fails gives up its socket when it closes it, and a connector that
fails keeps its own.

Main results:

- Theorems {lit}`epollCreate_inv` and {lit}`procCreate_inv`: {lit}`Scheduler::start`.
- Theorems {lit}`lisSocket_inv`, {lit}`lisCall_inv` and {lit}`lisThread_inv`:
  {lit}`Listener::start`.
- Theorems {lit}`connSocket_inv` and {lit}`connConnect_inv`: {lit}`Connector::start`.
-/

namespace TinyNet
namespace Service
namespace Descriptors

open Library.DescriptorTable

/-! ## The scheduler -/

@[simp]
theorem starting_nextListen (cfg : Config) (i i' : Nat) :
    (cfg.nextListen i').starting i = false := by
  unfold Config.nextListen Config.nextConnect
  split_ifs <;> rfl

theorem epollCreate_inv {s s' : State} {ret : Ret} (h : Inv s) (hpc : s.pc = .epollCreate)
    (hstep : s.epollCreate ret = some s') : Inv s' := by
  have hthreads : ∀ i, (s.listeners i).thread = .unstarted :=
    fun i => h.links.unstarted i (by simp [hpc, Pc.beforeThread])
  have hconns : ∀ j, (s.connectors j).started = false ∧ (s.connectors j).session = none :=
    fun j => h.links.unconnected j (by simp [hpc, Pc.beforeSocket])
  have hstopped : ∀ j, (s.connectors j).stopped = true → False :=
    fun j hj => absurd (h.links.stopped j hj) (by simp [hpc, Pc.connStopped])
  cases ret with
  | ok => contradiction
  | fail =>
      obtain rfl := Option.some.inj hstep
      refine h.mono rfl ?_ ?_
      · intro p
        cases p with
        | epoll => simp [State.holds]
        | listener i => simp [State.holds, hpc, Pc.starting, Pc.lisClosed]
        | connector j => exact List.Sublist.refl _
        | session k => exact List.Sublist.refl _
      · exact ⟨fun i _ => hthreads i, fun j _ => hconns j, by simp,
          fun j hj => (hstopped j hj).elim, h.links.session_lt, h.links.session, h.links.closed⟩
  | fd fd =>
      rcases State.handOut_bind_eq_some hstep with ⟨kernel, hkernel, hfd, rfl⟩
      apply h.handOut (p := .epoll) hkernel
      · simp [State.holds, hpc, hfd, Pc.epollClosed]
      · intro r hr
        cases r with
        | epoll => contradiction
        | listener i => simp [State.holds, hpc, Pc.starting, Pc.lisClosed]
        | connector j => rfl
        | session k => rfl
      · exact ⟨fun i _ => hthreads i, fun j _ => hconns j, by simp,
          fun j hj => (hstopped j hj).elim, h.links.session_lt, h.links.session, h.links.closed⟩

theorem later_procCreate (cfg : Config) (k : Nat) :
    Pc.Later (.procCreate k)
      (if k + 1 < MAX_THREAD then .procCreate (k + 1) else cfg.nextListen 0) := by
  split_ifs
  · constructor <;> simp [Pc.beforeThread, Pc.beforeSocket, Pc.starting, Pc.lisClosed,
      Pc.epollClosed, Pc.connStopped]
  · apply Pc.later_nextListen <;> simp [Pc.beforeThread, Pc.beforeSocket, Pc.lisClosed,
      Pc.epollClosed, Pc.connStopped]

theorem procCreate_inv {cfg : Config} {s s' : State} {k : Nat} {ret : Ret} (h : Inv s)
    (hpc : s.pc = .procCreate k) (hstep : s.procCreate cfg k ret = some s') : Inv s' := by
  cases ret with
  | ok => contradiction
  | fail =>
      obtain rfl := Option.some.inj hstep
      have hlater : s.pc.Later .started := by
        rw [hpc]
        constructor <;> simp [Pc.beforeThread, Pc.beforeSocket, Pc.starting, Pc.lisClosed,
          Pc.epollClosed, Pc.connStopped]
      exact h.mono rfl (holds_setPc_sublist hlater)
        ((h.links.setPc hlater).congr rfl rfl rfl rfl rfl)
  | fd fd =>
      rcases State.handOut_bind_eq_some hstep with ⟨kernel, hkernel, -, rfl⟩
      have hlater := later_procCreate cfg k
      rw [← hpc] at hlater
      refine ⟨h.table.handOut hkernel, ?_, (h.links.setPc hlater).congr rfl rfl rfl rfl rfl⟩
      exact h.separated.mono (holds_setPc_sublist hlater)
        fun _ _ _ hused => hused.of_handOut hkernel

/-! ## Listeners -/

/-- A listener whose thread was not started and is not being started holds nothing. -/
theorem holds_listener_eq_nil {s : State} {i : Nat} (hthread : (s.listeners i).thread = .unstarted)
    (hstarting : s.pc.starting i = false) : s.holds (.listener i) = [] := by
  simp [State.holds, hthread, hstarting]

/-- A listener whose socket was made, and whose thread is still to be started, holds the
socket. -/
theorem holds_listener_of_starting {s : State} {i : Nat} (hstarting : s.pc.starting i = true)
    (hclosed : s.pc.lisClosed = false) : s.holds (.listener i) = [(s.listeners i).lisFd] := by
  simp [State.holds, hstarting, hclosed]

theorem holds_setListener_of_ne (s : State) {i : Nat} (lis : Listener) {p : Place}
    (hp : p ≠ .listener i) : (s.setListener i lis).holds p = s.holds p := by
  cases p with
  | listener i' =>
      have hi : i' ≠ i := fun hi => hp (by rw [hi])
      simp [State.holds, State.setListener, Function.update_of_ne hi]
  | epoll => rfl
  | connector j => rfl
  | session k => rfl

theorem Links.setListener {s : State} (h : Links s) {i : Nat} {lis : Listener}
    (hthread : s.pc.beforeThread i = true → lis.thread = .unstarted) :
    Links (s.setListener i lis) where
  unstarted i' hi' := by
    by_cases hi : i' = i
    · subst hi
      simpa [State.setListener] using hthread hi'
    · simpa [State.setListener, Function.update_of_ne hi] using h.unstarted i' hi'
  unconnected := h.unconnected
  connecting := h.connecting
  stopped := h.stopped
  session_lt := h.session_lt
  session := h.session
  closed := h.closed

theorem later_nextListen_succ (cfg : Config) {pc : Pc} {i : Nat}
    (hpc : pc ∈ [.lisSocket i, .lisBind i, .lisListen i, .lisThread i]) :
    pc.Later (cfg.nextListen (i + 1)) := by
  simp only [List.mem_cons, List.not_mem_nil, or_false] at hpc
  rcases hpc with rfl | rfl | rfl | rfl <;>
    exact Pc.later_nextListen cfg (by simp) (by simp [Pc.beforeThread]; omega)
      (by simp [Pc.beforeSocket]) rfl rfl (by simp [Pc.connStopped])

/-- A listener gets its socket. -/
theorem Links.lisBind {s : State} {i : Nat} {fd : Int} (h : Links s) (hpc : s.pc = .lisSocket i) :
    Links ((s.setListener i { s.listeners i with lisFd := fd }).setPc (.lisBind i)) := by
  constructor
  · intro i' hi'
    have hold : s.pc.beforeThread i' = true := by
      simpa [State.setPc, hpc, Pc.beforeThread] using hi'
    by_cases hi : i' = i
    · subst hi
      simpa [State.setPc, State.setListener] using h.unstarted i' hold
    · simpa [State.setPc, State.setListener, Function.update_of_ne hi] using h.unstarted i' hold
  · exact fun j _ => h.unconnected j (by simp [hpc, Pc.beforeSocket])
  · simp [State.setPc]
  · exact fun j hj => absurd (h.stopped j hj) (by simp [hpc, Pc.connStopped])
  · exact h.session_lt
  · exact h.session
  · exact h.closed

theorem lisSocket_inv {cfg : Config} {s s' : State} {i : Nat} {ret : Ret} (h : Inv s)
    (hpc : s.pc = .lisSocket i) (hstep : s.lisSocket cfg i ret = some s') : Inv s' := by
  have hthread : (s.listeners i).thread = .unstarted :=
    h.links.unstarted i (by simp [hpc, Pc.beforeThread])
  have hnone : s.holds (.listener i) = [] :=
    holds_listener_eq_nil hthread (by simp [hpc, Pc.starting])
  cases ret with
  | ok => contradiction
  | fail =>
      obtain rfl := Option.some.inj hstep
      have hlinks : Links (s.setListener i { s.listeners i with lisFd := -1 }) :=
        h.links.setListener fun _ => hthread
      have hinv : Inv (s.setListener i { s.listeners i with lisFd := -1 }) := by
        refine h.mono rfl ?_ hlinks
        intro p
        by_cases hp : p = .listener i
        · rw [hp, holds_listener_eq_nil]
          · exact List.nil_sublist _
          · simpa [State.setListener] using hthread
          · simp [State.setListener, hpc, Pc.starting]
        · rw [holds_setListener_of_ne s _ hp]
      exact hinv.setPc (later_nextListen_succ cfg (by simp [State.setListener, hpc]))
  | fd fd =>
      rcases State.handOut_bind_eq_some hstep with ⟨kernel, hkernel, -, rfl⟩
      apply h.handOut (p := .listener i) hkernel
      · rw [hnone, holds_listener_of_starting]
        · simp [State.setListener, State.setPc]
        · simp [State.setPc, Pc.starting]
        · rfl
      · intro r hr
        cases r with
        | epoll => simp [State.holds, State.setPc, State.setListener, hpc, Pc.epollClosed]
        | listener i' =>
            have hi : i' ≠ i := fun hi => hr (by rw [hi])
            simp [State.holds, State.setPc, State.setListener, hpc, Pc.starting, hi, hi.symm,
              Pc.lisClosed]
        | connector j => rfl
        | session k => rfl
      · exact (h.links.lisBind hpc).congr rfl rfl rfl rfl rfl

/-- {lit}`bind` and {lit}`listen`. -/
theorem lisCall_inv {cfg : Config} {s s' : State} {i : Nat} {next : Pc} {ret : Ret} (h : Inv s)
    (hpc : s.pc = .lisBind i ∨ s.pc = .lisListen i) (hnext : s.pc.Later next)
    (hstep : s.lisCall cfg i next ret = some s') : Inv s' := by
  have hlater : s.pc.Later (cfg.nextListen (i + 1)) :=
    later_nextListen_succ cfg (by rcases hpc with hpc | hpc <;> simp [hpc])
  have hstarting : s.pc.starting i = true := by
    rcases hpc with hpc | hpc <;> simp [hpc, Pc.starting]
  have hclosed : s.pc.lisClosed = false := by
    rcases hpc with hpc | hpc <;> simp [hpc, Pc.lisClosed]
  have hthread : (s.listeners i).thread = .unstarted := by
    apply h.links.unstarted
    rcases hpc with hpc | hpc <;> simp [hpc, Pc.beforeThread]
  cases ret with
  | fd fd => contradiction
  | ok =>
      obtain rfl := Option.some.inj hstep
      exact h.setPc hnext
  | fail =>
      obtain rfl := Option.some.inj hstep
      have hdropped : (s.setPc (cfg.nextListen (i + 1))).holds (.listener i) = [] :=
        holds_listener_eq_nil hthread (starting_nextListen cfg i (i + 1))
      refine h.close (h.links.setPc hlater) rfl (.listener i) ?_
        fun r _ => holds_setPc_sublist hlater r
      rw [hdropped]
      exact holds_listener_of_starting hstarting hclosed

theorem lisThread_inv {cfg : Config} {s s' : State} {i : Nat} {ret : Ret} (h : Inv s)
    (hpc : s.pc = .lisThread i) (hstep : s.lisThread cfg i ret = some s') : Inv s' := by
  have hlater : s.pc.Later (cfg.nextListen (i + 1)) := later_nextListen_succ cfg (by simp [hpc])
  have hthread : (s.listeners i).thread = .unstarted :=
    h.links.unstarted i (by simp [hpc, Pc.beforeThread])
  have hholds : s.holds (.listener i) = [(s.listeners i).lisFd] :=
    holds_listener_of_starting (by simp [hpc, Pc.starting]) (by simp [hpc, Pc.lisClosed])
  cases ret with
  | fd fd => contradiction
  | ok =>
      obtain rfl := Option.some.inj hstep
      have hpast : (cfg.nextListen (i + 1)).beforeThread i = false := by
        unfold Config.nextListen Config.nextConnect
        split_ifs <;> simp [Pc.beforeThread]
      refine h.mono rfl ?_ ((h.links.setPc hlater).setListener ?_)
      · intro p
        by_cases hp : p = .listener i
        · rw [hp, hholds]
          simp [State.holds, State.setPc, State.setListener]
        · exact (holds_setListener_of_ne (s.setPc _) _ hp).symm ▸ holds_setPc_sublist hlater p
      · intro hbefore
        rw [show (s.setPc (cfg.nextListen (i + 1))).pc = cfg.nextListen (i + 1) from rfl,
          hpast] at hbefore
        contradiction
  | fail =>
      simp only [State.lisThread] at hstep
      split_ifs at hstep with hfd
      · obtain rfl := Option.some.inj hstep
        exact h.setPc hlater
      · obtain rfl := Option.some.inj hstep
        have hlinks : Links (s.setListener i { s.listeners i with lisFd := -1 }) :=
          h.links.setListener fun _ => hthread
        refine h.close (hlinks.setPc hlater) rfl (.listener i) ?_ ?_
        · rw [hholds, holds_listener_eq_nil]
          · simpa [State.setPc, State.setListener] using hthread
          · exact starting_nextListen cfg i (i + 1)
        · intro r hr
          exact (holds_setListener_of_ne (s.setPc _) _ hr).symm ▸ holds_setPc_sublist hlater r

/-! ## Connectors -/

theorem holds_connector_congr {s s' : State} {j : Nat} (hconn : s'.connectors j = s.connectors j)
    (hclosed : s'.sessionClosed j = s.sessionClosed j) :
    s'.holds (.connector j) = s.holds (.connector j) := by
  simp only [State.holds, hconn, hclosed]

theorem holds_setConnector_of_ne (s : State) {j : Nat} (conn : Connector) {p : Place}
    (hp : p ≠ .connector j) : (s.setConnector j conn).holds p = s.holds p := by
  cases p with
  | connector j' =>
      have hj : j' ≠ j := fun hj => hp (by rw [hj])
      have hconn : (s.setConnector j conn).connectors j' = s.connectors j' :=
        Function.update_of_ne hj ..
      exact holds_connector_congr hconn (sessionClosed_congr (by rw [hconn]) fun _ _ => rfl)
  | epoll => rfl
  | listener i => rfl
  | session k => rfl

/-- A connector that was not started holds nothing. -/
theorem holds_connector_eq_nil {s : State} {j : Nat} (h : (s.connectors j).started = false) :
    s.holds (.connector j) = [] := by
  simp [State.holds, h]

theorem later_nextConnect_succ (cfg : Config) {pc : Pc} {j : Nat}
    (hpc : pc ∈ [.connSocket j, .connConnect j]) : pc.Later (cfg.nextConnect (j + 1)) := by
  simp only [List.mem_cons, List.not_mem_nil, or_false] at hpc
  rcases hpc with rfl | rfl
  all_goals
    refine Pc.later_nextConnect cfg (by simp) ?_ rfl rfl (by simp [Pc.connStopped])
    intro j' hj'
    simp only [Pc.beforeSocket, decide_eq_true_iff]
    omega

/-- The program points after {lit}`socket` for connector {lit}`j`. -/
structure Pc.AfterSocket (pc : Pc) (j : Nat) (fd : Int) : Prop where
  beforeThread : ∀ i, pc.beforeThread i = false
  beforeSocket : ∀ j', pc.beforeSocket j' = true → j < j'
  connecting : ∀ j', pc = .connConnect j' → j' = j ∧ fd ≠ -1

theorem Pc.afterSocket_nextConnect (cfg : Config) (j : Nat) (fd : Int) :
    (cfg.nextConnect (j + 1)).AfterSocket j fd := by
  unfold Config.nextConnect
  split_ifs
  · exact ⟨fun _ => rfl, by simp [Pc.beforeSocket], by simp⟩
  · exact ⟨fun _ => rfl, by simp [Pc.beforeSocket], by simp⟩

theorem Links.connSocket {s : State} {j : Nat} {fd : Int} {pc : Pc} (h : Links s)
    (hpc : s.pc = .connSocket j) (hafter : pc.AfterSocket j fd) :
    Links ((s.setConnector j { s.connectors j with fd := fd, started := true }).setPc pc) := by
  have hj : (s.connectors j).started = false ∧ (s.connectors j).session = none :=
    h.unconnected j (by simp [hpc, Pc.beforeSocket])
  have hstopped : ∀ j', (s.connectors j').stopped ≠ true := by
    intro j' hj'
    have hpast := h.stopped j' hj'
    simp [hpc, Pc.connStopped] at hpast
  constructor
  · intro i hi
    rw [show (State.setPc _ pc).pc.beforeThread i = false from hafter.beforeThread i] at hi
    contradiction
  · intro j' hj'
    have hlt : j < j' := hafter.beforeSocket j' hj'
    have hne : j' ≠ j := by omega
    simpa [State.setPc, State.setConnector, Function.update_of_ne hne] using
      h.unconnected j' (by simp [hpc, Pc.beforeSocket]; omega)
  · intro j' hj'
    rcases hafter.connecting j' hj' with ⟨rfl, hfd⟩
    simp [State.setPc, State.setConnector, hfd, hj.2]
  · intro j' hj'
    rcases eq_or_ne j' j with rfl | hne
    · exact absurd (by simpa [State.setPc, State.setConnector] using hj') (hstopped j')
    · exact absurd (by simpa [State.setPc, State.setConnector, Function.update_of_ne hne] using hj')
        (hstopped j')
  · intro j' k hk
    rcases eq_or_ne j' j with rfl | hne
    · simp [State.setPc, State.setConnector, hj.2] at hk
    · simp only [State.setPc, State.setConnector, Function.update_of_ne hne] at hk
      exact h.session_lt j' k hk
  · intro k j' hk hconn
    have hsession := h.session k j' hk hconn
    have hne : j' ≠ j := by
      rintro rfl
      rw [hj.1] at hsession
      exact absurd hsession.1 (by simp)
    simpa [State.setPc, State.setConnector, Function.update_of_ne hne] using hsession
  · exact h.closed

theorem connSocket_inv {cfg : Config} {s s' : State} {j : Nat} {ret : Ret} (h : Inv s)
    (hpc : s.pc = .connSocket j) (hstep : s.connSocket cfg j ret = some s') : Inv s' := by
  have hunconnected : (s.connectors j).started = false ∧ (s.connectors j).session = none :=
    h.links.unconnected j (by simp [hpc, Pc.beforeSocket])
  have hstopped : (s.connectors j).stopped = false := by
    rw [Bool.eq_false_iff]
    intro hj
    have hpast := h.links.stopped j hj
    simp [hpc, Pc.connStopped] at hpast
  cases ret with
  | ok => contradiction
  | fail =>
      obtain rfl := Option.some.inj hstep
      have hlater : s.pc.Later (cfg.nextConnect (j + 1)) :=
        later_nextConnect_succ cfg (by simp [hpc])
      refine h.mono rfl ?_ (h.links.connSocket hpc (Pc.afterSocket_nextConnect cfg j (-1)))
      intro p
      by_cases hp : p = .connector j
      · rw [hp]
        simp [State.holds, State.setPc, State.setConnector]
      · exact (holds_setConnector_of_ne (s.setPc _) _ hp).symm ▸ holds_setPc_sublist hlater p
  | fd fd =>
      rcases State.handOut_bind_eq_some hstep with ⟨kernel, hkernel, hfd, rfl⟩
      have hafter : Pc.AfterSocket (.connConnect j) j fd :=
        ⟨fun _ => rfl, by simp [Pc.beforeSocket], by simp [hfd]⟩
      apply h.handOut (p := .connector j) hkernel
      · rw [holds_connector_eq_nil hunconnected.1]
        simp [State.holds, State.sessionClosed, State.setPc, State.setConnector, hfd, hstopped,
          hunconnected.2]
      · intro r hr
        refine (holds_setConnector_of_ne (s.setPc (.connConnect j)) _ hr).trans ?_
        cases r with
        | epoll => simp [State.holds, State.setPc, hpc, Pc.epollClosed]
        | listener i => simp [State.holds, State.setPc, hpc, Pc.starting, Pc.lisClosed]
        | connector j' => rfl
        | session k => rfl
      · exact (h.links.connSocket hpc hafter).congr rfl rfl rfl rfl rfl

/-- A new session changes nothing for the others. -/
theorem holds_push_of_ne {s : State} (h : Links s) (fd : Int) (connector : Option Nat)
    {p : Place} (hp : p ≠ .session s.created) : (s.push fd connector).holds p = s.holds p := by
  cases p with
  | epoll => rfl
  | listener i => rfl
  | connector j =>
      refine holds_connector_congr rfl (sessionClosed_congr rfl ?_)
      intro k hsession
      have hlt := h.session_lt j k hsession
      simp only [State.push, Function.update_of_ne (show k ≠ s.created by omega)]
  | session k =>
      have hk : k ≠ s.created := fun hk => hp (by rw [hk])
      have hlt : k < s.created + 1 ↔ k < s.created := by omega
      simp [State.holds, State.push, Function.update_of_ne hk, hlt]

theorem holds_session_created (s : State) : s.holds (.session s.created) = [] := by
  simp [State.holds]

theorem Links.connConnect {cfg : Config} {s : State} {j : Nat} (h : Links s)
    (hpc : s.pc = .connConnect j) :
    Links (((s.push (s.connectors j).fd (some j)).setConnector j
      { s.connectors j with session := some s.created }).setPc (cfg.nextConnect (j + 1))) := by
  have hafter := Pc.afterSocket_nextConnect cfg j (s.connectors j).fd
  have hlater : s.pc.Later (cfg.nextConnect (j + 1)) := later_nextConnect_succ cfg (by simp [hpc])
  rcases h.connecting j hpc with ⟨hstarted, hfd, hnone⟩
  constructor
  · exact fun i hi => h.unstarted i (hlater.beforeThread i hi)
  · intro j' hj'
    have hlt : j < j' := hafter.beforeSocket j' hj'
    have hne : j' ≠ j := by omega
    simpa [State.setPc, State.setConnector, State.push, Function.update_of_ne hne] using
      h.unconnected j' (by simpa [hpc, Pc.beforeSocket] using hlt)
  · intro j' hj'
    have hpc' := hlater.connecting j' hj'
    rw [hpc, Pc.connConnect.injEq] at hpc'
    subst hpc'
    unfold State.setPc Config.nextConnect at hj'
    dsimp only at hj'
    split_ifs at hj'
  · intro j' hj'
    refine hlater.connStopped j' (h.stopped j' ?_)
    rcases eq_or_ne j' j with rfl | hne
    · simpa [State.setPc, State.setConnector, State.push] using hj'
    · simpa [State.setPc, State.setConnector, State.push, Function.update_of_ne hne] using hj'
  · intro j' k hk
    show k < s.created + 1
    rcases eq_or_ne j' j with rfl | hne
    · have heq : s.created = k := by
        simpa [State.setPc, State.setConnector, State.push] using hk
      omega
    · simp only [State.setPc, State.setConnector, State.push, Function.update_of_ne hne] at hk
      have hlt := h.session_lt j' k hk
      omega
  · intro k j' hk hconn
    have hk' : k < s.created + 1 := hk
    rcases eq_or_ne k s.created with rfl | hne
    · have heq : j = j' := by
        simpa [State.setPc, State.setConnector, State.push] using hconn
      subst heq
      simp [State.setPc, State.setConnector, State.push, hstarted, hfd]
    · simp only [State.setPc, State.setConnector, State.push, Function.update_of_ne hne] at hconn
      have hsession := h.session k j' (by omega) hconn
      have hj : j' ≠ j := by
        rintro rfl
        rw [hnone] at hsession
        exact absurd hsession.2.2.1 (by simp)
      simpa [State.setPc, State.setConnector, State.push, Function.update_of_ne hne,
        Function.update_of_ne hj] using hsession
  · intro k hk
    rcases eq_or_ne k s.created with rfl | hne
    · simp [State.setPc, State.setConnector, State.push] at hk
    · simp only [State.setPc, State.setConnector, State.push, Function.update_of_ne hne] at hk ⊢
      exact h.closed k hk

theorem connConnect_inv {cfg : Config} {s s' : State} {j : Nat} {ret : Ret} (h : Inv s)
    (hpc : s.pc = .connConnect j) (hstep : s.connConnect cfg j ret = some s') : Inv s' := by
  have hlater : s.pc.Later (cfg.nextConnect (j + 1)) := later_nextConnect_succ cfg (by simp [hpc])
  cases ret with
  | fd fd => contradiction
  | fail =>
      obtain rfl := Option.some.inj hstep
      apply h.setPc
      cases cfg.evtHandler with
      | true => exact hlater
      | false =>
          rw [hpc]
          constructor <;> simp [Pc.beforeThread, Pc.beforeSocket, Pc.starting, Pc.lisClosed,
            Pc.epollClosed, Pc.connStopped]
  | ok =>
      obtain rfl := Option.some.inj hstep
      refine h.mono rfl ?_ (h.links.connConnect hpc)
      intro p
      rcases h.links.connecting j hpc with ⟨hstarted, hfd, hnone⟩
      by_cases hp : p = .connector j
      · rw [hp]
        simp [State.holds, State.sessionClosed, State.setPc, State.setConnector, State.push, hnone]
      · refine List.Sublist.trans ?_ (holds_setPc_sublist hlater p)
        have hconn := holds_setConnector_of_ne
          ((s.setPc (cfg.nextConnect (j + 1))).push (s.connectors j).fd (some j))
          { s.connectors j with session := some s.created } hp
        refine hconn.symm ▸ ?_
        by_cases hnew : p = .session s.created
        · rw [hnew]
          simp [State.holds, State.setPc, State.push]
        · rw [holds_push_of_ne (h.links.setPc hlater) _ _ hnew]

end Descriptors
end Service
end TinyNet
