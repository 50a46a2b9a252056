import TinyNet.Library.StepSystem
import TinyNet.Service.Descriptors
import TinyNet.Service.Reports

/-!
# What is reported and what is there

{lit}`Reports` follows {lit}`TCPService::start` by what the endpoints return,
{lit}`Descriptors` by the system calls that the application's thread makes.  Given the same
outcomes the two agree: the endpoints that the log has are those whose state says so.

Main results:

- Theorem {lit}`listener_run`: {lit}`Listener::start`, call by call.
- Theorem {lit}`connector_run`: {lit}`Connector::start`, call by call.
- Theorem {lit}`start_agrees`: after {lit}`start` the threads that run are those of the
  listeners that succeed, and the connectors that were started are those in the log.
-/

namespace TinyNet
namespace Service
namespace Reports

open Library.StepSystem
open Descriptors (Config Ret State)

variable {σ : Type}

/-! ## The calls of the application's thread -/

/-- The results that the thread sees in {lit}`Listener::start`. -/
def ListenerCalls.rets (calls : ListenerCalls) : List Ret :=
  if calls.socket = -1 then [.fail]
  else if calls.bind = -1 then [.fd calls.socket, .fail]
  else if calls.listen = -1 then [.fd calls.socket, .ok, .fail]
  else [.fd calls.socket, .ok, .ok, if calls.thread then .ok else .fail]

/-- The results that the thread sees in {lit}`Connector::connect`. -/
def ConnectorCalls.rets (calls : ConnectorCalls σ) : List Ret :=
  if calls.socket = -1 then [.fail]
  else if calls.connect = -1 then [.fd calls.socket, .fail]
  else [.fd calls.socket, .ok]

/-- A refused connector leaves {lit}`start` if there is no handler. -/
def ConnectorCalls.throws (calls : ConnectorCalls σ) (handler : EventHandleFunc σ) : Bool :=
  calls.refused && handler.isNone

/-- The results that the thread sees in the loop over {lit}`lstConnector`. -/
def connectorRets (handler : EventHandleFunc σ) (o : Outcomes σ Nat Nat) : List Nat → List Ret
  | [] => []
  | c :: cs =>
      (o.connector c).rets ++
        if (o.connector c).throws handler then [] else connectorRets handler o cs

/-- The results that the thread sees in both loops of {lit}`start`. -/
def rets (handler : EventHandleFunc σ) (o : Outcomes σ Nat Nat) (ls cs : List Nat) :
    List Ret :=
  ls.flatMap (fun l => (o.listener l).rets) ++ connectorRets handler o cs

/-! ## One endpoint -/

/-- What {lit}`Listener::start` leaves behind. -/
structure ListenerEffect (cfg : Config) (i : Nat) (runs : Bool) (s s' : State) : Prop where
  pc_eq : s'.pc = cfg.nextListen (i + 1)
  thread_eq : (s'.listeners i).thread = if runs then .running else (s.listeners i).thread
  others : ∀ i', i' ≠ i → s'.listeners i' = s.listeners i'
  connectors : s'.connectors = s.connectors

/-- A listener that gets a socket goes on to {lit}`bind`. -/
theorem run_lisSocket {cfg : Config} {s s' : State} {i : Nat} {fd : Int} {later : List Ret}
    (hpc : s.pc = .lisSocket i)
    (hrun : run (State.mainStep cfg) s (.fd fd :: later) = some s') :
    ∃ kernel, run (State.mainStep cfg)
      { s with
        kernel := kernel
        listeners := Function.update s.listeners i { s.listeners i with lisFd := fd }
        pc := .lisBind i } later = some s' := by
  rw [run_cons, Option.bind_eq_some_iff] at hrun
  rcases hrun with ⟨s₁, hstep, hrest⟩
  simp only [State.mainStep, hpc, State.lisSocket] at hstep
  rcases State.handOut_bind_eq_some hstep with ⟨kernel, -, -, rfl⟩
  exact ⟨kernel, hrest⟩

/-- A listener's thread runs afterwards exactly if all its calls succeed. -/
theorem listener_run {cfg : Config} {s s' : State} {i : Nat} {calls : ListenerCalls}
    (hpc : s.pc = .lisSocket i)
    (hrun : run (State.mainStep cfg) s calls.rets = some s') :
    ListenerEffect cfg i calls.succeeds s s' := by
  unfold ListenerCalls.rets at hrun
  by_cases hsocket : calls.socket = -1
  · have hfails : calls.succeeds = false := by simp [ListenerCalls.succeeds, hsocket]
    rw [if_pos hsocket] at hrun
    simp only [run_cons, run_nil, State.mainStep, hpc, State.lisSocket, Option.bind_some,
      Option.some.injEq] at hrun
    subst hrun
    constructor <;> simp +contextual [State.setPc, State.setListener, hfails]
  rw [if_neg hsocket] at hrun
  by_cases hbind : calls.bind = -1
  · have hfails : calls.succeeds = false := by simp [ListenerCalls.succeeds, hbind]
    rw [if_pos hbind] at hrun
    rcases run_lisSocket hpc hrun with ⟨kernel, hrun⟩
    simp only [run_cons, run_nil, State.mainStep, State.lisCall, Option.bind_some,
      Option.some.injEq] at hrun
    subst hrun
    constructor <;> simp +contextual [State.setPc, State.close, State.epollDel, hfails]
  rw [if_neg hbind] at hrun
  by_cases hlisten : calls.listen = -1
  · have hfails : calls.succeeds = false := by simp [ListenerCalls.succeeds, hlisten]
    rw [if_pos hlisten] at hrun
    rcases run_lisSocket hpc hrun with ⟨kernel, hrun⟩
    simp only [run_cons, run_nil, State.mainStep, State.lisCall, State.setPc,
      Option.bind_some, Option.some.injEq] at hrun
    subst hrun
    constructor <;> simp +contextual [State.close, State.epollDel, hfails]
  rw [if_neg hlisten] at hrun
  have hsucceeds : calls.succeeds = calls.thread := by
    simp [ListenerCalls.succeeds, hsocket, hbind, hlisten]
  rcases run_lisSocket hpc hrun with ⟨kernel, hrun⟩
  simp only [run_cons, run_nil, State.mainStep, State.lisCall, State.setPc,
    Option.bind_some] at hrun
  cases hthread : calls.thread with
  | true =>
      simp only [hthread, State.lisThread, State.setPc, State.setListener, if_true,
        Option.bind_some, Option.some.injEq] at hrun
      subst hrun
      constructor <;> simp +contextual [hsucceeds, hthread]
  | false =>
      simp only [hthread, State.lisThread, State.setPc, State.setListener,
        Function.update_self, if_neg hsocket, Bool.false_eq_true, if_false, Option.bind_some,
        Option.some.injEq] at hrun
      subst hrun
      constructor <;> simp +contextual [State.close, State.epollDel, hsucceeds, hthread]

/-- What {lit}`Connector::start` leaves behind. -/
structure ConnectorEffect (cfg : Config) (j : Nat) (throws connected : Bool)
    (s s' : State) : Prop where
  pc_eq : s'.pc = if throws then .started else cfg.nextConnect (j + 1)
  started : (s'.connectors j).started = true
  session : (s'.connectors j).session.isSome = connected
  others : ∀ j', j' ≠ j → s'.connectors j' = s.connectors j'
  listeners : s'.listeners = s.listeners

/-- A connector that gets a socket goes on to {lit}`connect`. -/
theorem run_connSocket {cfg : Config} {s s' : State} {j : Nat} {fd : Int} {later : List Ret}
    (hpc : s.pc = .connSocket j)
    (hrun : run (State.mainStep cfg) s (.fd fd :: later) = some s') :
    ∃ kernel, run (State.mainStep cfg)
      { s with
        kernel := kernel
        connectors := Function.update s.connectors j
          { s.connectors j with fd := fd, started := true }
        pc := .connConnect j } later = some s' := by
  rw [run_cons, Option.bind_eq_some_iff] at hrun
  rcases hrun with ⟨s₁, hstep, hrest⟩
  simp only [State.mainStep, hpc, State.connSocket] at hstep
  rcases State.handOut_bind_eq_some hstep with ⟨kernel, -, -, rfl⟩
  exact ⟨kernel, hrest⟩

/-- A connector has a session afterwards exactly if its calls succeed. -/
theorem connector_run {cfg : Config} {s s' : State} {j : Nat} {calls : ConnectorCalls σ}
    {handler : EventHandleFunc σ} (hhandler : cfg.evtHandler = handler.isSome)
    (hpc : s.pc = .connSocket j) (hnone : (s.connectors j).session = none)
    (hrun : run (State.mainStep cfg) s calls.rets = some s') :
    ConnectorEffect cfg j (calls.throws handler) calls.succeeds s s' := by
  unfold ConnectorCalls.rets at hrun
  unfold ConnectorCalls.throws
  by_cases hsocket : calls.socket = -1
  · have hfails : calls.succeeds = false := by simp [ConnectorCalls.succeeds, hsocket]
    have hrefused : calls.refused = false := by simp [ConnectorCalls.refused, hsocket]
    rw [if_pos hsocket] at hrun
    simp only [run_cons, run_nil, State.mainStep, hpc, State.connSocket, Option.bind_some,
      Option.some.injEq] at hrun
    subst hrun
    constructor <;>
      simp +contextual [State.setPc, State.setConnector, hfails, hrefused, hnone]
  rw [if_neg hsocket] at hrun
  by_cases hconnect : calls.connect = -1
  · have hfails : calls.succeeds = false := by simp [ConnectorCalls.succeeds, hconnect]
    have hrefused : calls.refused = true := by
      simp [ConnectorCalls.refused, hsocket, hconnect]
    rw [if_pos hconnect] at hrun
    rcases run_connSocket hpc hrun with ⟨kernel, hrun⟩
    simp only [run_cons, run_nil, State.mainStep, State.connConnect, Option.bind_some,
      Option.some.injEq] at hrun
    subst hrun
    constructor
    · cases handler <;> simp_all [State.setPc]
    all_goals simp +contextual [State.setPc, hfails, hnone]
  · have hsucceeds : calls.succeeds = true := by
      simp [ConnectorCalls.succeeds, hsocket, hconnect]
    have hrefused : calls.refused = false := by simp [ConnectorCalls.refused, hconnect]
    rw [if_neg hconnect] at hrun
    rcases run_connSocket hpc hrun with ⟨kernel, hrun⟩
    simp only [run_cons, run_nil, State.mainStep, State.connConnect, Option.bind_some,
      Option.some.injEq] at hrun
    subst hrun
    constructor <;>
      simp +contextual [State.setPc, State.setConnector, State.push, hsucceeds, hrefused]

/-! ## The loops -/

/-- The loop over {lit}`lstListener`, from listener {lit}`i` on. -/
theorem listeners_run {cfg : Config} {o : Outcomes σ Nat Nat} {k i : Nat} {s s' : State}
    (hk : i + k = cfg.listeners) (hpc : s.pc = cfg.nextListen i)
    (hrun : run (State.mainStep cfg) s
      ((List.range' i k).flatMap fun l => (o.listener l).rets) = some s') :
    s'.pc = cfg.nextConnect 0 ∧ s'.connectors = s.connectors ∧
      (∀ l, l < i → s'.listeners l = s.listeners l) ∧
      ∀ l, i ≤ l → l < cfg.listeners → (s'.listeners l).thread =
        if (o.listener l).succeeds then .running else (s.listeners l).thread := by
  induction k generalizing i s with
  | zero =>
      have hend : ¬i < cfg.listeners := by omega
      cases hrun
      rw [Config.nextListen, if_neg hend] at hpc
      refine ⟨hpc, rfl, fun _ _ => rfl, ?_⟩
      intro l hl hlt
      omega
  | succ k ih =>
      have hi : i < cfg.listeners := by omega
      rw [Config.nextListen, if_pos hi] at hpc
      rw [List.range'_succ, List.flatMap_cons, run_append, Option.bind_eq_some_iff] at hrun
      rcases hrun with ⟨s₁, hfirst, hrest⟩
      have heffect := listener_run hpc hfirst
      rcases ih (by omega) heffect.pc_eq hrest with ⟨hpc', hconn, hbefore, hafter⟩
      refine ⟨hpc', hconn.trans heffect.connectors, ?_, ?_⟩
      · intro l hl
        rw [hbefore l (by omega), heffect.others l (by omega)]
      · intro l hl hlt
        rcases eq_or_lt_of_le hl with rfl | hl
        · rw [hbefore i (by omega), heffect.thread_eq]
        · rw [hafter l hl hlt, heffect.others l (by omega)]

/-- The connectors that the log has. -/
theorem mem_startConnectors_cons {handler : EventHandleFunc σ} {o : Outcomes σ Nat Nat}
    {c x : Nat} {cs : List Nat} (hcreate : (o.connector c).create.isSome = true) :
    .connectorStart x ∈ (startConnectors handler o (c :: cs)).1 ↔
      x = c ∨ (o.connector c).throws handler = false ∧
        .connectorStart x ∈ (startConnectors handler o cs).1 := by
  have hreport : ∀ evt, (.connectorStart x : Entry Nat Nat) ∉ report handler evt := by
    intro evt
    unfold report
    split <;> simp
  rw [startConnectors, ConnectorCalls.throws]
  cases hc : (o.connector c).refused with
  | false =>
      rcases connector_start_of_not_refused handler hcreate hc with ⟨ret, hstart, -⟩
      rw [hstart]
      simp [hreport]
  | true =>
      cases handler with
      | none =>
          rw [connector_start_of_refused_none hc]
          simp
      | some f =>
          rw [connector_start_of_refused_some f hc]
          simp [hreport]

/-- The loop over {lit}`lstConnector`, from connector {lit}`j` on. -/
theorem connectors_run {cfg : Config} {handler : EventHandleFunc σ}
    (hhandler : cfg.evtHandler = handler.isSome) {o : Outcomes σ Nat Nat}
    (hcreate : ∀ c, (o.connector c).create.isSome = true) {k j : Nat} {s s' : State}
    (hk : j + k = cfg.connectors) (hpc : s.pc = cfg.nextConnect j)
    (hfresh : ∀ c, j ≤ c → (s.connectors c).started = false ∧ (s.connectors c).session = none)
    (hrun : run (State.mainStep cfg) s (connectorRets handler o (List.range' j k)) = some s') :
    s'.pc = .started ∧ s'.listeners = s.listeners ∧
      (∀ c, c < j → s'.connectors c = s.connectors c) ∧
      ∀ c, j ≤ c →
        ((s'.connectors c).started = true ↔
          .connectorStart c ∈ (startConnectors handler o (List.range' j k)).1) ∧
        ((s'.connectors c).session.isSome = true ↔
          .connectorStart c ∈ (startConnectors handler o (List.range' j k)).1 ∧
            (o.connector c).succeeds = true) := by
  induction k generalizing j s with
  | zero =>
      have hend : ¬j < cfg.connectors := by omega
      cases hrun
      rw [Config.nextConnect, if_neg hend] at hpc
      refine ⟨hpc, rfl, fun _ _ => rfl, ?_⟩
      intro c hc
      simp [hfresh c hc, startConnectors]
  | succ k ih =>
      have hj : j < cfg.connectors := by omega
      rw [Config.nextConnect, if_pos hj] at hpc
      rw [List.range'_succ, connectorRets, run_append, Option.bind_eq_some_iff] at hrun
      rcases hrun with ⟨s₁, hfirst, hrest⟩
      have heffect := connector_run hhandler hpc (hfresh j le_rfl).2 hfirst
      have hfresh₁ : ∀ c, j + 1 ≤ c →
          (s₁.connectors c).started = false ∧ (s₁.connectors c).session = none := by
        intro c hc
        rw [heffect.others c (by omega)]
        exact hfresh c (by omega)
      have hpc₁ := heffect.pc_eq
      rw [List.range'_succ]
      simp only [mem_startConnectors_cons (hcreate j)]
      cases hthrows : (o.connector j).throws handler with
      | true =>
          rw [hthrows] at hpc₁ hrest
          cases hrest
          refine ⟨hpc₁, heffect.listeners, fun c hc => heffect.others c (by omega), ?_⟩
          intro c hc
          rcases eq_or_lt_of_le hc with rfl | hc
          · simp [heffect.started, heffect.session]
          · have hne : c ≠ j := by omega
            simp [hfresh₁ c hc, hne]
      | false =>
          rw [hthrows] at hpc₁ hrest
          rcases ih (by omega) hpc₁ hfresh₁ hrest with ⟨hpc', hlis, hbefore, hafter⟩
          refine ⟨hpc', hlis.trans heffect.listeners, ?_, ?_⟩
          · intro c hc
            rw [hbefore c (by omega), heffect.others c (by omega)]
          · intro c hc
            rcases eq_or_lt_of_le hc with rfl | hc
            · rw [hbefore j (by omega)]
              simp [heffect.started, heffect.session]
            · have hne : c ≠ j := by omega
              simpa [hne] using hafter c hc

theorem connectorStart_not_mem_startListeners (handler : EventHandleFunc σ)
    (o : Outcomes σ Nat Nat) (ls : List Nat) (c : Nat) :
    .connectorStart c ∉ startListeners handler o ls := by
  induction ls with
  | nil => simp [startListeners]
  | cons l ls ih =>
      rw [startListeners, report]
      split <;> simp [ih]

/-- A service starts with the given outcomes.  Then the threads that run are those of the
listeners that succeed; the connectors that were started are those in the log, and those
of them that succeed have a session. -/
theorem start_agrees {cfg : Config} {handler : EventHandleFunc σ}
    (hhandler : cfg.evtHandler = handler.isSome) {o : Outcomes σ Nat Nat}
    (hcreate : ∀ c, (o.connector c).create.isSome = true) {s s' : State}
    (hpc : s.pc = cfg.nextListen 0)
    (hthreads : ∀ l, (s.listeners l).thread = .unstarted)
    (hfresh : ∀ c, (s.connectors c).started = false ∧ (s.connectors c).session = none)
    (hrun : run (State.mainStep cfg) s
      (rets handler o (List.range' 0 cfg.listeners) (List.range' 0 cfg.connectors)) =
        some s') :
    s'.pc = .started ∧
      (∀ l, l < cfg.listeners →
        ((s'.listeners l).thread = .running ↔ (o.listener l).succeeds = true)) ∧
      ∀ c,
        ((s'.connectors c).started = true ↔
          .connectorStart c ∈ (start handler o (List.range' 0 cfg.listeners)
            (List.range' 0 cfg.connectors)).1) ∧
        ((s'.connectors c).session.isSome = true ↔
          .connectorStart c ∈ (start handler o (List.range' 0 cfg.listeners)
            (List.range' 0 cfg.connectors)).1 ∧ (o.connector c).succeeds = true) := by
  rw [rets, run_append, Option.bind_eq_some_iff] at hrun
  rcases hrun with ⟨s₁, hlisteners, hconnectors⟩
  rcases listeners_run (by omega) hpc hlisteners with ⟨hpc₁, hconn₁, -, hthread₁⟩
  have hfresh₁ : ∀ c, 0 ≤ c →
      (s₁.connectors c).started = false ∧ (s₁.connectors c).session = none := by
    intro c _
    rw [hconn₁]
    exact hfresh c
  rcases connectors_run hhandler hcreate (by omega) hpc₁ hfresh₁ hconnectors with
    ⟨hpc', hlis', -, hconn'⟩
  refine ⟨hpc', ?_, ?_⟩
  · intro l hl
    rw [hlis', hthread₁ l (Nat.zero_le l) hl, hthreads l]
    split <;> simp_all
  · intro c
    simpa [start, connectorStart_not_mem_startListeners] using hconn' c (Nat.zero_le c)

end Reports
end Service
end TinyNet
