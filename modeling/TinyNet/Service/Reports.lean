import TinyNet.Epoll.WriteInterest

/-!
# What a service reports when it starts

{lit}`TCPService::start` of the epoll backend starts each listener and then each
connector, and reports the outcome of each to the event handler that it was given.  A
listener or connector that fails is meant to keep neither the others from starting nor
the application from running.

{lit}`Connector::connect` reports a refused connection itself as well, without asking
whether there is a handler.  So the application hears of it twice, or, without a handler,
the call throws and the connectors behind it are never started.

The outcomes of the system calls, of {lit}`factory->create` and of the start of a thread
are left open.  The log has the endpoints in the order in which they are started and the
calls of the handler.

Main results:

- Theorem {lit}`startListeners_eq`: each listener is started and reported once.
- Theorem {lit}`startConnectors_eq_iff`: so is each connector, exactly if none is refused.
- Theorem {lit}`reports_once_iff`: the same for {lit}`start`.
- Theorem {lit}`refused_connector`: what happens otherwise.
-/

namespace TinyNet
namespace Service
namespace Reports

open Epoll.WriteInterest (RET_OK)

/-- {lit}`NetEvent` of {lit}`tinynet.hpp`. -/
inductive NetEvent where
  | bind
  | listen
  | listenFail
  | connect
  | connectFail
  | recv
  | send
  | disconnect
  | sessionCreate
  | sessionRelease
deriving DecidableEq

/-- {lit}`RET_ERR_SOCKET` of {lit}`NetRet`. -/
def RET_ERR_SOCKET : Int := -100

/-- {lit}`RET_ERR_CONNECT` of {lit}`NetRet`. -/
def RET_ERR_CONNECT : Int := -101

/-- {lit}`RET_ERR_LISTEN` of {lit}`NetRet`. -/
def RET_ERR_LISTEN : Int := -102

/-- {lit}`RET_ERR_BIND` of {lit}`NetRet`. -/
def RET_ERR_BIND : Int := -103

variable {σ L C : Type}

/-- {lit}`EventHandleFunc`, which may be empty.  Of what it returns only a session is
used. -/
abbrev EventHandleFunc (σ : Type) := Option (NetEvent → Option σ)

/-- What the calls of {lit}`Listener::start` return, and whether its thread can be
constructed. -/
structure ListenerCalls where
  socket : Int
  bind : Int
  listen : Int
  thread : Bool
deriving DecidableEq

/-- What the calls of {lit}`Connector::connect` return. -/
structure ConnectorCalls (σ : Type) where
  socket : Int
  connect : Int
  create : Option σ
deriving DecidableEq

/-- The outcomes of the calls that each endpoint makes. -/
structure Outcomes (σ L C : Type) where
  listener : L → ListenerCalls
  connector : C → ConnectorCalls σ

/-- An entry of the log: the start of an endpoint, or a call of the event handler. -/
inductive Entry (L C : Type) where
  | listenerStart (l : L)
  | connectorStart (c : C)
  | event (evt : NetEvent)
deriving DecidableEq

/-- How a call ends: it returns, throws because it has called an empty handler, or
dereferences a null session. -/
inductive Ending where
  | returned (ret : Int)
  | badFunctionCall
  | nullSession
deriving DecidableEq

/-! ## The endpoints -/

/-- {lit}`Listener::start`.  If the thread cannot be constructed, the exception is caught
and the call returns 0 as well. -/
def ListenerCalls.start (calls : ListenerCalls) : Int :=
  if calls.socket = -1 then RET_ERR_SOCKET
  else if calls.bind = -1 then RET_ERR_BIND
  else if calls.listen = -1 then RET_ERR_LISTEN
  else 0

/-- {lit}`Connector::start` and {lit}`Connector::connect`, with the calls of the handler
in it. -/
def ConnectorCalls.start (calls : ConnectorCalls σ) (handler : EventHandleFunc σ) :
    List NetEvent × Ending :=
  if calls.socket = -1 then ([], .returned RET_ERR_SOCKET)
  else if calls.connect = -1 then
    match handler with
    | none => ([], .badFunctionCall)
    | some _ => ([.connectFail], .returned RET_ERR_CONNECT)
  else
    match calls.create, handler with
    | some _, _ => ([], .returned RET_OK)
    | none, none => ([], .nullSession)
    | none, some f =>
        match f .sessionCreate with
        | some _ => ([.sessionCreate], .returned RET_OK)
        | none => ([.sessionCreate], .nullSession)

/-! ## The service -/

/-- {lit}`if (evtHandler) evtHandler(evt, NULL)`. -/
def report (handler : EventHandleFunc σ) (evt : NetEvent) : List (Entry L C) :=
  if handler.isSome then [.event evt] else []

/-- The loop over {lit}`lstListener`. -/
def startListeners (handler : EventHandleFunc σ) (o : Outcomes σ L C) :
    List L → List (Entry L C)
  | [] => []
  | l :: ls =>
      .listenerStart l ::
        (report handler (if (o.listener l).start = 0 then .listen else .listenFail) ++
          startListeners handler o ls)

/-- The loop over {lit}`lstConnector`, which an exception leaves. -/
def startConnectors (handler : EventHandleFunc σ) (o : Outcomes σ L C) :
    List C → List (Entry L C) × Ending
  | [] => ([], .returned 0)
  | c :: cs =>
      match (o.connector c).start handler with
      | (evts, .returned ret) =>
          (.connectorStart c :: (evts.map .event ++
              (report handler (if ret = 0 then .connect else .connectFail) ++
                (startConnectors handler o cs).1)),
            (startConnectors handler o cs).2)
      | (evts, .badFunctionCall) => (.connectorStart c :: evts.map .event, .badFunctionCall)
      | (evts, .nullSession) => (.connectorStart c :: evts.map .event, .nullSession)

/-- {lit}`TCPService::start` once the scheduler and the workers have started. -/
def start (handler : EventHandleFunc σ) (o : Outcomes σ L C) (ls : List L) (cs : List C) :
    List (Entry L C) × Ending :=
  (startListeners handler o ls ++ (startConnectors handler o cs).1,
    (startConnectors handler o cs).2)

/-! ## What is expected of it -/

/-- The listener listens and its thread runs. -/
def ListenerCalls.succeeds (calls : ListenerCalls) : Bool :=
  calls.socket ≠ -1 && calls.bind ≠ -1 && calls.listen ≠ -1 && calls.thread

/-- The connector is connected. -/
def ConnectorCalls.succeeds (calls : ConnectorCalls σ) : Bool :=
  calls.socket ≠ -1 && calls.connect ≠ -1

/-- The connector has a socket and could not connect it. -/
def ConnectorCalls.refused (calls : ConnectorCalls σ) : Bool :=
  calls.socket ≠ -1 && calls.connect = -1

/-- A listener is started and its outcome reported. -/
def expectedListener (handler : EventHandleFunc σ) (o : Outcomes σ L C) (l : L) :
    List (Entry L C) :=
  .listenerStart l ::
    report handler (if (o.listener l).succeeds then .listen else .listenFail)

/-- A connector is started and its outcome reported. -/
def expectedConnector (handler : EventHandleFunc σ) (o : Outcomes σ L C) (c : C) :
    List (Entry L C) :=
  .connectorStart c ::
    report handler (if (o.connector c).succeeds then .connect else .connectFail)

/-- Every listener and then every connector is started and reported once, in the order
in which they were added, and {lit}`start` returns 0. -/
def expected (handler : EventHandleFunc σ) (o : Outcomes σ L C) (ls : List L)
    (cs : List C) : List (Entry L C) × Ending :=
  (ls.flatMap (expectedListener handler o) ++ cs.flatMap (expectedConnector handler o),
    .returned 0)

/-! ## The listeners -/

/-- {lit}`Listener::start` tells the outcome if the thread runs. -/
theorem listener_start_eq_zero_iff {calls : ListenerCalls} (h : calls.thread = true) :
    calls.start = 0 ↔ calls.succeeds = true := by
  unfold ListenerCalls.start ListenerCalls.succeeds
  split_ifs with hsocket hbind hlisten
  · simp [hsocket, RET_ERR_SOCKET]
  · simp [hbind, RET_ERR_BIND]
  · simp [hlisten, RET_ERR_LISTEN]
  · simp [hsocket, hbind, hlisten, h]

/-- Each listener is started and reported once. -/
theorem startListeners_eq (handler : EventHandleFunc σ) (o : Outcomes σ L C) {ls : List L}
    (h : ∀ l ∈ ls, (o.listener l).thread = true) :
    startListeners handler o ls = ls.flatMap (expectedListener handler o) := by
  induction ls with
  | nil => rfl
  | cons l ls ih =>
      have hl := listener_start_eq_zero_iff (h l List.mem_cons_self)
      have hls := ih fun l' hl' => h l' (List.mem_cons_of_mem l hl')
      rw [startListeners, List.flatMap_cons, expectedListener, hls]
      simp only [hl, List.cons_append]

/-! ## The connectors -/

/-- A connector that is not refused reports nothing itself and tells its outcome. -/
theorem connector_start_of_not_refused {calls : ConnectorCalls σ}
    (handler : EventHandleFunc σ) (hcreate : calls.create.isSome = true)
    (h : calls.refused = false) :
    ∃ ret, calls.start handler = ([], .returned ret) ∧ (ret = 0 ↔ calls.succeeds = true) := by
  unfold ConnectorCalls.start
  by_cases hsocket : calls.socket = -1
  · refine ⟨RET_ERR_SOCKET, by rw [if_pos hsocket], ?_⟩
    simp [ConnectorCalls.succeeds, hsocket, RET_ERR_SOCKET]
  · have hconnect : calls.connect ≠ -1 := by
      simpa [ConnectorCalls.refused, hsocket] using h
    rcases Option.isSome_iff_exists.mp hcreate with ⟨session, hsession⟩
    refine ⟨RET_OK, by rw [if_neg hsocket, if_neg hconnect, hsession], ?_⟩
    simp [ConnectorCalls.succeeds, hsocket, hconnect, RET_OK]

/-- A refused connector calls an empty handler. -/
theorem connector_start_of_refused_none {calls : ConnectorCalls σ}
    (h : calls.refused = true) : calls.start none = ([], .badFunctionCall) := by
  simp only [ConnectorCalls.refused, Bool.and_eq_true, decide_eq_true_eq] at h
  rw [ConnectorCalls.start, if_neg h.1, if_pos h.2]

/-- A refused connector reports itself. -/
theorem connector_start_of_refused_some {calls : ConnectorCalls σ}
    (f : NetEvent → Option σ) (h : calls.refused = true) :
    calls.start (some f) = ([.connectFail], .returned RET_ERR_CONNECT) := by
  simp only [ConnectorCalls.refused, Bool.and_eq_true, decide_eq_true_eq] at h
  rw [ConnectorCalls.start, if_neg h.1, if_pos h.2]

/-- No endpoint is reported before it is started. -/
theorem event_cons_ne_expected (handler : EventHandleFunc σ) (o : Outcomes σ L C)
    (evt : NetEvent) (log : List (Entry L C)) (cs : List C) :
    Entry.event evt :: log ≠ cs.flatMap (expectedConnector handler o) := by
  cases cs with
  | nil => simp
  | cons c cs => simp [expectedConnector]

/-- Each connector is started and reported once exactly if none is refused. -/
theorem startConnectors_eq_iff (handler : EventHandleFunc σ) (o : Outcomes σ L C)
    {cs : List C} (hcreate : ∀ c ∈ cs, (o.connector c).create.isSome = true) :
    startConnectors handler o cs =
        (cs.flatMap (expectedConnector handler o), .returned 0) ↔
      ∀ c ∈ cs, (o.connector c).refused = false := by
  induction cs with
  | nil => simp [startConnectors]
  | cons c cs ih =>
      have ih := ih fun c' hc' => hcreate c' (List.mem_cons_of_mem c hc')
      rw [List.forall_mem_cons, startConnectors, List.flatMap_cons]
      cases hc : (o.connector c).refused with
      | false =>
          rcases connector_start_of_not_refused handler (hcreate c List.mem_cons_self) hc with
            ⟨ret, hstart, hret⟩
          rw [← ih, hstart, Prod.ext_iff, Prod.ext_iff]
          simp [expectedConnector, hret]
      | true =>
          cases handler with
          | none =>
              rw [connector_start_of_refused_none hc]
              simp
          | some f =>
              have hsucceeds : (o.connector c).succeeds = false := by
                simp only [ConnectorCalls.refused, Bool.and_eq_true, decide_eq_true_eq] at hc
                simp [ConnectorCalls.succeeds, hc.2]
              rw [connector_start_of_refused_some f hc]
              simp [expectedConnector, hsucceeds, report, RET_ERR_CONNECT,
                event_cons_ne_expected]

/-! ## The service -/

/-- For all listeners and connectors and all outcomes of their calls, with or without a
handler: if the threads can be constructed and the factory returns a session, then
{lit}`start` starts every listener and then every connector in order, reports each once
with its outcome and returns, exactly if no connector with a socket is refused. -/
theorem reports_once_iff (handler : EventHandleFunc σ) (o : Outcomes σ L C) (ls : List L)
    (cs : List C) (hthread : ∀ l ∈ ls, (o.listener l).thread = true)
    (hcreate : ∀ c ∈ cs, (o.connector c).create.isSome = true) :
    start handler o ls cs = expected handler o ls cs ↔
      ∀ c ∈ cs, (o.connector c).refused = false := by
  rw [← startConnectors_eq_iff handler o hcreate, start, expected,
    startListeners_eq handler o hthread, Prod.ext_iff, Prod.ext_iff]
  simp

/-- Two listeners, of which one cannot be bound, and two connectors, of which one gets no
socket. -/
def mixedOutcomes : Outcomes Unit Nat Nat where
  listener l := { socket := 3, bind := if l = 0 then -1 else 0, listen := 0, thread := true }
  connector c := { socket := if c = 0 then -1 else 5, connect := 0, create := some () }

/-- They are all started and reported. -/
theorem reports_once_mixed :
    start (some fun _ => none) mixedOutcomes [0, 1] [0, 1] =
        ([.listenerStart 0, .event .listenFail, .listenerStart 1, .event .listen,
          .connectorStart 0, .event .connectFail, .connectorStart 1, .event .connect],
          .returned 0) ∧
      start (some fun _ => none) mixedOutcomes [0, 1] [0, 1] =
        expected (some fun _ => none) mixedOutcomes [0, 1] [0, 1] := by
  refine ⟨by decide, ?_⟩
  have hiff := reports_once_iff (some fun _ => none) mixedOutcomes [0, 1] [0, 1] (by decide)
    (by decide)
  exact hiff.mpr (by decide)

/-- Two connectors, of which the first is refused. -/
def refusedOutcomes : Outcomes Unit Nat Nat where
  listener _ := { socket := 3, bind := 0, listen := 0, thread := true }
  connector c := { socket := 5, connect := if c = 0 then -1 else 0, create := some () }

/-- A handler is told twice of the refused connector; without a handler {lit}`start`
throws, and the second connector is not started. -/
theorem refused_connector :
    start (some fun _ => none) refusedOutcomes [] [0, 1] =
        ([.connectorStart 0, .event .connectFail, .event .connectFail, .connectorStart 1,
          .event .connect], .returned 0) ∧
      start none refusedOutcomes [] [0, 1] = ([.connectorStart 0], .badFunctionCall) ∧
      start (some fun _ => none) refusedOutcomes [] [0, 1] ≠
        expected (some fun _ => none) refusedOutcomes [] [0, 1] ∧
      start none refusedOutcomes [] [0, 1] ≠ expected none refusedOutcomes [] [0, 1] := by
  decide

end Reports
end Service
end TinyNet
