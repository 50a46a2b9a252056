import TinyNet.Epoll.Chunking
import TinyNet.Epoll.WriteInterest
import TinyNet.SendBuffer.Sequential

/-!
# A connection between two epoll sessions

Two sessions of {lit}`detail/epollnet.hpp` are joined by a byte stream in each direction.
Each session is handled by its worker, one event at a time: an {lit}`EPOLLIN` event takes
bytes off the incoming stream, cuts packets and calls {lit}`on_recv`, which may call
{lit}`async_send`; an {lit}`EPOLLOUT` event, which epoll reports only while it is asked
for, puts pending bytes on the outgoing stream.  The application may call
{lit}`async_send` between events, but not while the worker is in {lit}`SendBuffer::pop`: there
{lit}`pop` releases its lock around {lit}`::send` and may drop what was pushed meanwhile, which
{lit}`SendBuffer.Concurrent` is about.

A host keeps the data of the {lit}`async_send` calls that were accepted and the packets
that {lit}`on_recv` was given, for the theorems to speak about.

Main results:

- Theorem {lit}`Host.asyncSend_spec`, {lit}`Host.epollin_spec` and
  {lit}`Host.epollout_spec`: what each call does to the buffers and to the two records.
- Theorem {lit}`nearStep_cases`: what one step of a connection can do.
-/

namespace TinyNet
namespace Connection

open Library.FixedBuffer
open Library.MachineInt
open Library.StepSystem
open Epoll
open Epoll.WriteInterest

/-- What a session class adds to {lit}`EventHandler`: its {lit}`read_packet`, and the data
of the {lit}`async_send` calls that its {lit}`on_recv` makes for a packet, in order. -/
structure Application where
  readPacket : ReadPacket
  onRecv : List UInt8 → List (List UInt8)

/-- A session with both its buffers, the data accepted by {lit}`async_send` and the
packets handed to {lit}`on_recv`. -/
structure Host (N R : BufferSize) where
  session : Session N
  receiver : Receiver R
  accepted : List (List UInt8)
  packets : List (List UInt8)

variable {N R N' R' : BufferSize}

namespace Host

/-- A session as {lit}`Scheduler::push` registers it; its buffers are uninitialised. -/
def connected (sendBuf : Buf UInt8 N.val) (recvBuf : Buf UInt8 R.val) : Host N R where
  session := registered sendBuf
  receiver := .create recvBuf
  accepted := []
  packets := []

/-- The bytes in the send buffer. -/
def pending (h : Host N R) : List UInt8 :=
  h.session.sendBuffer.pending

/-- {lit}`EventHandler::async_send`. -/
def asyncSend (h : Host N R) (pData : List UInt8) : Option (Host N R) := do
  let r ← WriteInterest.asyncSend h.session pData
  some
    { h with
      session := r.1
      accepted := if r.2 = RET_OK then h.accepted ++ [pData] else h.accepted }

/-- The session's {lit}`on_recv` of one packet. -/
def onRecv (app : Application) (h : Host N R) (packet : List UInt8) : Option (Host N R) :=
  run asyncSend { h with packets := h.packets ++ [packet] } (app.onRecv packet)

/-- The {lit}`EPOLLIN` branch of {lit}`Processor::run` after a {lit}`recv` of
{lit}`chunk`.  {lit}`on_recv` and the loop work on different buffers, so the calls are made
after the loop; no result if the loop does not end. -/
def epollin (app : Application) (h : Host N R) (chunk : List UInt8) : Option (Host N R) :=
  match recvEvent app.readPacket R.val h.receiver chunk with
  | some (.done receiver calls) =>
      run (onRecv app) { h with receiver := receiver } (calls.map (·.data))
  | _ => none

/-- The {lit}`EPOLLOUT` branch of {lit}`Processor::run`, with the bytes that
{lit}`::send` took. -/
def epollout (h : Host N R) (staleErrno sendErrno : Int) (send : SendCall) :
    Option (Host N R × List UInt8) := do
  let data ← h.session.sendBuffer.handlerRange h.session.sendBuffer.snapshot
  let session ← epolloutBranch h.session staleErrno sendErrno send
  some ({ h with session := session }, SendBuffer.consumedBytes data (send.call data))

end Host

/-- Two sessions and the bytes between them: {lit}`outgoing` from {lit}`near` to
{lit}`far`, and {lit}`incoming` the other way. -/
structure State (N R N' R' : BufferSize) where
  near : Host N R
  far : Host N' R'
  outgoing : List UInt8
  incoming : List UInt8

/-- What happens at one end. -/
inductive Event where
  | asyncSend (pData : List UInt8)
  | epollin (len : Nat)
  | epollout (staleErrno sendErrno : Int) (send : SendCall)

/-- The end at which something happens. -/
inductive Side where
  | near
  | far
deriving DecidableEq

namespace State

/-- The connection as the other end sees it. -/
def swap (c : State N R N' R') : State N' R' N R where
  near := c.far
  far := c.near
  outgoing := c.incoming
  incoming := c.outgoing

/-- Two registered sessions with nothing between them. -/
def established (near : Host N R) (far : Host N' R') : State N R N' R' where
  near := near
  far := far
  outgoing := []
  incoming := []

end State

/-- {lit}`recv` can return this many bytes. -/
def CanReceive (c : State N R N' R') (len : Nat) : Prop :=
  0 < len ∧ len ≤ c.incoming.length ∧ (len : Int) ≤ c.near.receiver.recvSize

instance (c : State N R N' R') (len : Nat) : Decidable (CanReceive c len) :=
  inferInstanceAs (Decidable (_ ∧ _ ∧ _))

/-- One event at the near end. -/
def nearStep (app : Application) (c : State N R N' R') :
    Event → Option (State N R N' R')
  | .asyncSend pData => (c.near.asyncSend pData).map fun h => { c with near := h }
  | .epollin len =>
      if CanReceive c len then
        (c.near.epollin app (c.incoming.take len)).map fun h =>
          { c with near := h, incoming := c.incoming.drop len }
      else none
  | .epollout staleErrno sendErrno send =>
      if c.near.session.interest.epollout then
        (c.near.epollout staleErrno sendErrno send).map fun r =>
          { c with near := r.1, outgoing := c.outgoing ++ r.2 }
      else none

/-- One event at either end; no result if it cannot happen or its handler does not end. -/
def step (app app' : Application) (c : State N R N' R') :
    Side × Event → Option (State N R N' R')
  | (.near, e) => nearStep app c e
  | (.far, e) => (nearStep app' c.swap e).map State.swap

/-! ## One call on a host -/

namespace Host

/-- The indices of both buffers are in range. -/
structure InRange (h : Host N R) : Prop where
  sendBuffer : h.session.sendBuffer.InRange
  receiver : h.receiver.InRange

/-- Between the two states of a host {lit}`async_send` has accepted some data, which is
now at the end of what is pending; nothing else has happened. -/
structure Queued (h h' : Host N R) : Prop where
  receiver : h'.receiver = h.receiver
  packets : h'.packets = h.packets
  bytes : ∃ data, h'.accepted = h.accepted ++ data ∧ h'.pending = h.pending ++ data.flatten

theorem Queued.refl (h : Host N R) : Queued h h :=
  ⟨rfl, rfl, [], by simp⟩

theorem Queued.trans {h h' h'' : Host N R} (hfirst : Queued h h') (hthen : Queued h' h'') :
    Queued h h'' := by
  rcases hfirst.bytes with ⟨data, haccepted, hpending⟩
  rcases hthen.bytes with ⟨data', haccepted', hpending'⟩
  refine ⟨hthen.receiver.trans hfirst.receiver, hthen.packets.trans hfirst.packets,
    data ++ data', ?_, ?_⟩
  · rw [haccepted', haccepted, List.append_assoc]
  · rw [hpending', hpending, List.flatten_append, List.append_assoc]

theorem connected_inRange (sendBuf : Buf UInt8 N.val) (recvBuf : Buf UInt8 R.val) :
    (connected sendBuf recvBuf).InRange :=
  ⟨SendBuffer.create_inRange sendBuf, le_rfl, Int.natCast_nonneg _⟩

/-- {lit}`async_send` queues its data or nothing, and asks for {lit}`EPOLLOUT`. -/
theorem asyncSend_spec {h : Host N R} (hr : h.InRange) (pData : List UInt8) :
    ∃ h', h.asyncSend pData = some h' ∧ h'.InRange ∧ Queued h h' ∧
      h'.session.interest.epollout = true := by
  rcases SendBuffer.push_spec hr.sendBuffer pData with ⟨b, ok, hpush, hRange, hpending⟩
  cases ok with
  | true =>
      refine ⟨⟨⟨b, ⟨true, true, true⟩⟩, h.receiver, h.accepted ++ [pData], h.packets⟩, ?_,
        ⟨hRange, hr.receiver⟩, ⟨rfl, rfl, [pData], rfl, ?_⟩, rfl⟩
      · simp [asyncSend, WriteInterest.asyncSend, hpush]
      · simpa [pending] using hpending
  | false =>
      refine ⟨⟨⟨b, ⟨true, true, true⟩⟩, h.receiver, h.accepted, h.packets⟩, ?_,
        ⟨hRange, hr.receiver⟩, ⟨rfl, rfl, [], by simp, ?_⟩, rfl⟩
      · simp [asyncSend, WriteInterest.asyncSend, hpush, RET_OK, RET_ERR]
      · simpa [pending] using hpending

/-- A session with pending bytes has asked for {lit}`EPOLLOUT`. -/
def Interested (h : Host N R) : Prop :=
  WriteInterest.Interested h.session

/-- Any number of {lit}`async_send` calls. -/
theorem run_asyncSend_spec {h : Host N R} (hr : h.InRange) (calls : List (List UInt8)) :
    ∃ h', run asyncSend h calls = some h' ∧ h'.InRange ∧ Queued h h' ∧
      (h.Interested → h'.Interested) := by
  have hstep : ∀ (h₁ : Host N R) pData,
      (h₁.InRange ∧ Queued h h₁ ∧ (h.Interested → h₁.Interested)) →
      ∃ h₂, h₁.asyncSend pData = some h₂ ∧ h₂.InRange ∧ Queued h h₂ ∧
        (h.Interested → h₂.Interested) := by
    intro h₁ pData hinv
    rcases asyncSend_spec hinv.1 pData with ⟨h₂, hsend, hr₂, hqueued, hout⟩
    exact ⟨h₂, hsend, hr₂, hinv.2.1.trans hqueued, fun _ _ => hout⟩
  rcases exists_run hstep ⟨hr, Queued.refl h, id⟩ calls with ⟨h', hrun, hinv⟩
  exact ⟨h', hrun, hinv⟩

/-- {lit}`on_recv` records its packet and queues what it sends. -/
theorem onRecv_spec (app : Application) {h : Host N R} (hr : h.InRange)
    (packet : List UInt8) :
    ∃ h', h.onRecv app packet = some h' ∧ h'.InRange ∧
      Queued { h with packets := h.packets ++ [packet] } h' ∧
      (h.Interested → h'.Interested) :=
  run_asyncSend_spec (h := { h with packets := h.packets ++ [packet] })
    ⟨hr.sendBuffer, hr.receiver⟩ (app.onRecv packet)

/-- The {lit}`on_recv` calls of one event. -/
theorem run_onRecv_spec (app : Application) {h : Host N R} (hr : h.InRange)
    (packets : List (List UInt8)) :
    ∃ h', run (onRecv app) h packets = some h' ∧ h'.InRange ∧
      Queued { h with packets := h.packets ++ packets } h' ∧
      (h.Interested → h'.Interested) := by
  induction packets generalizing h with
  | nil =>
      refine ⟨h, rfl, hr, ?_, id⟩
      rw [List.append_nil]
      exact Queued.refl h
  | cons packet packets ih =>
      rcases onRecv_spec app hr packet with ⟨h₁, hfirst, hr₁, hq₁, hi₁⟩
      rcases ih hr₁ with ⟨h', hrest, hr', hq', hi'⟩
      refine ⟨h', by rw [run_cons, hfirst, Option.bind_some, hrest], hr', ?_,
        fun hi => hi' (hi₁ hi)⟩
      rcases hq₁.bytes with ⟨data, haccepted, hpending⟩
      rcases hq'.bytes with ⟨data', haccepted', hpending'⟩
      refine ⟨hq'.receiver.trans hq₁.receiver, ?_, data ++ data', ?_, ?_⟩
      · rw [hq'.packets]
        show h₁.packets ++ packets = h.packets ++ packet :: packets
        rw [hq₁.packets]
        simp
      · rw [haccepted']
        show h₁.accepted ++ data' = h.accepted ++ (data ++ data')
        rw [haccepted]
        simp
      · rw [hpending']
        show h₁.pending ++ data'.flatten = h.pending ++ (data ++ data').flatten
        rw [hpending]
        simp [pending]

/-- An {lit}`EPOLLIN` event whose loop ends records its packets: they and the new contents
of the receive buffer are the old contents and the bytes received. -/
theorem epollin_spec {app : Application} {h h' : Host N R} {chunk : List UInt8}
    (hr : h.InRange) (hrecv : RecvResult h.receiver chunk)
    (hevent : h.epollin app chunk = some h') :
    h'.InRange ∧ (h.Interested → h'.Interested) ∧
      ∃ receiver calls, EventEnds app.readPacket h.receiver chunk receiver calls ∧
        Queued { h with receiver := receiver, packets := h.packets ++ calls.map (·.data) }
          h' := by
  unfold epollin at hevent
  split at hevent
  · rename_i receiver calls hrecvEvent
    have hends : EventEnds app.readPacket h.receiver chunk receiver calls :=
      ⟨R.val, hrecvEvent⟩
    have hin := (hends.conserves hr.receiver hrecv).1
    rcases run_onRecv_spec app (h := { h with receiver := receiver })
      ⟨hr.sendBuffer, hin⟩ (calls.map (·.data)) with ⟨h₁, hrun, hr₁, hqueued, hi⟩
    rw [hevent] at hrun
    cases hrun
    exact ⟨hr₁, hi, receiver, calls, hends, hqueued⟩
  · contradiction

/-- An {lit}`EPOLLIN` event is handled if {lit}`read_packet` claims no more than the data
at hand. -/
theorem epollin_isSome {app : Application} {h : Host N R} {chunk : List UInt8}
    (hr : h.InRange) (hrecv : RecvResult h.receiver chunk)
    (happ : ∀ d, (app.readPacket d).toInt ≤ d.length) :
    ∃ h', h.epollin app chunk = some h' := by
  rcases recvEvent_eq_greedy happ hr.receiver hrecv le_rfl with ⟨receiver, calls, hevent, -⟩
  have hin := (EventEnds.conserves hr.receiver hrecv ⟨R.val, hevent⟩).1
  rcases run_onRecv_spec app (h := { h with receiver := receiver })
    ⟨hr.sendBuffer, hin⟩ (calls.map (·.data)) with ⟨h', hrun, -⟩
  exact ⟨h', by simp only [epollin, hevent, hrun]⟩

/-- An {lit}`EPOLLOUT` event sends the first pending bytes and keeps the rest. -/
theorem epollout_spec {h : Host N R} (hr : h.InRange) (staleErrno sendErrno : Int)
    (send : SendCall) :
    ∃ h' sent, h.epollout staleErrno sendErrno send = some (h', sent) ∧ h'.InRange ∧
      h'.receiver = h.receiver ∧ h'.packets = h.packets ∧ h'.accepted = h.accepted ∧
      sent = h.pending.take (send.call h.pending).toNat ∧ sent ++ h'.pending = h.pending ∧
      (h'.Interested ↔
        SendSettles h.session (.epollout staleErrno sendErrno send)) := by
  rcases SendBuffer.pop_spec hr.sendBuffer (send.le_length _) with ⟨hrange, -⟩
  rcases epolloutBranch_spec hr.sendBuffer staleErrno sendErrno send with
    ⟨s', hbranch, hRange, hpending, -⟩
  have hint := (step_interested (a := .epollout staleErrno sendErrno send) hr.sendBuffer
    hbranch).2
  refine ⟨{ h with session := s' },
    SendBuffer.consumedBytes h.pending (send.call h.pending), ?_, ⟨hRange, hr.receiver⟩,
    rfl, rfl, rfl, ?_, ?_, hint⟩
  · simp [epollout, hrange, hbranch, pending]
  · unfold SendBuffer.consumedBytes
    split
    · rfl
    · rename_i hpos
      rw [Int.toNat_eq_zero.mpr (not_lt.mp hpos), List.take_zero]
  · show SendBuffer.consumedBytes h.pending (send.call h.pending) ++ s'.sendBuffer.pending =
      h.pending
    rw [hpending]
    exact SendBuffer.consumedBytes_append _ _

end Host

/-! ## One step -/

/-- The bytes that {lit}`recv` returns are a possible result of it. -/
theorem CanReceive.recvResult {c : State N R N' R'} {len : Nat}
    (h : CanReceive c len) : RecvResult c.near.receiver (c.incoming.take len) := by
  rcases h with ⟨hpos, hle, hroom⟩
  constructor
  · rw [List.length_take]
    omega
  · rw [List.length_take, min_eq_left hle]
    exact hroom

/-- What one event at the near end can do. -/
theorem nearStep_cases {app : Application} {c c' : State N R N' R'} {e : Event}
    (hr : c.near.InRange) (hstep : nearStep app c e = some c') :
    (∃ pData h, e = .asyncSend pData ∧ h.InRange ∧ Host.Queued c.near h ∧ h.Interested ∧
      c' = { c with near := h }) ∨
    (∃ len h receiver calls, e = .epollin len ∧ CanReceive c len ∧ h.InRange ∧
      (c.near.Interested → h.Interested) ∧
      EventEnds app.readPacket c.near.receiver (c.incoming.take len) receiver calls ∧
      Host.Queued
        { c.near with
          receiver := receiver
          packets := c.near.packets ++ calls.map (·.data) } h ∧
      c' = { c with near := h, incoming := c.incoming.drop len }) ∨
    (∃ staleErrno sendErrno send h sent, e = .epollout staleErrno sendErrno send ∧
      h.InRange ∧ h.receiver = c.near.receiver ∧ h.packets = c.near.packets ∧
      h.accepted = c.near.accepted ∧ sent ++ h.pending = c.near.pending ∧
      (h.Interested ↔
        SendSettles c.near.session (.epollout staleErrno sendErrno send)) ∧
      c' = { c with near := h, outgoing := c.outgoing ++ sent }) := by
  cases e with
  | asyncSend pData =>
      rcases Host.asyncSend_spec hr pData with ⟨h, hsend, hin, hqueued, hout⟩
      simp only [nearStep, hsend, Option.map_some, Option.some.injEq] at hstep
      exact Or.inl ⟨pData, h, rfl, hin, hqueued, fun _ => hout, hstep.symm⟩
  | epollin len =>
      simp only [nearStep] at hstep
      split at hstep
      · rename_i hcan
        rcases Option.map_eq_some_iff.mp hstep with ⟨h, hevent, hc'⟩
        rcases Host.epollin_spec hr hcan.recvResult hevent with
          ⟨hin, hint, receiver, calls, hends, hqueued⟩
        exact Or.inr (Or.inl ⟨len, h, receiver, calls, rfl, hcan, hin, hint, hends, hqueued,
          hc'.symm⟩)
      · contradiction
  | epollout staleErrno sendErrno send =>
      simp only [nearStep] at hstep
      split at hstep
      · rcases Host.epollout_spec hr staleErrno sendErrno send with
          ⟨h, sent, hevent, hin, hreceiver, hpackets, haccepted, -, hbytes, hint⟩
        simp only [hevent, Option.map_some, Option.some.injEq] at hstep
        exact Or.inr (Or.inr ⟨staleErrno, sendErrno, send, h, sent, rfl, hin, hreceiver,
          hpackets, haccepted, hbytes, hint, hstep.symm⟩)
      · contradiction

end Connection
end TinyNet
