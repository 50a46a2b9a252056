import TinyNet.Backends.Bounds
import TinyNet.Connection.Stream
import TinyNet.Library.Circulation
import TinyNet.SendBuffer.Acceptance

/-!
# The echo programs

The two programs of the repository talk to each other.  The client ({lit}`client.cpp`)
sends a greeting when it is connected; server ({lit}`test.cpp`) and client both send back
whatever {lit}`on_recv` gives them.  The greeting should therefore go round and round.
It does as long as {lit}`async_send` accepts what is sent back, and the only reason for
which it does not is the exact fit that {lit}`SendBuffer::push` refuses.

The near end of the connection is the client.

Main results:

- Theorem {lit}`echo_circulates_iff`: the greeting goes round, without a byte lost,
  repeated or out of place, in exactly those runs in which no echo is an exact fit.
- Theorem {lit}`echo_wholeSends_circulates`: in particular if {lit}`::send` always takes
  all that is pending or nothing.
- Theorem {lit}`echo_never_rests`: while it goes round and every {lit}`::send` settles,
  some worker has an event to handle.
-/

namespace TinyNet
namespace Connection

open Library.Circulation
open Library.FixedBuffer
open Library.MachineInt
open Library.StepSystem
open Library.StreamFraming
open Epoll
open Epoll.WriteInterest
open Backends (eventHandlerReadPacket eventHandlerReadPacket_le)

variable {N R N' R' : BufferSize}

/-- {lit}`TcpSession` of {lit}`test.cpp` and of {lit}`client.cpp`: everything at hand is a
packet, and a packet is sent back. -/
def echoSession : Application where
  readPacket := eventHandlerReadPacket
  onRecv packet := [packet]

/-! ## One echo -/

/-- All bytes at hand are one packet. -/
theorem greedy_eventHandlerReadPacket {d : List UInt8} (hpos : 0 < d.length)
    (hlt : d.length < 2147483648) :
    greedy (cutOf eventHandlerReadPacket) d = ([d], []) := by
  have hcut : ∀ e : List UInt8, e.length < 2147483648 →
      cutOf eventHandlerReadPacket e = e.length := by
    intro e he
    rw [cutOf, eventHandlerReadPacket, Int32.toInt_ofNat_of_lt he, Int.toNat_natCast]
  rw [greedy_of_pos (by rw [hcut d hlt]; exact hpos) (hcut d hlt).le, hcut d hlt,
    List.take_length, List.drop_length, greedy_of_zero (hcut [] (by simp))]

namespace Host

/-- Nothing is left in the receive buffer. -/
def Drained (h : Host N R) : Prop :=
  h.receiver.contents = []

/-- {lit}`async_send` of data that fits queues the data, unless it is an exact fit. -/
theorem asyncSend_of_fits {h : Host N R} (hr : h.InRange) (pData : List UInt8)
    (hfits : h.pending.length + pData.length < N.val) :
    ∃ h', h.asyncSend pData = some h' ∧ h'.InRange ∧ h'.receiver = h.receiver ∧
      h'.packets = h.packets ∧ h'.session.interest.epollout = true ∧
      (h'.pending = if h.session.sendBuffer.exactFit pData then h.pending
        else h.pending ++ pData) ∧
      h.session.sendBuffer.push pData =
        some (h'.session.sendBuffer, !h.session.sendBuffer.exactFit pData) := by
  have hresult := SendBuffer.pushResult_eq hr.sendBuffer pData
  have hlength := hr.sendBuffer.length_pending
  have hfits' : h.session.sendBuffer.fits pData = true := by
    simp only [SendBuffer.fits, decide_eq_true_eq]
    unfold pending at hfits
    omega
  rcases SendBuffer.push_spec hr.sendBuffer pData with ⟨b, ok, hpush, hRange, hpending⟩
  rw [SendBuffer.pushResult, hpush, hfits', Bool.true_and, Option.map_some,
    Option.some_inj] at hresult
  obtain rfl : ok = !h.session.sendBuffer.exactFit pData := hresult
  rcases asyncSend_spec hr pData with ⟨h', hsend, hr', hqueued, hout⟩
  have hbuffer : h'.session.sendBuffer = b := by
    simp only [asyncSend, WriteInterest.asyncSend, hpush, Option.bind_eq_bind,
      Option.bind_some, Option.some.injEq] at hsend
    rw [← hsend]
  refine ⟨h', hsend, hr', hqueued.receiver, hqueued.packets, hout, ?_, by rw [hbuffer, hpush]⟩
  rw [pending, hbuffer, hpending]
  cases h.session.sendBuffer.exactFit pData with
  | true => rfl
  | false => rfl

/-- An echo: the bytes received are one packet and are queued, unless they are an exact
fit.  The receive buffer is empty again. -/
theorem epollin_echo {h : Host N R} (hr : h.InRange) (hdrained : h.Drained)
    {chunk : List UInt8} (hrecv : RecvResult h.receiver chunk)
    (hfits : h.pending.length + chunk.length < N.val) :
    ∃ h', h.epollin echoSession chunk = some h' ∧ h'.InRange ∧ h'.Drained ∧
      h'.packets = h.packets ++ [chunk] ∧ h'.session.interest.epollout = true ∧
      (h'.pending = if h.session.sendBuffer.exactFit chunk then h.pending
        else h.pending ++ chunk) ∧
      h.session.sendBuffer.push chunk =
        some (h'.session.sendBuffer, !h.session.sendBuffer.exactFit chunk) := by
  have hlt : chunk.length < 2147483648 := by
    have hN := N.lt_int
    omega
  rcases recvEvent_eq_greedy eventHandlerReadPacket_le hr.receiver hrecv le_rfl with
    ⟨receiver, calls, hevent, -⟩
  have hends : EventEnds eventHandlerReadPacket h.receiver chunk receiver calls :=
    ⟨R.val, hevent⟩
  have hgreedy := eventEnds_greedy eventHandlerReadPacket_le hr.receiver hrecv hends
  rw [hdrained, List.nil_append, greedy_eventHandlerReadPacket hrecv.1 hlt,
    Prod.mk.injEq] at hgreedy
  rcases hgreedy with ⟨hcalls, hempty⟩
  have hin := (hends.conserves hr.receiver hrecv).1
  rcases asyncSend_of_fits
    (h := { h with receiver := receiver, packets := h.packets ++ [chunk] })
    ⟨hr.sendBuffer, hin⟩ chunk hfits with
    ⟨h', hsend, hr', hreceiver, hpackets, hout, hpending, hpush⟩
  refine ⟨h', ?_, hr', ?_, hpackets, hout, hpending, hpush⟩
  · simp only [epollin, echoSession, hevent, hcalls, run_cons, run_nil, onRecv, hsend,
      Option.bind_some]
  · rw [Drained, hreceiver]
    exact hempty

end Host

/-! ## Going round -/

/-- The bytes that go round, those next to reach the client first. -/
def circulating (c : State N R N' R') : List UInt8 :=
  c.incoming ++ c.far.pending ++ c.outgoing ++ c.near.pending

/-- What the client has received. -/
def received (c : State N R N' R') : List UInt8 :=
  c.near.packets.flatten

/-- The greeting goes round past the client. -/
def Echoes (greeting : List UInt8) (c : State N R N' R') : Prop :=
  Circulates greeting (received c) (circulating c)

/-- An event of a worker, not of the application. -/
def Event.isWorker : Event → Bool
  | .asyncSend _ => false
  | _ => true

/-- The bytes received by an event are no exact fit for the send buffer of the host. -/
def eventFits (h : Host N R) (wire : List UInt8) : Event → Bool
  | .epollin len => !h.session.sendBuffer.exactFit (wire.take len)
  | _ => true

/-- The event does not echo an exact fit. -/
def echoFits (c : State N R N' R') : Side × Event → Bool
  | (.near, e) => eventFits c.near c.incoming e
  | (.far, e) => eventFits c.far c.outgoing e

/-- The {lit}`::send` of the event takes all that is pending or nothing. -/
def eventWhole (h : Host N R) : Event → Bool
  | .epollout _ _ send => send.call h.pending ≤ 0 || send.call h.pending = h.pending.length
  | _ => true

/-- The event sends all that is pending where it happens, or nothing. -/
def sendsWhole (c : State N R N' R') : Side × Event → Bool
  | (.near, e) => eventWhole c.near e
  | (.far, e) => eventWhole c.far e

/-- What holds after every event: both hosts are in order and drained, and no more bytes
go round than the greeting has, which fits both send buffers. -/
structure EchoInv (limit : Nat) (c : State N R N' R') : Prop where
  near : c.near.InRange
  far : c.far.InRange
  near_drained : c.near.Drained
  far_drained : c.far.Drained
  length_le : (circulating c).length ≤ limit
  near_lt : limit < N.val
  far_lt : limit < N'.val

theorem length_circulating_swap (c : State N R N' R') :
    (circulating c.swap).length = (circulating c).length := by
  simp only [circulating, State.swap, List.length_append]
  omega

theorem EchoInv.swap {limit : Nat} {c : State N R N' R'} (h : EchoInv limit c) :
    EchoInv limit c.swap :=
  ⟨h.far, h.near, h.far_drained, h.near_drained,
    (length_circulating_swap c).trans_le h.length_le, h.far_lt, h.near_lt⟩

/-- What the client would echo fits its send buffer. -/
theorem EchoInv.fits {limit : Nat} {c : State N R N' R'} (h : EchoInv limit c) (len : Nat) :
    c.near.pending.length + (c.incoming.take len).length < N.val := by
  have hle := h.length_le
  have hlt := h.near_lt
  simp only [circulating, List.length_append] at hle
  rw [List.length_take]
  omega

/-- What an event of the client's worker does. -/
theorem nearStep_echo {limit : Nat} {c c' : State N R N' R'} {e : Event}
    (h : EchoInv limit c) (hworker : e.isWorker = true)
    (hstep : nearStep echoSession c e = some c') :
    c'.near.InRange ∧ c'.near.Drained ∧ c'.far = c.far ∧
    ((∃ len, e = .epollin len ∧ CanReceive c len ∧
        c'.near.packets = c.near.packets ++ [c.incoming.take len] ∧
        c'.incoming = c.incoming.drop len ∧ c'.outgoing = c.outgoing ∧
        c'.near.session.interest.epollout = true ∧
        (c'.near.pending =
          if c.near.session.sendBuffer.exactFit (c.incoming.take len) then c.near.pending
          else c.near.pending ++ c.incoming.take len) ∧
        c.near.session.sendBuffer.push (c.incoming.take len) =
          some (c'.near.session.sendBuffer,
            !c.near.session.sendBuffer.exactFit (c.incoming.take len))) ∨
      ∃ staleErrno sendErrno send sent, e = .epollout staleErrno sendErrno send ∧
        c'.near.packets = c.near.packets ∧ c'.incoming = c.incoming ∧
        c'.outgoing = c.outgoing ++ sent ∧ sent ++ c'.near.pending = c.near.pending ∧
        epolloutBranch c.near.session staleErrno sendErrno send = some c'.near.session) := by
  cases e with
  | asyncSend pData => simp [Event.isWorker] at hworker
  | epollin len =>
      simp only [nearStep] at hstep
      split at hstep
      · rename_i hcan
        rcases Host.epollin_echo h.near h.near_drained hcan.recvResult (h.fits len) with
          ⟨host, hevent, hin, hdrained, hpackets, hout, hpending, hpush⟩
        simp only [hevent, Option.map_some, Option.some.injEq] at hstep
        subst hstep
        exact ⟨hin, hdrained, rfl,
          Or.inl ⟨len, rfl, hcan, hpackets, rfl, rfl, hout, hpending, hpush⟩⟩
      · contradiction
  | epollout staleErrno sendErrno send =>
      simp only [nearStep] at hstep
      split at hstep
      · rcases Host.epollout_spec h.near staleErrno sendErrno send with
          ⟨host, sent, hevent, hin, hreceiver, hpackets, -, -, hbytes, -⟩
        simp only [hevent, Option.map_some, Option.some.injEq] at hstep
        subst hstep
        have hdrained : host.Drained := by
          rw [Host.Drained, hreceiver]
          exact h.near_drained
        have hbranch : epolloutBranch c.near.session staleErrno sendErrno send =
            some host.session := by
          simp only [Host.epollout, Option.bind_eq_bind, Option.bind_eq_some_iff] at hevent
          rcases hevent with ⟨data, -, session, hsession, heq⟩
          simp only [Option.some.injEq, Prod.mk.injEq] at heq
          rw [hsession, ← heq.1]
        exact ⟨hin, hdrained, rfl,
          Or.inr ⟨staleErrno, sendErrno, send, sent, rfl, hpackets, rfl, rfl, hbytes, hbranch⟩⟩
      · contradiction

/-- The first bytes of the ring pass the client, or nothing moves past it. -/
def Turns (c c' : State N R N' R') : Prop :=
  ∃ front back, circulating c = front ++ back ∧ received c' = received c ++ front ∧
    circulating c' = back ++ front

/-- The ring loses bytes. -/
def Loses (c c' : State N R N' R') : Prop :=
  (circulating c').length < (circulating c).length

theorem Turns.of_eq {c c' : State N R N' R'} (hring : circulating c' = circulating c)
    (hreceived : received c' = received c) : Turns c c' :=
  ⟨[], circulating c, rfl, by rw [hreceived, List.append_nil], by rw [hring, List.append_nil]⟩

theorem Turns.length_le {c c' : State N R N' R'} (h : Turns c c') :
    (circulating c').length = (circulating c).length := by
  rcases h with ⟨front, back, hring, -, hring'⟩
  rw [hring, hring', List.length_append, List.length_append, Nat.add_comm]

/-- An event of the client's worker turns the ring, unless it echoes an exact fit. -/
theorem nearStep_turns {limit : Nat} {c c' : State N R N' R'} {e : Event}
    (h : EchoInv limit c) (hworker : e.isWorker = true)
    (hstep : nearStep echoSession c e = some c') :
    if eventFits c.near c.incoming e then Turns c c' else Loses c c' := by
  rcases nearStep_echo h hworker hstep with ⟨-, -, hfar, hcases⟩
  rcases hcases with
    ⟨len, rfl, hcan, hpackets, hincoming, houtgoing, -, hpending, -⟩ |
    ⟨staleErrno, sendErrno, send, sent, rfl, hpackets, hincoming, houtgoing, hbytes, -⟩
  · have hsplit : circulating c = c.incoming.take len ++
        (c.incoming.drop len ++ c.far.pending ++ c.outgoing ++ c.near.pending) := by
      rw [circulating]
      simp only [← List.append_assoc, List.take_append_drop]
    cases hexact : c.near.session.sendBuffer.exactFit (c.incoming.take len) with
    | false =>
        rw [hexact] at hpending
        simp only [eventFits, hexact, Bool.not_false, if_true]
        refine ⟨_, _, hsplit, ?_, ?_⟩
        · rw [received, hpackets, List.flatten_append, List.flatten_singleton, received]
        · rw [circulating, hincoming, houtgoing, hfar, hpending]
          simp
    | true =>
        rw [hexact] at hpending
        simp only [eventFits, hexact, Bool.not_true, Bool.false_eq_true, if_false]
        rw [Loses, hsplit, circulating, hincoming, houtgoing, hfar, hpending]
        have hpos := hcan.recvResult.1
        simp only [if_true, List.length_append]
        omega
  · simp only [eventFits, if_true]
    refine Turns.of_eq ?_ (by rw [received, hpackets, received])
    rw [circulating, circulating, hincoming, houtgoing, hfar, ← hbytes]
    simp only [List.append_assoc]

/-- An event of the server's worker leaves the ring as it is, unless it echoes an exact
fit. -/
theorem farStep_turns {limit : Nat} {c : State N R N' R'} {d : State N' R' N R} {e : Event}
    (h : EchoInv limit c) (hworker : e.isWorker = true)
    (hstep : nearStep echoSession c.swap e = some d) :
    if eventFits c.far c.outgoing e then Turns c d.swap else Loses c d.swap := by
  rcases nearStep_echo h.swap hworker hstep with ⟨-, -, hfar, hcases⟩
  have hreceived : received d.swap = received c := by
    show d.far.packets.flatten = c.near.packets.flatten
    rw [hfar]
    rfl
  rcases hcases with
    ⟨len, rfl, hcan, hpackets, hincoming, houtgoing, -, hpending, -⟩ |
    ⟨staleErrno, sendErrno, send, sent, rfl, hpackets, hincoming, houtgoing, hbytes, -⟩
  · simp only [State.swap] at hincoming houtgoing hfar
    have hpending : d.near.pending =
        if c.far.session.sendBuffer.exactFit (c.outgoing.take len) then c.far.pending
        else c.far.pending ++ c.outgoing.take len := hpending
    cases hexact : c.far.session.sendBuffer.exactFit (c.outgoing.take len) with
    | false =>
        rw [hexact] at hpending
        simp only [eventFits, hexact, Bool.not_false, if_true]
        refine Turns.of_eq ?_ hreceived
        simp only [circulating, State.swap, hincoming, houtgoing, hfar, hpending]
        simp
    | true =>
        rw [hexact] at hpending
        simp only [eventFits, hexact, Bool.not_true, Bool.false_eq_true, if_false]
        have hpos := hcan.1
        have hle := hcan.2.1
        simp only [State.swap] at hle
        simp only [Loses, circulating, State.swap, hincoming, houtgoing, hfar, hpending,
          if_true, List.length_append, List.length_drop]
        omega
  · simp only [State.swap] at hincoming houtgoing hbytes hfar
    simp only [eventFits, if_true]
    refine Turns.of_eq ?_ hreceived
    simp only [circulating, State.swap, hincoming, houtgoing, hfar, ← hbytes,
      List.append_assoc]

/-- One event of either worker of the two programs. -/
def echoStep (c : State N R N' R') (a : Side × Event) : Option (State N R N' R') :=
  if a.2.isWorker then step echoSession echoSession c a else none

theorem echoStep_eq_some {c c' : State N R N' R'} {a : Side × Event}
    (h : echoStep c a = some c') :
    a.2.isWorker = true ∧ step echoSession echoSession c a = some c' := by
  unfold echoStep at h
  split at h
  · rename_i hworker
    exact ⟨hworker, h⟩
  · contradiction

/-- An event turns the ring, unless it echoes an exact fit. -/
theorem echoStep_turns {limit : Nat} {c c' : State N R N' R'} {a : Side × Event}
    (h : EchoInv limit c) (hstep : echoStep c a = some c') :
    if echoFits c a then Turns c c' else Loses c c' := by
  rcases echoStep_eq_some hstep with ⟨hworker, hstep⟩
  rcases a with ⟨side, e⟩
  cases side with
  | near => exact nearStep_turns h hworker hstep
  | far =>
      rcases Option.map_eq_some_iff.mp hstep with ⟨d, hd, rfl⟩
      exact farStep_turns h hworker hd

theorem echoStep_length_le {limit : Nat} {c c' : State N R N' R'} {a : Side × Event}
    (h : EchoInv limit c) (hstep : echoStep c a = some c') :
    (circulating c').length ≤ limit := by
  have hturns := echoStep_turns h hstep
  have hle := h.length_le
  split at hturns
  · rw [hturns.length_le]
    exact hle
  · unfold Loses at hturns
    omega

/-- Every event keeps the hosts in order. -/
theorem echoStep_inv {limit : Nat} {c c' : State N R N' R'} {a : Side × Event}
    (h : EchoInv limit c) (hstep : echoStep c a = some c') : EchoInv limit c' := by
  have hlength := echoStep_length_le h hstep
  rcases echoStep_eq_some hstep with ⟨hworker, hstep⟩
  rcases a with ⟨side, e⟩
  cases side with
  | near =>
      rcases nearStep_echo h hworker hstep with ⟨hin, hdrained, hfar, -⟩
      exact ⟨hin, hfar ▸ h.far, hdrained, hfar ▸ h.far_drained, hlength, h.near_lt, h.far_lt⟩
  | far =>
      rcases Option.map_eq_some_iff.mp hstep with ⟨d, hd, rfl⟩
      rcases nearStep_echo h.swap hworker hd with ⟨hin, hdrained, hfar, -⟩
      have hnear : d.swap.near = c.near := hfar
      exact ⟨hnear ▸ h.near, hin, hnear ▸ h.near_drained, hdrained, hlength, h.near_lt,
        h.far_lt⟩

/-- An event that echoes no exact fit keeps the greeting going round. -/
theorem Echoes.turn {greeting : List UInt8} {c c' : State N R N' R'}
    (h : Echoes greeting c) (hturns : Turns c c') : Echoes greeting c' := by
  rcases hturns with ⟨front, back, hring, hreceived, hring'⟩
  unfold Echoes at h ⊢
  rw [hring] at h
  rw [hreceived, hring']
  exact h.turn

/-- If the greeting still goes round after an event, that did not echo an exact fit. -/
theorem echoFits_of_echoes {greeting : List UInt8} {c c' : State N R N' R'}
    {a : Side × Event} (h : EchoInv greeting.length c) (hstep : echoStep c a = some c')
    (hechoes : Echoes greeting c') : echoFits c a = true := by
  have hturns := echoStep_turns h hstep
  have hle := h.length_le
  by_contra hfits
  rw [if_neg hfits] at hturns
  unfold Loses at hturns
  rw [hechoes.length_eq] at hturns
  omega

/-- The client is connected and has sent its greeting from {lit}`on_connect`. -/
def Greeted (greeting : List UInt8) (c : State N R N' R') : Prop :=
  ∃ sendBuf recvBuf sendBuf' recvBuf',
    step echoSession echoSession (start sendBuf recvBuf sendBuf' recvBuf')
      (.near, .asyncSend greeting) = some c

/-- After the greeting, its bytes are pending at the client. -/
theorem Greeted.inv {greeting : List UInt8} {c : State N R N' R'} (h : Greeted greeting c)
    (hN : greeting.length < N.val) (hN' : greeting.length < N'.val) :
    EchoInv greeting.length c ∧ Echoes greeting c ∧ c.near.Interested ∧
      c.far.Interested := by
  rcases h with ⟨sendBuf, recvBuf, sendBuf', recvBuf', hstep⟩
  have hr := Host.connected_inRange sendBuf recvBuf
  have hempty : (Host.connected sendBuf recvBuf).pending = [] :=
    SendBuffer.create_pending sendBuf
  have hempty' : (Host.connected sendBuf' recvBuf').pending = [] :=
    SendBuffer.create_pending sendBuf'
  rcases Host.asyncSend_of_fits hr greeting (by rw [hempty]; simpa using hN) with
    ⟨host, hsend, hin, hreceiver, hpackets, hout, hpending, -⟩
  have hexact : (Host.connected sendBuf recvBuf).session.sendBuffer.exactFit greeting =
      false := rfl
  rw [hexact, hempty] at hpending
  simp only [step, nearStep, start, State.established, hsend, Option.map_some,
    Option.some.injEq] at hstep
  subst hstep
  have hdrained : host.Drained := by
    rw [Host.Drained, hreceiver]
    simp [Host.connected, Receiver.contents, Receiver.create]
  have hdrained' : (Host.connected sendBuf' recvBuf').Drained := by
    simp [Host.Drained, Host.connected, Receiver.contents, Receiver.create]
  have hring : [] ++ (Host.connected sendBuf' recvBuf').pending ++ [] ++ host.pending =
      greeting := by
    rw [hempty', hpending]
    simp
  refine ⟨⟨hin, Host.connected_inRange sendBuf' recvBuf', hdrained, hdrained', ?_, hN, hN'⟩,
    ?_, fun _ => hout, fun hne => absurd hempty' hne⟩
  · exact (congrArg List.length hring).le
  · unfold Echoes circulating received
    simp only [hring, hpackets]
    exact Circulates.start greeting

/-- {lit}`SendBufSize` of the client. -/
def clientSendBufSize : BufferSize := ⟨64, by decide, by decide⟩

/-- {lit}`RecvBufSize` of the client. -/
def clientRecvBufSize : BufferSize := ⟨8192, by decide, by decide⟩

/-- {lit}`RecvBufSize` and {lit}`SendBufSize` of the server. -/
def serverBufSize : BufferSize := ⟨48000, by decide, by decide⟩

/-- The client's greeting, {lit}`"hello world"`. -/
def helloWorld : List UInt8 := [104, 101, 108, 108, 111, 32, 119, 111, 114, 108, 100]

/-- The greeting of a client whose send buffer holds it is accepted. -/
theorem exists_greeted {greeting : List UInt8} (hN : greeting.length < N.val) :
    ∃ c : State N R N' R', Greeted greeting c := by
  have hempty : (Host.connected (N := N) (R := R) (.replicate N.val 0)
      (.replicate R.val 0)).pending = [] := SendBuffer.create_pending _
  rcases Host.asyncSend_of_fits (Host.connected_inRange (N := N) (R := R)
    (.replicate N.val 0) (.replicate R.val 0)) greeting
    (by rw [hempty]; simpa using hN) with ⟨host, hsend, -⟩
  refine ⟨⟨host, .connected (.replicate N'.val 0) (.replicate R'.val 0), [], []⟩,
    .replicate N.val 0, .replicate R.val 0, .replicate N'.val 0, .replicate R'.val 0, ?_⟩
  simp [step, nearStep, start, State.established, hsend]

/-- The client's greeting fits both send buffers and both programs only echo.  At every
state of a run of the two workers the ring of the two send buffers and the two streams is
the greeting, turned by what the client has received, and what the client has received is
the greeting over and over, exactly if no event of the run echoes bytes that fill the room
of the send buffer exactly. -/
theorem echo_circulates_iff {greeting : List UInt8} {c : State N R N' R'}
    (hgreeted : Greeted greeting c) (hN : greeting.length < N.val)
    (hN' : greeting.length < N'.val) (acts : List (Side × Event)) :
    Always echoStep (Echoes greeting) c acts ↔
      EachStep echoStep (fun c a => echoFits c a = true) c acts := by
  rcases hgreeted.inv hN hN' with ⟨hinv, hechoes, -⟩
  constructor
  · intro halways
    exact eachStep_of_always (fun _ _ _ hs hstep => echoStep_inv hs hstep)
      (fun _ _ _ hs hstep hP => echoFits_of_echoes hs hstep hP) hinv halways
  · intro hfits
    have hkeep : ∀ (s : State N R N' R') a s',
        EchoInv greeting.length s ∧ Echoes greeting s → echoFits s a = true →
        echoStep s a = some s' → EchoInv greeting.length s' ∧ Echoes greeting s' := by
      intro s a s' hs hok hstep
      have hturns := echoStep_turns hs.1 hstep
      rw [if_pos hok] at hturns
      exact ⟨echoStep_inv hs.1 hstep, hs.2.turn hturns⟩
    exact always_of_eachStep hkeep (fun _ hs => hs.2) ⟨hinv, hechoes⟩ hfits

theorem echo_circulates_iff_helloWorld :
    ∃ c : State clientSendBufSize clientRecvBufSize serverBufSize serverBufSize,
      Greeted helloWorld c ∧ ∀ acts, Always echoStep (Echoes helloWorld) c acts ↔
        EachStep echoStep (fun c a => echoFits c a = true) c acts := by
  have hgreeted : ∃ c : State clientSendBufSize clientRecvBufSize serverBufSize
      serverBufSize, Greeted helloWorld c := exists_greeted (by decide)
  rcases hgreeted with ⟨c, hc⟩
  exact ⟨c, hc, echo_circulates_iff hc (by decide) (by decide)⟩

/-- One turn of two bytes, in buffers of four. -/
def oneTurn : List (Side × Event) :=
  [(.near, .epollout 0 0 wholeSend), (.far, .epollin 2), (.far, .epollout 0 0 wholeSend),
    (.near, .epollin 1), (.near, .epollin 1)]

/-- The two bytes come back to the client; every {lit}`::send` takes everything and nothing
is an exact fit. -/
theorem oneTurn_result :
    ∃ c c' : State four four four four, Greeted [1, 2] c ∧ run echoStep c oneTurn = some c' ∧
      received c' = [1, 2] ∧ checkSteps echoStep sendsWhole c oneTurn = true ∧
      checkSteps echoStep (fun c a => echoFits c a && Settles c a) c oneTurn = true := by
  have hturn : (step echoSession echoSession (start (.replicate four.val 0)
      (.replicate four.val 0) (.replicate four.val 0) (.replicate four.val 0))
      (.near, .asyncSend [1, 2])).map (fun c =>
        ((run echoStep c oneTurn).map received, checkSteps echoStep sendsWhole c oneTurn,
          checkSteps echoStep (fun c a => echoFits c a && Settles c a) c oneTurn)) =
      some (some [1, 2], true, true) := by
    decide +kernel
  rcases Option.map_eq_some_iff.mp hturn with ⟨c, hc, heq⟩
  simp only [Prod.mk.injEq] at heq
  rcases Option.map_eq_some_iff.mp heq.1 with ⟨c', hc', hreceived⟩
  exact ⟨c, c', ⟨_, _, _, _, hc⟩, hc', hreceived, heq.2⟩

/-! ## Never at rest -/

/-- A drained receive buffer has room. -/
theorem Host.Drained.recvSize_pos {h : Host N R} (hr : h.InRange) (hd : h.Drained) :
    0 < h.receiver.recvSize := by
  have hlen := congrArg List.length hd
  rw [Receiver.contents, Buf.length_range le_rfl hr.receiver.1 hr.receiver.2,
    List.length_nil] at hlen
  have hnonneg := hr.receiver.1
  have hR := R.one_le
  unfold Receiver.recvSize
  omega

/-- The greeting goes round and both hosts ask for {lit}`EPOLLOUT` when they must. -/
structure EchoLive (greeting : List UInt8) (c : State N R N' R') : Prop where
  inv : EchoInv greeting.length c
  echoes : Echoes greeting c
  near : c.near.Interested
  far : c.far.Interested

/-- A settled event of the client's worker keeps the write interest. -/
theorem nearStep_echo_interested {limit : Nat} {c c' : State N R N' R'} {e : Event}
    (h : EchoInv limit c) (hworker : e.isWorker = true)
    (hsettles : EventSettles c.near e = true)
    (hstep : nearStep echoSession c e = some c') : c'.near.Interested := by
  rcases nearStep_echo h hworker hstep with ⟨-, -, -, hcases⟩
  rcases hcases with
    ⟨len, -, -, -, -, -, hout, -⟩ |
    ⟨staleErrno, sendErrno, send, sent, rfl, -, -, -, -, hbranch⟩
  · exact fun _ => hout
  · exact (step_interested (a := .epollout staleErrno sendErrno send) h.near.sendBuffer
      hbranch).2.mpr (sendSettles_of_eventSettles hsettles)

/-- A settled event that echoes no exact fit keeps all of it. -/
theorem echoStep_live {greeting : List UInt8} {c c' : State N R N' R'} {a : Side × Event}
    (h : EchoLive greeting c) (hok : (echoFits c a && Settles c a) = true)
    (hstep : echoStep c a = some c') : EchoLive greeting c' := by
  rw [Bool.and_eq_true] at hok
  have hturns := echoStep_turns h.inv hstep
  rw [if_pos hok.1] at hturns
  have hinv := echoStep_inv h.inv hstep
  have hechoes := h.echoes.turn hturns
  rcases echoStep_eq_some hstep with ⟨hworker, hstep⟩
  rcases a with ⟨side, e⟩
  cases side with
  | near =>
      rcases nearStep_echo h.inv hworker hstep with ⟨-, -, hfar, -⟩
      exact ⟨hinv, hechoes, nearStep_echo_interested h.inv hworker hok.2 hstep, hfar ▸ h.far⟩
  | far =>
      rcases Option.map_eq_some_iff.mp hstep with ⟨d, hd, rfl⟩
      rcases nearStep_echo h.inv.swap hworker hd with ⟨-, -, hfar, -⟩
      have hnear : d.swap.near = c.near := hfar
      exact ⟨hinv, hechoes, hnear ▸ h.near,
        nearStep_echo_interested h.inv.swap hworker hok.2 hd⟩

/-- At rest nothing goes round. -/
theorem EchoLive.circulating_eq_nil {greeting : List UInt8} {c : State N R N' R'}
    (h : EchoLive greeting c) (hrest : Quiescent echoSession echoSession c) :
    circulating c = [] := by
  have hin := hrest.1.incoming_eq_nil h.inv.near (h.inv.near_drained.recvSize_pos h.inv.near)
    eventHandlerReadPacket_le
  have hout : c.outgoing = [] :=
    hrest.2.incoming_eq_nil h.inv.far (h.inv.far_drained.recvSize_pos h.inv.far)
      eventHandlerReadPacket_le
  have hnear := hrest.1.pending_eq_nil h.inv.near h.near
  have hfar : c.far.pending = [] := hrest.2.pending_eq_nil h.inv.far h.far
  simp [circulating, hin, hout, hnear, hfar]

/-- If no echo of the run was an exact fit and every {lit}`::send` settled, some worker has
an event that moves a byte: the two programs never come to rest. -/
theorem echo_never_rests {greeting : List UInt8} {c c' : State N R N' R'}
    (hgreeted : Greeted greeting c) (hN : greeting.length < N.val)
    (hN' : greeting.length < N'.val) (hne : greeting ≠ []) {acts : List (Side × Event)}
    (hok : EachStep echoStep (fun c a => (echoFits c a && Settles c a) = true) c acts)
    (hrun : run echoStep c acts = some c') : ¬ Quiescent echoSession echoSession c' := by
  rcases hgreeted.inv hN hN' with ⟨hinv, hechoes, hnear, hfar⟩
  have hlive : EchoLive greeting c' :=
    run_invariant_of_eachStep (fun _ _ _ hs hok hstep => echoStep_live hs hok hstep)
      ⟨hinv, hechoes, hnear, hfar⟩ hok hrun
  intro hrest
  have hlen := hlive.echoes.length_eq
  rw [hlive.circulating_eq_nil hrest, List.length_nil] at hlen
  exact hne (List.length_eq_zero_iff.mp hlen.symm)

theorem echo_never_rests_oneTurn :
    ∃ c c' : State four four four four,
      Greeted [1, 2] c ∧ run echoStep c oneTurn = some c' ∧
        ¬ Quiescent echoSession echoSession c' := by
  rcases oneTurn_result with ⟨c, c', hc, hrun, -, -, hok⟩
  exact ⟨c, c', hc, hrun, echo_never_rests hc (by decide) (by decide) (by decide)
    (eachStep_of_checkSteps (fun _ _ h => h) hok) hrun⟩

/-! ## Whole sends -/

/-- The pending bytes start at the front of the buffer. -/
def Host.AtFront (h : Host N R) : Prop :=
  h.session.sendBuffer.dataHead = 0

/-- Nothing is an exact fit for a buffer whose pending bytes start at the front. -/
theorem Host.AtFront.exactFit {h : Host N R} (hfront : h.AtFront) (pData : List UInt8) :
    h.session.sendBuffer.exactFit pData = false := by
  unfold AtFront at hfront
  simp [SendBuffer.exactFit, hfront]

/-- {lit}`push` does not move the front of the pending bytes away from zero. -/
theorem push_dataHead {b b' : SendBuffer N} {pData : List UInt8} {ok : Bool}
    (hb : b.dataHead = 0) (hpush : b.push pData = some (b', ok)) : b'.dataHead = 0 := by
  have happend : ∀ {r}, b.append pData = some r → r.1.dataHead = 0 := by
    intro r hr
    unfold SendBuffer.append at hr
    split at hr
    · rcases Option.bind_eq_some_iff.mp hr with ⟨buf, -, heq⟩
      cases heq
      exact hb
    · cases hr
      exact hb
  unfold SendBuffer.push at hpush
  split at hpush
  · rw [if_neg (by omega)] at hpush
    cases hpush
    exact hb
  · exact happend hpush

/-- A {lit}`::send` of everything or nothing leaves what is pending at the front. -/
theorem epolloutBranch_dataHead {s s' : Session N} (hr : s.sendBuffer.InRange)
    (hs : s.sendBuffer.dataHead = 0) {staleErrno sendErrno : Int} {send : SendCall}
    (hwhole : send.call s.sendBuffer.pending ≤ 0 ∨
      send.call s.sendBuffer.pending = s.sendBuffer.pending.length)
    (hbranch : epolloutBranch s staleErrno sendErrno send = some s') :
    s'.sendBuffer.dataHead = 0 := by
  rcases SendBuffer.pop_spec hr (send.le_length _) with ⟨hrange, -⟩
  have hsnapshot : s.sendBuffer.snapshot = s.sendBuffer.pending.length :=
    hr.length_pending.symm
  have hpop : ∀ r, s.sendBuffer.pop send.call = some r → r.1.dataHead = 0 := by
    intro r hr
    simp only [SendBuffer.pop, hrange, Option.bind_eq_bind, Option.bind_some] at hr
    split at hr
    · cases hr
      exact hs
    · rename_i hpos
      have hall := hwhole.resolve_left hpos
      simp only [Option.some.injEq] at hr
      rw [← hr, SendBuffer.finish, if_neg (by omega)]
  simp only [epolloutBranch, hrange, Option.bind_eq_bind, Option.bind_some,
    Option.bind_eq_some_iff] at hbranch
  rcases hbranch with ⟨r, hr, hif⟩
  have hfront := hpop r hr
  split at hif
  · cases hif
    exact hfront
  · cases hif
    exact hfront

/-- An event of the client's worker keeps its pending bytes at the front. -/
theorem nearStep_atFront {limit : Nat} {c c' : State N R N' R'} {e : Event}
    (h : EchoInv limit c) (hworker : e.isWorker = true) (hfront : c.near.AtFront)
    (hwhole : eventWhole c.near e = true) (hstep : nearStep echoSession c e = some c') :
    c'.near.AtFront := by
  rcases nearStep_echo h hworker hstep with ⟨-, -, -, hcases⟩
  rcases hcases with
    ⟨len, -, -, -, -, -, -, -, hpush⟩ |
    ⟨staleErrno, sendErrno, send, sent, rfl, -, -, -, -, hbranch⟩
  · exact push_dataHead hfront hpush
  · simp only [eventWhole, Bool.or_eq_true, decide_eq_true_eq] at hwhole
    exact epolloutBranch_dataHead h.near.sendBuffer hfront hwhole hbranch

/-- Both hosts keep their pending bytes at the front. -/
theorem echoStep_atFront {limit : Nat} {c c' : State N R N' R'} {a : Side × Event}
    (h : EchoInv limit c) (hfront : c.near.AtFront ∧ c.far.AtFront)
    (hwhole : sendsWhole c a = true) (hstep : echoStep c a = some c') :
    c'.near.AtFront ∧ c'.far.AtFront := by
  rcases echoStep_eq_some hstep with ⟨hworker, hstep⟩
  rcases a with ⟨side, e⟩
  cases side with
  | near =>
      rcases nearStep_echo h hworker hstep with ⟨-, -, hfar, -⟩
      exact ⟨nearStep_atFront h hworker hfront.1 hwhole hstep, hfar ▸ hfront.2⟩
  | far =>
      rcases Option.map_eq_some_iff.mp hstep with ⟨d, hd, rfl⟩
      rcases nearStep_echo h.swap hworker hd with ⟨-, -, hfar, -⟩
      have hnear : d.swap.near = c.near := hfar
      exact ⟨hnear ▸ hfront.1, nearStep_atFront h.swap hworker hfront.2 hwhole hd⟩

/-- Pending bytes at the front leave no exact fit. -/
theorem echoFits_of_atFront {c : State N R N' R'}
    (hfront : c.near.AtFront ∧ c.far.AtFront) (a : Side × Event) : echoFits c a = true := by
  rcases a with ⟨side, e⟩
  cases side <;> cases e <;>
    simp [echoFits, eventFits, hfront.1.exactFit, hfront.2.exactFit]

/-- The pending bytes are at the front after the greeting. -/
theorem Greeted.atFront {greeting : List UInt8} {c : State N R N' R'}
    (h : Greeted greeting c) (hN : greeting.length < N.val) :
    c.near.AtFront ∧ c.far.AtFront := by
  rcases h with ⟨sendBuf, recvBuf, sendBuf', recvBuf', hstep⟩
  have hempty : (Host.connected sendBuf recvBuf).pending = [] :=
    SendBuffer.create_pending sendBuf
  rcases Host.asyncSend_of_fits (Host.connected_inRange sendBuf recvBuf) greeting
    (by rw [hempty]; simpa using hN) with ⟨host, hsend, -, -, -, -, -, hpush⟩
  simp only [step, nearStep, start, State.established, hsend, Option.map_some,
    Option.some.injEq] at hstep
  subst hstep
  exact ⟨push_dataHead rfl hpush, rfl⟩

/-- If {lit}`::send` always takes all that is pending or nothing, the greeting goes round
for ever without loss. -/
theorem echo_wholeSends_circulates {greeting : List UInt8} {c : State N R N' R'}
    (hgreeted : Greeted greeting c) (hN : greeting.length < N.val)
    (hN' : greeting.length < N'.val) {acts : List (Side × Event)}
    (hwhole : EachStep echoStep (fun c a => sendsWhole c a = true) c acts) :
    Always echoStep (Echoes greeting) c acts := by
  rcases hgreeted.inv hN hN' with ⟨hinv, hechoes, -⟩
  have hkeep : ∀ (s : State N R N' R') a s',
      (EchoInv greeting.length s ∧ Echoes greeting s ∧ s.near.AtFront ∧ s.far.AtFront) →
      sendsWhole s a = true → echoStep s a = some s' →
      EchoInv greeting.length s' ∧ Echoes greeting s' ∧ s'.near.AtFront ∧
        s'.far.AtFront := by
    intro s a s' hs hok hstep
    have hturns := echoStep_turns hs.1 hstep
    rw [if_pos (echoFits_of_atFront hs.2.2 a)] at hturns
    exact ⟨echoStep_inv hs.1 hstep, hs.2.1.turn hturns,
      echoStep_atFront hs.1 hs.2.2 hok hstep⟩
  exact always_of_eachStep hkeep (fun _ hs => hs.2.1)
    ⟨hinv, hechoes, hgreeted.atFront hN⟩ hwhole

example :
    ∃ c : State four four four four,
      Greeted [1, 2] c ∧ Always echoStep (Echoes [1, 2]) c oneTurn := by
  rcases oneTurn_result with ⟨c, c', hc, -, -, hwhole, -⟩
  exact ⟨c, hc, echo_wholeSends_circulates hc (by decide) (by decide)
    (eachStep_of_checkSteps (fun _ _ h => h) hwhole)⟩

end Connection
end TinyNet
