import TinyNet.Backends.Bounds
import TinyNet.Library.Holders
import TinyNet.Service.Reports
import TinyNet.Session.Protocol

/-!
# Sessions at a completion port

This file embeds the life of a session in {lit}`detail/iocpnet.hpp`.  A listener or connector
makes the session, sets its {lit}`event` to {lit}`EVT_CONNECT` and posts it to the port.  A
worker takes a completion from the port, does what {lit}`event` says, and ends by starting the
next {lit}`WSARecv`, by posting the session again, or by deleting it.  The lines of
{lit}`launch_recv` that would set {lit}`event` are comments, so {lit}`event` changes only where
the worker posts {lit}`EVT_DISCONNECT` and where a callback of the application assigns it.

Any number of workers take and handle completions in any order.  The system decides which
calls succeed and how many bytes a {lit}`WSARecv` brings; a socket that has been associated
with the port cannot be associated again.  The bytes are framed by the loop of the worker; a
loop that does not end or leaves the buffer ends the run.  The state also keeps the bytes that
have arrived for each session and whether its peer has closed, and each session the packets
that {lit}`on_recv` was given.

Main results:

- Theorem {lit}`handle_cases`: what a worker can do with a completion.
- Theorem {lit}`session_exclusive`: a session has one completion or one worker at most, and
  none once it is deleted.
- Theorem {lit}`callbacks_silent`: if no callback assigns {lit}`event`, there are none but
  {lit}`on_connect`.
-/

namespace TinyNet
namespace Session
namespace Iocp

open Library.FixedBuffer
open Library.Holders
open Library.MachineInt
open Library.StepSystem
open Backends (eventHandlerReadPacket)
open Epoll (Receiver ReadPacket Call)
open Service.Reports (NetEvent)

variable {R : BufferSize}

/-! ## The model -/

/-- The fields of {lit}`EventHandler` that the worker uses, whether its socket is associated
with the port, whether it is deleted, its callbacks so far, and the packets that
{lit}`on_recv` was given. -/
structure EventHandler (R : BufferSize) where
  event : NetEvent
  receiver : Receiver R
  associated : Bool
  deleted : Bool
  callbacks : List Callback
  packets : List (List UInt8)

/-- What is queued at the port: the completion of a {lit}`WSARecv`, or of
{lit}`PostQueuedCompletionStatus`, for a session. -/
inductive Completion where
  | recv (clt : Nat)
  | posted (clt : Nat)
deriving DecidableEq

/-- The key of a completion. -/
def Completion.key : Completion → Nat
  | .recv clt => clt
  | .posted clt => clt

/-- The sessions made so far, the port, for each worker the session that it handles with the
bytes that came, all bytes that have come for each session, and whether a {lit}`WSARecv` for it
has brought none. -/
structure State (R : BufferSize) where
  sessions : Nat → EventHandler R
  created : Nat
  port : List Completion
  workers : Nat → Option (Nat × List UInt8)
  arrived : Nat → List UInt8
  peerClosed : Nat → Bool

/-- What the system and the application decide while a worker handles a completion: whether
{lit}`CreateIoCompletionPort` succeeds, whether {lit}`on_connect` throws, which
{lit}`event` the callbacks assign, whether {lit}`WSARecv` succeeds or is pending, and after
how many iterations the framing loop counts as endless. -/
structure Choice where
  associates : Bool
  throws : Bool
  assigns : Callback → Option NetEvent
  launches : Bool
  fuel : Nat

/-- A session is made; a worker takes a completion; a worker handles it. -/
inductive Action (R : BufferSize) where
  | push (garbage : Buf UInt8 R.val)
  | take (w i : Nat) (bytes : List UInt8)
  | handle (w : Nat) (c : Choice)

/-- A session as {lit}`Listener::run` and {lit}`Connector::connect` hand it over. -/
def EventHandler.create (garbage : Buf UInt8 R.val) : EventHandler R where
  event := .connect
  receiver := .create garbage
  associated := false
  deleted := false
  callbacks := []
  packets := []

/-- A callback, which may assign {lit}`event`. -/
def EventHandler.call (s : EventHandler R) (c : Choice) (callback : Callback) :
    EventHandler R :=
  { s with
    event := (c.assigns callback).getD s.event
    callbacks := s.callbacks ++ [callback] }

/-- {lit}`on_recv` for a packet. -/
def EventHandler.onRecv (session : EventHandler R) (c : Choice) (call : Call) :
    EventHandler R :=
  { session.call c .onRecv with packets := session.packets ++ [call.data] }

/-- The calls of {lit}`on_recv` for the packets of one completion. -/
def EventHandler.onRecvs (session : EventHandler R) (c : Choice) (calls : List Call) :
    EventHandler R :=
  calls.foldl (fun session call => session.onRecv c call) session

/-- {lit}`closesocket(clt->fd); delete clt;` -/
def EventHandler.delete (s : EventHandler R) : EventHandler R :=
  { s with deleted := true }

namespace State

/-- No session yet. -/
def start (garbage : Buf UInt8 R.val) : State R where
  sessions _ := .create garbage
  created := 0
  port := []
  workers _ := none
  arrived _ := []
  peerClosed _ := false

/-- Worker {lit}`w` is done with a session. -/
def finish (s : State R) (w clt : Nat) (session : EventHandler R) (port : List Completion) :
    State R :=
  { s with
    sessions := Function.update s.sessions clt session
    port := port
    workers := Function.update s.workers w none }

/-- {lit}`launch_recv` as the last thing that worker {lit}`w` does with a session: there is
no {lit}`WSARecv` if the buffer is full, and a failed one is posted. -/
def launchRecv (s : State R) (w clt : Nat) (session : EventHandler R) (launches : Bool) :
    State R :=
  s.finish w clt session
    (if R.val ≤ session.receiver.recvBufPos then s.port
      else if launches then s.port ++ [.recv clt]
      else s.port ++ [.posted clt])

/-- Set {lit}`event` to {lit}`EVT_DISCONNECT` and post the session. -/
def postDisconnect (s : State R) (w clt : Nat) : State R :=
  s.finish w clt { s.sessions clt with event := .disconnect } (s.port ++ [.posted clt])

end State

/-- {lit}`GetQueuedCompletionStatus`: worker {lit}`w` takes the completion at place
{lit}`i`, with the bytes that the {lit}`WSARecv` has brought. -/
def take (s : State R) (w i : Nat) (bytes : List UInt8) : Option (State R) :=
  match s.workers w, s.port[i]? with
  | none, some (.recv clt) =>
      if bytes.length ≤ (s.sessions clt).receiver.recvSize then
        some { s with
          port := s.port.eraseIdx i
          workers := Function.update s.workers w (some (clt, bytes))
          arrived := Function.update s.arrived clt (s.arrived clt ++ bytes)
          peerClosed := Function.update s.peerClosed clt
            (s.peerClosed clt || bytes.isEmpty) }
      else none
  | none, some (.posted clt) =>
      some { s with
        port := s.port.eraseIdx i
        workers := Function.update s.workers w (some (clt, [])) }
  | _, _ => none

/-- The {lit}`switch` of {lit}`Processor::run`. -/
def handle (readPacket : ReadPacket) (s : State R) (w : Nat) (c : Choice) :
    Option (State R) :=
  match s.workers w with
  | none => none
  | some (clt, bytes) =>
      let session := s.sessions clt
      match session.event with
      | .recv =>
          if bytes = [] then some (s.postDisconnect w clt)
          else
            match Backends.recvEvent .iocp readPacket c.fuel session.receiver bytes with
            | some (.done receiver calls) =>
                let session := { session with receiver := receiver }.onRecvs c calls
                some (s.launchRecv w clt session c.launches)
            | _ => none
      | .connect =>
          if session.associated = false ∧ c.associates = true then
            let session := { session with associated := true }.call c .onConnect
            if c.throws then some (s.finish w clt session.delete s.port)
            else some (s.launchRecv w clt session c.launches)
          else some (s.finish w clt session.delete s.port)
      | .disconnect =>
          some (s.finish w clt (session.call c .onDisconnect).delete s.port)
      | .send =>
          if bytes = [] then some (s.postDisconnect w clt)
          else some (s.finish w clt (session.call c .onSend) s.port)
      | _ => some (s.finish w clt session s.port)

/-- One step. -/
def step (readPacket : ReadPacket) (s : State R) : Action R → Option (State R)
  | .push garbage =>
      some { s with
        sessions := Function.update s.sessions s.created (.create garbage)
        created := s.created + 1
        port := s.port ++ [.posted s.created]
        arrived := Function.update s.arrived s.created []
        peerClosed := Function.update s.peerClosed s.created false }
  | .take w i bytes => take s w i bytes
  | .handle w c => handle readPacket s w c

/-! ## One completion or one worker -/

/-- The session that a worker handles. -/
def holds : Option (Nat × List UInt8) → Option Nat :=
  Option.map Prod.fst

/-- What holds of the port and the workers between any two steps. -/
structure Inv (s : State R) : Prop where
  keys : (s.port.map Completion.key).Nodup
  exclusive : Exclusive holds s.workers
  apart : ∀ clt, clt ∈ s.port.map Completion.key → ¬ Held holds s.workers clt
  queued : ∀ clt, clt ∈ s.port.map Completion.key →
    clt < s.created ∧ (s.sessions clt).deleted = false
  held : ∀ clt, Held holds s.workers clt →
    clt < s.created ∧ (s.sessions clt).deleted = false

theorem start_inv (garbage : Buf UInt8 R.val) : Inv (State.start garbage) := by
  refine ⟨List.nodup_nil, exclusive_const rfl, nofun, nofun, ?_⟩
  rintro clt ⟨w, hw⟩
  contradiction

namespace Inv

variable {s s' : State R} {w clt : Nat} {bytes : List UInt8}

/-- A worker takes a completion. -/
theorem take (h : Inv s) {i : Nat} {completion : Completion}
    (hi : s.port[i]? = some completion) (arrived : Nat → List UInt8)
    (peerClosed : Nat → Bool) :
    Inv { s with
      port := s.port.eraseIdx i
      workers := Function.update s.workers w (some (completion.key, bytes))
      arrived := arrived
      peerClosed := peerClosed } := by
  have hperm : (completion :: s.port.eraseIdx i).Perm s.port := by
    rcases List.getElem?_eq_some_iff.mp hi with ⟨hlt, rfl⟩
    exact List.getElem_cons_eraseIdx_perm hlt
  have hkeys := (hperm.map Completion.key).nodup_iff.mpr h.keys
  rw [List.map_cons, List.nodup_cons] at hkeys
  have hmem : completion.key ∈ s.port.map Completion.key :=
    List.mem_map_of_mem (hperm.subset List.mem_cons_self)
  have hsub : ∀ clt, clt ∈ (s.port.eraseIdx i).map Completion.key →
      clt ∈ s.port.map Completion.key :=
    fun clt hclt => (hperm.map Completion.key).subset (List.mem_cons_of_mem _ hclt)
  have hheld : ∀ clt, Held holds
      (Function.update s.workers w (some (completion.key, bytes))) clt →
      clt = completion.key ∨ Held holds s.workers clt := by
    intro clt hclt
    rcases hclt.of_update with hnew | ⟨w', -, hw'⟩
    · exact Or.inl (Option.some.inj hnew).symm
    · exact Or.inr ⟨w', hw'⟩
  refine ⟨hkeys.2, ?_, ?_, fun clt hclt => h.queued clt (hsub clt hclt), ?_⟩
  · apply h.exclusive.update
    intro clt hclt
    obtain rfl : completion.key = clt := Option.some.inj hclt
    exact Or.inr (h.apart _ hmem)
  · intro clt hclt hheld'
    rcases hheld clt hheld' with rfl | hold
    · exact hkeys.1 hclt
    · exact h.apart clt (hsub clt hclt) hold
  · intro clt hclt
    rcases hheld clt hclt with rfl | hold
    · exact h.queued _ hmem
    · exact h.held clt hold

/-- After a worker is done with a session nobody holds it, and the others hold theirs. -/
theorem held_finish (h : Inv s) (hw : s.workers w = some (clt, bytes)) {clt' : Nat}
    (hheld : Held holds (Function.update s.workers w none) clt') :
    clt' ≠ clt ∧ Held holds s.workers clt' := by
  rcases hheld.of_update with hnew | ⟨w', hne, hw'⟩
  · contradiction
  · refine ⟨?_, w', hw'⟩
    rintro rfl
    exact hne (h.exclusive w' w clt' hw' (by rw [hw]; rfl))

/-- A worker is done with a session and leaves the port as it was. -/
theorem finish (h : Inv s) (hw : s.workers w = some (clt, bytes))
    (session : EventHandler R) : Inv (s.finish w clt session s.port) := by
  have hclt : Held holds s.workers clt := ⟨w, by rw [hw]; rfl⟩
  -- neither the port nor another worker has the session
  have hother : ∀ clt', clt' ≠ clt →
      (Function.update s.sessions clt session clt').deleted =
        (s.sessions clt').deleted := by
    intro clt' hne
    rw [Function.update_of_ne hne]
  refine ⟨h.keys, h.exclusive.update nofun, ?_, ?_, ?_⟩
  · intro clt' hkey hheld
    exact h.apart clt' hkey (h.held_finish hw hheld).2
  · intro clt' hkey
    have hne : clt' ≠ clt := by
      rintro rfl
      exact h.apart clt' hkey hclt
    exact ⟨(h.queued clt' hkey).1, (hother clt' hne).trans (h.queued clt' hkey).2⟩
  · intro clt' hheld
    rcases h.held_finish hw hheld with ⟨hne, hold⟩
    exact ⟨(h.held clt' hold).1, (hother clt' hne).trans (h.held clt' hold).2⟩

/-- A worker is done with a session, which lives on with one more completion. -/
theorem finish_post (h : Inv s) (hw : s.workers w = some (clt, bytes))
    {session : EventHandler R} (hlive : session.deleted = false) {completion : Completion}
    (hkey : completion.key = clt) :
    Inv (s.finish w clt session (s.port ++ [completion])) := by
  have hclt : Held holds s.workers clt := ⟨w, by rw [hw]; rfl⟩
  have hfinish := h.finish hw session
  have hkeys : (s.port ++ [completion]).map Completion.key =
      s.port.map Completion.key ++ [clt] := by
    rw [List.map_append, List.map_singleton, hkey]
  have hnot : clt ∉ s.port.map Completion.key := fun hmem => h.apart clt hmem hclt
  refine ⟨?_, hfinish.exclusive, ?_, ?_, hfinish.held⟩
  · show ((s.port ++ [completion]).map Completion.key).Nodup
    rw [hkeys]
    exact List.Nodup.append h.keys (List.nodup_singleton clt) (by simpa using hnot)
  · intro clt' hmem hheld
    have hmem' : clt' ∈ (s.port ++ [completion]).map Completion.key := hmem
    rw [hkeys, List.mem_append, List.mem_singleton] at hmem'
    rcases hmem' with hold | rfl
    · exact hfinish.apart clt' hold hheld
    · exact (h.held_finish hw hheld).1 rfl
  · intro clt' hmem
    have hmem' : clt' ∈ (s.port ++ [completion]).map Completion.key := hmem
    rw [hkeys, List.mem_append, List.mem_singleton] at hmem'
    rcases hmem' with hold | rfl
    · exact hfinish.queued clt' hold
    · refine ⟨(h.held clt' hclt).1, ?_⟩
      show (Function.update s.sessions clt' session clt').deleted = false
      rw [Function.update_self]
      exact hlive

/-- {lit}`launch_recv` as the last thing that a worker does. -/
theorem launchRecv (h : Inv s) (hw : s.workers w = some (clt, bytes))
    {session : EventHandler R} (hlive : session.deleted = false) (launches : Bool) :
    Inv (s.launchRecv w clt session launches) := by
  unfold State.launchRecv
  split
  · exact h.finish hw session
  · split
    · exact h.finish_post hw hlive rfl
    · exact h.finish_post hw hlive rfl

end Inv

/-! ## What handling a completion does -/

/-- What worker {lit}`w`, which has the session {lit}`clt` with the bytes that came, can
do. -/
inductive HandleCase (readPacket : ReadPacket) (s : State R) (w clt : Nat)
    (bytes : List UInt8) (c : Choice) : State R → Prop
  | lost (hevent : (s.sessions clt).event = .recv ∨ (s.sessions clt).event = .send)
      (hbytes : bytes = []) : HandleCase readPacket s w clt bytes c (s.postDisconnect w clt)
  | received (hevent : (s.sessions clt).event = .recv) (hbytes : bytes ≠ [])
      (receiver : Receiver R) (calls : List Call)
      (hdone : Backends.recvEvent .iocp readPacket c.fuel (s.sessions clt).receiver bytes =
        some (.done receiver calls)) :
      HandleCase readPacket s w clt bytes c
        (s.launchRecv w clt ({ s.sessions clt with receiver := receiver }.onRecvs c calls)
          c.launches)
  | connected (hevent : (s.sessions clt).event = .connect)
      (hnew : (s.sessions clt).associated = false) (hthrows : c.throws = false) :
      HandleCase readPacket s w clt bytes c
        (s.launchRecv w clt ({ s.sessions clt with associated := true }.call c .onConnect)
          c.launches)
  | threw (hevent : (s.sessions clt).event = .connect)
      (hnew : (s.sessions clt).associated = false) (hthrows : c.throws = true) :
      HandleCase readPacket s w clt bytes c
        (s.finish w clt ({ s.sessions clt with associated := true }.call c .onConnect).delete
          s.port)
  | refused (hevent : (s.sessions clt).event = .connect) :
      HandleCase readPacket s w clt bytes c (s.finish w clt (s.sessions clt).delete s.port)
  | disconnected (hevent : (s.sessions clt).event = .disconnect) :
      HandleCase readPacket s w clt bytes c
        (s.finish w clt ((s.sessions clt).call c .onDisconnect).delete s.port)
  | sent (hevent : (s.sessions clt).event = .send) :
      HandleCase readPacket s w clt bytes c
        (s.finish w clt ((s.sessions clt).call c .onSend) s.port)
  | ignored (hrecv : (s.sessions clt).event ≠ .recv)
      (hconnect : (s.sessions clt).event ≠ .connect)
      (hdisconnect : (s.sessions clt).event ≠ .disconnect) :
      HandleCase readPacket s w clt bytes c (s.finish w clt (s.sessions clt) s.port)

theorem handle_cases {readPacket : ReadPacket} {s s' : State R} {w : Nat} {c : Choice}
    (hstep : handle readPacket s w c = some s') :
    ∃ clt bytes, s.workers w = some (clt, bytes) ∧
      HandleCase readPacket s w clt bytes c s' := by
  unfold handle at hstep
  cases hw : s.workers w with
  | none => simp [hw] at hstep
  | some held =>
      rcases held with ⟨clt, bytes⟩
      refine ⟨clt, bytes, rfl, ?_⟩
      simp only [hw] at hstep
      split at hstep
      · rename_i hevent
        split at hstep
        · rename_i hbytes
          cases hstep
          exact .lost (.inl hevent) hbytes
        · rename_i hbytes
          split at hstep
          · rename_i receiver calls hdone
            cases hstep
            exact .received hevent hbytes receiver calls hdone
          · contradiction
      · rename_i hevent
        split at hstep
        · rename_i hcond
          split at hstep
          · rename_i hthrows
            cases hstep
            exact .threw hevent hcond.1 hthrows
          · rename_i hthrows
            cases hstep
            exact .connected hevent hcond.1 (Bool.eq_false_of_not_eq_true hthrows)
        · cases hstep
          exact .refused hevent
      · rename_i hevent
        cases hstep
        exact .disconnected hevent
      · rename_i hevent
        split at hstep
        · rename_i hbytes
          cases hstep
          exact .lost (.inr hevent) hbytes
        · cases hstep
          exact .sent hevent
      · rename_i hrecv hconnect hdisconnect _
        cases hstep
        exact .ignored hrecv hconnect hdisconnect

/-- What becomes of a session when a worker handles a completion of it. -/
inductive Handled (c : Choice) (session : EventHandler R) : EventHandler R → Prop
  | lost (hevent : session.event = .recv ∨ session.event = .send) :
      Handled c session { session with event := .disconnect }
  | received (hevent : session.event = .recv) (receiver : Receiver R) (calls : List Call) :
      Handled c session ({ session with receiver := receiver }.onRecvs c calls)
  | connected (hevent : session.event = .connect) (hnew : session.associated = false) :
      Handled c session ({ session with associated := true }.call c .onConnect)
  | threw (hevent : session.event = .connect) (hnew : session.associated = false)
      (hthrows : c.throws = true) :
      Handled c session ({ session with associated := true }.call c .onConnect).delete
  | refused (hevent : session.event = .connect) : Handled c session session.delete
  | disconnected (hevent : session.event = .disconnect) :
      Handled c session (session.call c .onDisconnect).delete
  | sent (hevent : session.event = .send) : Handled c session (session.call c .onSend)
  | ignored : Handled c session session

/-- What the calls of {lit}`on_recv` for the packets of one completion leave of a session;
the last one decides on {lit}`event`. -/
theorem onRecvs_spec (c : Choice) (calls : List Call) (session : EventHandler R) :
    session.onRecvs c calls =
      { session with
        event := if calls = [] then session.event else (c.assigns .onRecv).getD session.event
        callbacks := session.callbacks ++ List.replicate calls.length .onRecv
        packets := session.packets ++ calls.map Call.data } := by
  induction calls generalizing session with
  | nil => simp [EventHandler.onRecvs]
  | cons call calls ih =>
      have hrest : session.onRecvs c (call :: calls) =
        (session.onRecv c call).onRecvs c calls := rfl
      rw [hrest, ih]
      cases hassigns : c.assigns .onRecv <;>
        simp [EventHandler.onRecv, EventHandler.call, hassigns, List.replicate_succ]

/-- A worker that handles a completion changes its own session only, and keeps the port and
the workers in order. -/
theorem handle_spec {readPacket : ReadPacket} {s s' : State R} {w : Nat} {c : Choice}
    (h : Inv s) (hstep : handle readPacket s w c = some s') :
    ∃ clt session', (s.sessions clt).deleted = false ∧
      Handled c (s.sessions clt) session' ∧
      s'.sessions = Function.update s.sessions clt session' ∧ Inv s' := by
  rcases handle_cases hstep with ⟨clt, bytes, hw, hcase⟩
  have hlive := (h.held clt ⟨w, by rw [hw]; rfl⟩).2
  cases hcase with
  | lost hevent hbytes =>
      have hpost : Inv (s.postDisconnect w clt) :=
        h.finish_post hw
          (show { s.sessions clt with event := .disconnect }.deleted = false from hlive) rfl
      exact ⟨clt, _, hlive, .lost hevent, rfl, hpost⟩
  | received hevent hbytes receiver calls hdone =>
      refine ⟨clt, _, hlive, .received hevent receiver calls, rfl, h.launchRecv hw ?_ _⟩
      rw [onRecvs_spec]
      exact hlive
  | connected hevent hnew =>
      refine ⟨clt, _, hlive, .connected hevent hnew, rfl, ?_⟩
      exact h.launchRecv hw
        (show ({ s.sessions clt with associated := true }.call c .onConnect).deleted = false
          from hlive) c.launches
  | threw hevent hnew hthrows =>
      exact ⟨clt, _, hlive, .threw hevent hnew hthrows, rfl, h.finish hw _⟩
  | refused hevent => exact ⟨clt, _, hlive, .refused hevent, rfl, h.finish hw _⟩
  | disconnected hevent => exact ⟨clt, _, hlive, .disconnected hevent, rfl, h.finish hw _⟩
  | sent hevent => exact ⟨clt, _, hlive, .sent hevent, rfl, h.finish hw _⟩
  | ignored => exact ⟨clt, s.sessions clt, hlive, .ignored, rfl, h.finish hw _⟩

/-- A worker that takes a completion changes no session. -/
theorem take_spec {s s' : State R} {w i : Nat} {bytes : List UInt8} (h : Inv s)
    (hstep : take s w i bytes = some s') : s'.sessions = s.sessions ∧ Inv s' := by
  unfold take at hstep
  split at hstep
  · rename_i hi
    split at hstep
    · cases hstep
      exact ⟨rfl, h.take hi _ _⟩
    · contradiction
  · rename_i hi
    cases hstep
    exact ⟨rfl, h.take hi _ _⟩
  · contradiction

/-- A new session is posted. -/
theorem push_inv {s : State R} (h : Inv s) (garbage : Buf UInt8 R.val) :
    Inv { s with
      sessions := Function.update s.sessions s.created (.create garbage)
      created := s.created + 1
      port := s.port ++ [.posted s.created]
      arrived := Function.update s.arrived s.created []
      peerClosed := Function.update s.peerClosed s.created false } := by
  have hkeys : (s.port ++ [Completion.posted s.created]).map Completion.key =
      s.port.map Completion.key ++ [s.created] := by
    rw [List.map_append, List.map_singleton]
    rfl
  have hnot : s.created ∉ s.port.map Completion.key :=
    fun hmem => absurd (h.queued _ hmem).1 (lt_irrefl _)
  have hold : ∀ clt, clt < s.created ∧ (s.sessions clt).deleted = false →
      clt < s.created + 1 ∧
        (Function.update s.sessions s.created (.create garbage) clt).deleted = false := by
    rintro clt ⟨hlt, hlive⟩
    rw [Function.update_of_ne hlt.ne]
    exact ⟨Nat.lt_succ_of_lt hlt, hlive⟩
  refine ⟨?_, h.exclusive, ?_, ?_, fun clt hheld => hold clt (h.held clt hheld)⟩
  · show ((s.port ++ [Completion.posted s.created]).map Completion.key).Nodup
    rw [hkeys]
    exact List.Nodup.append h.keys (List.nodup_singleton _) (by simpa using hnot)
  · intro clt hmem hheld
    have hmem' : clt ∈ (s.port ++ [Completion.posted s.created]).map Completion.key := hmem
    rw [hkeys, List.mem_append, List.mem_singleton] at hmem'
    rcases hmem' with hmem' | rfl
    · exact h.apart clt hmem' hheld
    · exact absurd (h.held _ hheld).1 (lt_irrefl _)
  · intro clt hmem
    have hmem' : clt ∈ (s.port ++ [Completion.posted s.created]).map Completion.key := hmem
    rw [hkeys, List.mem_append, List.mem_singleton] at hmem'
    rcases hmem' with hmem' | rfl
    · exact hold clt (h.queued clt hmem')
    · refine ⟨Nat.lt_succ_self _, ?_⟩
      show (Function.update s.sessions s.created (.create garbage) s.created).deleted = false
      rw [Function.update_self]
      rfl

/-- Every step keeps the port and the workers in order. -/
theorem step_inv {readPacket : ReadPacket} {s s' : State R} {a : Action R} (h : Inv s)
    (hstep : step readPacket s a = some s') : Inv s' := by
  cases a with
  | push garbage =>
      cases hstep
      exact push_inv h garbage
  | take w i bytes => exact (take_spec h hstep).2
  | handle w c =>
      rcases handle_spec h hstep with ⟨_, _, _, _, _, hinv⟩
      exact hinv

theorem run_inv {readPacket : ReadPacket} {garbage : Buf UInt8 R.val}
    {acts : List (Action R)} {s : State R}
    (hrun : run (step readPacket) (.start garbage) acts = some s) : Inv s :=
  run_invariant (fun _ _ _ => step_inv) (start_inv garbage) hrun

/-- The choices in a step are as given. -/
def Allows (ok : Choice → Prop) : Action R → Prop
  | .handle _ c => ok c
  | _ => True

/-- What holds of a new session, and is kept when a completion of a live session is handled,
is kept for all sessions. -/
theorem step_sessions {readPacket : ReadPacket} {ok : Choice → Prop}
    {Q : EventHandler R → Prop} (hcreate : ∀ garbage, Q (.create garbage))
    (hhandled : ∀ c session session', ok c → Q session → session.deleted = false →
      Handled c session session' → Q session')
    {s s' : State R} {a : Action R} (hinv : Inv s) (h : ∀ clt, Q (s.sessions clt))
    (hok : Allows ok a) (hstep : step readPacket s a = some s') :
    ∀ clt, Q (s'.sessions clt) := by
  cases a with
  | push garbage =>
      cases hstep
      exact (Function.forall_update_iff _ fun _ => Q).mpr ⟨hcreate garbage, fun clt _ => h clt⟩
  | take w i bytes =>
      rw [(take_spec hinv hstep).1]
      exact h
  | handle w c =>
      rcases handle_spec hinv hstep with ⟨clt, session', hlive, hhandle, heq, -⟩
      rw [heq]
      exact (Function.forall_update_iff _ fun _ => Q).mpr
        ⟨hhandled c _ _ hok (h clt) hlive hhandle, fun clt' _ => h clt'⟩

/-- So it holds of all sessions after every run. -/
theorem run_sessions {readPacket : ReadPacket} {ok : Choice → Prop}
    {Q : EventHandler R → Prop} (hcreate : ∀ garbage, Q (.create garbage))
    (hhandled : ∀ c session session', ok c → Q session → session.deleted = false →
      Handled c session session' → Q session')
    {garbage : Buf UInt8 R.val} {acts : List (Action R)} {s : State R}
    (hok : ∀ a ∈ acts, Allows ok a)
    (hrun : run (step readPacket) (.start garbage) acts = some s) (clt : Nat) :
    Q (s.sessions clt) := by
  have hkeep : ∀ (t : State R) (a : Action R) (t' : State R),
      (Inv t ∧ ∀ clt, Q (t.sessions clt)) → Allows ok a → step readPacket t a = some t' →
      Inv t' ∧ ∀ clt, Q (t'.sessions clt) :=
    fun t a t' ht ha hstep =>
      ⟨step_inv ht.1 hstep, step_sessions hcreate hhandled ht.1 ht.2 ha hstep⟩
  exact (run_invariant_of_eachStep hkeep ⟨start_inv garbage, fun _ => hcreate garbage⟩
    (EachStep.of_forall_mem hok _) hrun).2 clt

/-! ## The results -/

/-- Along every run, whatever the callbacks assign: no two workers handle one session, a
session that is handled or queued at the port is not deleted, and a session is queued at most
once and not while it is handled.  So no session is used after it is deleted or deleted
twice. -/
theorem session_exclusive {readPacket : ReadPacket} {garbage : Buf UInt8 R.val}
    {acts : List (Action R)} {s : State R}
    (hrun : run (step readPacket) (.start garbage) acts = some s) :
    (∀ w w' clt bytes bytes', s.workers w = some (clt, bytes) →
      s.workers w' = some (clt, bytes') → w = w') ∧
    (∀ w clt bytes, s.workers w = some (clt, bytes) →
      (s.sessions clt).deleted = false ∧ clt ∉ s.port.map Completion.key) ∧
    (s.port.map Completion.key).Nodup ∧
    ∀ clt ∈ s.port.map Completion.key, (s.sessions clt).deleted = false := by
  have h := run_inv hrun
  refine ⟨?_, ?_, h.keys, fun clt hclt => (h.queued clt hclt).2⟩
  · intro w w' clt bytes bytes' hw hw'
    exact h.exclusive w w' clt (by rw [hw]; rfl) (by rw [hw']; rfl)
  · intro w clt bytes hw
    have hheld : Held holds s.workers clt := ⟨w, by rw [hw]; rfl⟩
    exact ⟨(h.held clt hheld).2, fun hmem => h.apart clt hmem hheld⟩

/-- Everything succeeds, and {lit}`on_connect` assigns the given {lit}`event`. -/
def plain (event : Option NetEvent) : Choice where
  associates := true
  throws := false
  assigns
    | .onConnect => event
    | _ => none
  launches := true
  fuel := 4

/-- A session is made; workers take and handle its first completion, and a {lit}`WSARecv` that
brings two bytes. -/
def twoBytes (event : Option NetEvent) : List (Action four) :=
  [.push (.replicate 4 0), .take 0 0 [], .handle 0 (plain event), .take 1 0 [7, 8],
    .handle 1 (plain event)]

theorem session_exclusive_twoBytes :
    ∃ s, run (step eventHandlerReadPacket) (.start (.replicate 4 0))
        ((twoBytes (some .recv)).take 4) = some s ∧
      s.workers 1 = some (0, [7, 8]) ∧ (s.sessions 0).deleted = false := by
  have hrun : (run (step eventHandlerReadPacket) (.start (.replicate 4 0))
      ((twoBytes (some .recv)).take 4)).map (fun s => s.workers 1) =
        some (some (0, [7, 8])) := by
    decide
  rcases Option.map_eq_some_iff.mp hrun with ⟨s, hs, hw⟩
  exact ⟨s, hs, hw, ((session_exclusive hs).2.1 1 0 [7, 8] hw).1⟩

/-- The session waits for {lit}`EVT_CONNECT` only. -/
def EventHandler.Silent (session : EventHandler R) : Prop :=
  (session.callbacks = [] ∨ session.callbacks = [.onConnect]) ∧
    (session.deleted = false → session.event = .connect ∧
      (session.associated = false → session.callbacks = []))

theorem Handled.silent {c : Choice} {session session' : EventHandler R}
    (hc : c.assigns .onConnect = none) (h : session.Silent) (hlive : session.deleted = false)
    (hhandled : Handled c session session') : session'.Silent := by
  rcases h with ⟨hcalls, hwaits⟩
  rcases hwaits hlive with ⟨hconnect, hnew⟩
  cases hhandled with
  | lost hevent => simp [hconnect] at hevent
  | received hevent => simp [hconnect] at hevent
  | connected hevent hfirst =>
      simp [EventHandler.Silent, EventHandler.call, hnew hfirst, hc, hconnect]
  | threw hevent hfirst =>
      simp [EventHandler.Silent, EventHandler.call, EventHandler.delete, hnew hfirst]
  | refused hevent => exact ⟨hcalls, nofun⟩
  | disconnected hevent => simp [hconnect] at hevent
  | sent hevent => simp [hconnect] at hevent
  | ignored => exact ⟨hcalls, hwaits⟩

/-- If {lit}`on_connect` never assigns {lit}`event`, no session is ever told of data or of
its end: the library's own {lit}`launch_recv` leaves {lit}`EVT_CONNECT` in place, so the
worker that takes the first {lit}`WSARecv` of a session deletes it, with the bytes that
came. -/
theorem callbacks_silent {readPacket : ReadPacket} {garbage : Buf UInt8 R.val}
    {acts : List (Action R)} {s : State R}
    (hleaves : ∀ a ∈ acts, Allows (fun c => c.assigns .onConnect = none) a)
    (hrun : run (step readPacket) (.start garbage) acts = some s) :
    (∀ clt, (s.sessions clt).callbacks = [] ∨ (s.sessions clt).callbacks = [.onConnect]) ∧
    ∀ w clt bytes c, s.workers w = some (clt, bytes) →
      (s.sessions clt).associated = true →
      ∃ s', step readPacket s (.handle w c) = some s' ∧
        (s'.sessions clt).deleted = true := by
  have hcreate : ∀ garbage : Buf UInt8 R.val, (EventHandler.create garbage).Silent :=
    fun _ => ⟨.inl rfl, fun _ => ⟨rfl, fun _ => rfl⟩⟩
  have hhandled : ∀ (c : Choice) (session session' : EventHandler R),
      c.assigns .onConnect = none → session.Silent → session.deleted = false →
      Handled c session session' → session'.Silent :=
    fun c session session' hc h hlive hh => hh.silent hc h hlive
  have hsilent := run_sessions hcreate hhandled hleaves hrun
  refine ⟨fun clt => (hsilent clt).1, ?_⟩
  intro w clt bytes c hw hassociated
  have hlive := ((run_inv hrun).held clt ⟨w, by rw [hw]; rfl⟩).2
  have hevent := ((hsilent clt).2 hlive).1
  refine ⟨s.finish w clt (s.sessions clt).delete s.port, ?_, ?_⟩
  · simp only [step, handle, hw, hevent, hassociated, reduceCtorEq, false_and, if_false]
  · simp [State.finish, EventHandler.delete]

theorem callbacks_silent_twoBytes :
    ∃ s, run (step eventHandlerReadPacket) (.start (.replicate 4 0)) (twoBytes none) = some s ∧
      (s.sessions 0).deleted = true ∧
      ((s.sessions 0).callbacks = [] ∨ (s.sessions 0).callbacks = [.onConnect]) := by
  have hrun : (run (step eventHandlerReadPacket) (.start (.replicate 4 0))
      (twoBytes none)).map (fun s => (s.sessions 0).deleted) = some true := by
    decide
  have hleaves : ∀ a ∈ twoBytes none, Allows (fun c => c.assigns .onConnect = none) a := by
    simp [twoBytes, Allows, plain]
  rcases Option.map_eq_some_iff.mp hrun with ⟨s, hs, hdeleted⟩
  exact ⟨s, hs, hdeleted, (callbacks_silent hleaves hs).1 0⟩

end Iocp
end Session
end TinyNet
