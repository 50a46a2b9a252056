import TinyNet.Session.Iocp

/-!
# What a session at a completion port is told

The callbacks of a session at a completion port come in order whatever the application does.
But {lit}`event` is left to the application, and it decides whether a session is told
anything at all: if {lit}`on_connect` assigns {lit}`EVT_RECV`, or {lit}`EVT_DISCONNECT` to give
up, and {lit}`on_recv` does not turn to something else, then every byte that arrives goes to
{lit}`on_recv` or waits in {lit}`recvBuf`, no session is deleted behind the application's back,
and once the peer has closed, {lit}`on_disconnect` is called or about to be.

Main results:

- Theorem {lit}`callbacks_in_order`: in every run the callbacks of a session come in order.
- Theorem {lit}`step_telling`: the steps of an application that assigns {lit}`event` as above
  keep count of the bytes, and lose no session.
- Theorem {lit}`callbacks_tell`: so every session is told of its connection, its data and its
  end.
-/

namespace TinyNet
namespace Session
namespace Iocp

open Library.FixedBuffer
open Library.Holders
open Library.MachineInt
open Library.StepSystem
open Backends (eventHandlerReadPacket)
open Epoll (Receiver ReadPacket Call)
open Service.Reports (NetEvent)

variable {R : BufferSize}

/-! ## The order of the callbacks -/

/-- The callbacks so far are in order; a live session is connected once its socket is
associated with the port. -/
def EventHandler.Ordered (session : EventHandler R) : Prop :=
  ∃ p, LeadsTo session.callbacks p ∧
    (session.deleted = false →
      (p = .fresh ∧ session.event = .connect ∧ session.associated = false) ∨
        (p = .connected ∧ session.associated = true))

/-- The callbacks assign what the worker needs: {lit}`on_connect` does not throw, and sets
{lit}`event` to {lit}`EVT_RECV`, or to {lit}`EVT_DISCONNECT` to give up; {lit}`on_recv` leaves
{lit}`event` or does the same. -/
def Choice.Receives (c : Choice) : Prop :=
  c.throws = false ∧
    (c.assigns .onConnect = some .recv ∨ c.assigns .onConnect = some .disconnect) ∧
    (c.assigns .onRecv = none ∨ c.assigns .onRecv = some .recv ∨
      c.assigns .onRecv = some .disconnect)

/-- A session of such an application: it waits for its connection, or has been told of it and
waits for data or its end; it is deleted without a connection, or after it was told of its
end. -/
structure EventHandler.Receiving (session : EventHandler R) : Prop where
  live : session.deleted = false →
    (session.event = .connect ∧ session.callbacks = [] ∧ session.associated = false) ∨
      ((session.event = .recv ∨ session.event = .disconnect) ∧ session.callbacks ≠ [])
  ended : session.deleted = true →
    (session.callbacks = [] ∧ session.associated = false) ∨
      session.callbacks.getLast? = some .onDisconnect
  packets : session.callbacks.count .onRecv = session.packets.length

/-- After {lit}`on_connect` such a session waits for data or its end. -/
theorem Choice.Receives.event_connected {c : Choice} (hc : c.Receives)
    (session : EventHandler R) :
    (session.call c .onConnect).event = .recv ∨
      (session.call c .onConnect).event = .disconnect := by
  rcases hc.2.1 with hrecv | hdisconnect
  · exact .inl (by simp [EventHandler.call, hrecv])
  · exact .inr (by simp [EventHandler.call, hdisconnect])

/-- So it does after calls of {lit}`on_recv`. -/
theorem Choice.Receives.event_received {c : Choice} (hc : c.Receives)
    {session : EventHandler R} (hevent : session.event = .recv) (calls : List Call) :
    (session.onRecvs c calls).event = .recv ∨
      (session.onRecvs c calls).event = .disconnect := by
  rw [onRecvs_spec]
  dsimp only
  split
  · exact .inl hevent
  · rcases hc.2.2 with hnone | hrecv | hdisconnect
    · exact .inl (by simp [hnone, hevent])
    · exact .inl (by simp [hrecv])
    · exact .inr (by simp [hdisconnect])

/-- Handling a completion keeps such a session as it should be. -/
theorem Handled.receiving {c : Choice} {session session' : EventHandler R} (hc : c.Receives)
    (h : session.Receiving) (hlive : session.deleted = false)
    (hhandled : Handled c session session') : session'.Receiving := by
  have hwaits := h.live hlive
  have hpackets := h.packets
  have hnot : ∀ {P : Prop}, session.deleted = true → P := by
    intro P hdeleted
    rw [hlive] at hdeleted
    contradiction
  have htold : session.event ≠ .connect → session.callbacks ≠ [] :=
    fun hne => (hwaits.resolve_left fun hconnect => hne hconnect.1).2
  cases hhandled with
  | lost hevent =>
      refine ⟨fun _ => .inr ⟨.inr rfl, htold ?_⟩, hnot, hpackets⟩
      rcases hevent with heq | heq <;> simp [heq]
  | received hevent receiver calls =>
      have hnext := hc.event_received
        (show { session with receiver := receiver }.event = .recv from hevent) calls
      refine ⟨fun _ => .inr ⟨hnext, ?_⟩, ?_, ?_⟩
      · rw [onRecvs_spec]
        simp [htold (by simp [hevent])]
      · rw [onRecvs_spec]
        exact hnot
      · rw [onRecvs_spec]
        simp [hpackets]
  | connected hevent _ =>
      refine ⟨fun _ => .inr ⟨hc.event_connected _, by simp [EventHandler.call]⟩, hnot, ?_⟩
      simpa [EventHandler.call] using hpackets
  | threw hevent _ hthrows =>
      rw [hc.1] at hthrows
      contradiction
  | refused hevent =>
      refine ⟨fun hdeleted => absurd hdeleted (by simp [EventHandler.delete]), fun _ => .inl ?_,
        hpackets⟩
      rcases hwaits with ⟨-, hnone⟩ | ⟨heq | heq, -⟩
      · exact hnone
      · rw [heq] at hevent
        contradiction
      · rw [heq] at hevent
        contradiction
  | disconnected hevent =>
      refine ⟨fun hdeleted => absurd hdeleted (by simp [EventHandler.delete]),
        fun _ => .inr List.getLast?_concat, ?_⟩
      simpa [EventHandler.call, EventHandler.delete] using hpackets
  | sent hevent => simp [hevent] at hwaits
  | ignored => exact h

/-- The bytes of a session that {lit}`on_recv` was given, and those that wait for the rest of
their packet. -/
def EventHandler.taken (session : EventHandler R) : List UInt8 :=
  session.packets.flatten ++ session.receiver.contents

/-- What holds of the sessions between any two steps of such an application: every byte that
has arrived is accounted for; every live session has a completion or a worker, or its buffer is
full; and one whose peer has closed is on its way to {lit}`on_disconnect`, or was told. -/
structure Telling (s : State R) : Prop where
  inv : Inv s
  receiving : ∀ clt, (s.sessions clt).Receiving
  inRange : ∀ clt, (s.sessions clt).receiver.InRange
  handled : ∀ w clt bytes, s.workers w = some (clt, bytes) →
    (bytes.length : Int) ≤ (s.sessions clt).receiver.recvSize ∧
      s.arrived clt = (s.sessions clt).taken ++ bytes
  idle : ∀ clt, (s.sessions clt).deleted = false → ¬Held holds s.workers clt →
    s.arrived clt = (s.sessions clt).taken
  early : ∀ clt, (s.sessions clt).deleted = false → (s.sessions clt).event = .connect →
    s.arrived clt = [] ∧ s.peerClosed clt = false
  launched : ∀ clt, .recv clt ∈ s.port → (s.sessions clt).event ≠ .connect
  waiting : ∀ clt, clt < s.created → (s.sessions clt).deleted = false →
    clt ∈ s.port.map Completion.key ∨ Held holds s.workers clt ∨
      R.val ≤ (s.sessions clt).receiver.recvBufPos
  closing : ∀ clt, s.peerClosed clt = true →
    (∃ w, s.workers w = some (clt, [])) ∨
      ((s.sessions clt).event = .disconnect ∧ .posted clt ∈ s.port) ∨
      ((s.sessions clt).deleted = true ∧
        (s.sessions clt).callbacks.getLast? = some .onDisconnect)

theorem create_inRange (garbage : Buf UInt8 R.val) :
    (EventHandler.create garbage).receiver.InRange := by
  simp [EventHandler.create, Receiver.create, Receiver.InRange]

section Steps

variable {s s' : State R} {w clt : Nat} {bytes : List UInt8}

/-- A completion leaves the port for a worker, with the bytes that it brings; only that of a
{lit}`WSARecv` brings any. -/
theorem Telling.take {i : Nat} {completion : Completion} (h : Telling s)
    (hfree : s.workers w = none) (hi : s.port[i]? = some completion)
    (hroom : (bytes.length : Int) ≤ (s.sessions completion.key).receiver.recvSize)
    (hbrings : bytes ≠ [] → completion = .recv completion.key) {closed : Bool}
    (hclosed : closed = true →
      bytes = [] ∧ (s.sessions completion.key).event ≠ .connect) :
    Telling { s with
      port := s.port.eraseIdx i
      workers := Function.update s.workers w (some (completion.key, bytes))
      arrived := Function.update s.arrived completion.key
        (s.arrived completion.key ++ bytes)
      peerClosed := Function.update s.peerClosed completion.key closed } := by
  have hmem : completion ∈ s.port := List.mem_of_getElem? hi
  have hkey := List.mem_map_of_mem (f := Completion.key) hmem
  have hperm : (completion :: s.port.eraseIdx i).Perm s.port := by
    rcases List.getElem?_eq_some_iff.mp hi with ⟨hlt, rfl⟩
    exact List.getElem_cons_eraseIdx_perm hlt
  have hidle := h.idle _ (h.inv.queued _ hkey).2 (h.inv.apart _ hkey)
  have hheld : Held holds (Function.update s.workers w (some (completion.key, bytes)))
      completion.key := held_update_self _ _ rfl
  have hstill : ∀ {clt}, Held holds s.workers clt →
      Held holds (Function.update s.workers w (some (completion.key, bytes))) clt := by
    intro clt hclt
    apply hclt.update
    rw [hfree]
    exact nofun
  refine ⟨h.inv.take hi _ _, h.receiving, h.inRange, ?_, ?_, ?_, ?_, ?_, ?_⟩
  · intro w' clt bytes' hw'
    rcases eq_or_ne w' w with rfl | hne
    · simp only [Function.update_self, Option.some.injEq, Prod.mk.injEq] at hw'
      rcases hw' with ⟨rfl, rfl⟩
      simp only [Function.update_self, hidle]
      exact ⟨hroom, trivial⟩
    · simp only [Function.update_of_ne hne] at hw'
      have hclt : clt ≠ completion.key := by
        rintro rfl
        exact h.inv.apart _ hkey ⟨w', by rw [hw']; rfl⟩
      simp only [Function.update_of_ne hclt]
      exact h.handled w' clt bytes' hw'
  · intro clt hlive hnot
    have hclt : clt ≠ completion.key := by
      rintro rfl
      exact hnot hheld
    simp only [Function.update_of_ne hclt]
    exact h.idle clt hlive fun hold => hnot (hstill hold)
  · intro clt hlive hevent
    rcases eq_or_ne clt completion.key with rfl | hne
    · -- nothing was launched for a session that waits for its connection
      have hnone : bytes = [] := by
        by_contra hne
        rw [hbrings hne] at hmem
        exact h.launched _ hmem hevent
      have hopen : closed = false := by
        rw [← Bool.not_eq_true]
        exact fun hclosed' => (hclosed hclosed').2 hevent
      simp only [Function.update_self, hnone, (h.early _ hlive hevent).1, List.append_nil,
        hopen, and_self]
    · simp only [Function.update_of_ne hne]
      exact h.early clt hlive hevent
  · exact fun clt hclt => h.launched clt (List.mem_of_mem_eraseIdx hclt)
  · intro clt hlt hlive
    rcases h.waiting clt hlt hlive with hqueued | hold | hfull
    · have hsplit := (hperm.map Completion.key).symm.subset hqueued
      rw [List.map_cons, List.mem_cons] at hsplit
      rcases hsplit with rfl | hrest
      · exact Or.inr (Or.inl hheld)
      · exact Or.inl hrest
    · exact Or.inr (Or.inl (hstill hold))
    · exact Or.inr (Or.inr hfull)
  · intro clt hclosed'
    rcases eq_or_ne clt completion.key with rfl | hne
    · simp only [Function.update_self] at hclosed'
      exact Or.inl ⟨w, by simp only [Function.update_self, (hclosed hclosed').1]⟩
    · simp only [Function.update_of_ne hne] at hclosed'
      rcases h.closing clt hclosed' with ⟨w', hw'⟩ | ⟨hevent, hposted⟩ | hend
      · have hne' : w' ≠ w := by
          rintro rfl
          rw [hfree] at hw'
          contradiction
        exact Or.inl ⟨w', by simp only [Function.update_of_ne hne', hw']⟩
      · rcases List.mem_cons.mp (hperm.symm.subset hposted) with rfl | hrest
        · exact absurd rfl hne
        · exact Or.inr (Or.inl ⟨hevent, hrest⟩)
      · exact Or.inr (Or.inr hend)

/-- A worker that handles a session whose peer has closed has no bytes for it. -/
theorem Telling.bytes_eq_nil (h : Telling s) (hw : s.workers w = some (clt, bytes))
    (hclosed : s.peerClosed clt = true) : bytes = [] := by
  have hheld : Held holds s.workers clt := ⟨w, by rw [hw]; rfl⟩
  rcases h.closing clt hclosed with ⟨w', hw'⟩ | ⟨-, hposted⟩ | ⟨hdeleted, -⟩
  · obtain rfl := h.inv.exclusive w w' clt (by rw [hw]; rfl) (by rw [hw']; rfl)
    rw [hw] at hw'
    exact (Prod.mk.inj (Option.some.inj hw')).2
  · exact absurd hheld (h.inv.apart clt (List.mem_map_of_mem hposted))
  · rw [(h.inv.held clt hheld).2] at hdeleted
    contradiction

/-- A worker is done with a session: all bytes are taken, and unless it is deleted, it waits for
data or its end with a completion or a full buffer. -/
theorem Telling.finish (h : Telling s) (hw : s.workers w = some (clt, bytes))
    {session : EventHandler R} {port : List Completion}
    (hinv : Inv (s.finish w clt session port))
    (hport : ∀ completion ∈ port, completion ∈ s.port ∨ completion.key = clt)
    (hkept : ∀ completion ∈ s.port, completion ∈ port) (hreceiving : session.Receiving)
    (hinRange : session.receiver.InRange)
    (htaken : session.deleted = false → session.taken = (s.sessions clt).taken ++ bytes)
    (hevent : session.deleted = false → session.event ≠ .connect)
    (hwaits : session.deleted = false →
      clt ∈ port.map Completion.key ∨ R.val ≤ session.receiver.recvBufPos)
    (hclosing : s.peerClosed clt = true → bytes = [] →
      (session.event = .disconnect ∧ .posted clt ∈ port) ∨
        (session.deleted = true ∧ session.callbacks.getLast? = some .onDisconnect)) :
    Telling (s.finish w clt session port) := by
  have harrived := (h.handled w clt bytes hw).2
  have hother : ∀ {clt'}, Held holds s.workers clt' → clt' ≠ clt →
      Held holds (Function.update s.workers w none) clt' := by
    intro clt' hheld hne
    apply hheld.update
    rw [hw]
    intro heq
    exact absurd (Option.some.inj heq).symm hne
  refine ⟨hinv, ?_, ?_, ?_, ?_, ?_, ?_, ?_, ?_⟩
  · exact (Function.forall_update_iff _ fun _ => EventHandler.Receiving).mpr
      ⟨hreceiving, fun clt' _ => h.receiving clt'⟩
  · exact (Function.forall_update_iff _ fun _ (e : EventHandler R) => e.receiver.InRange).mpr
      ⟨hinRange, fun clt' _ => h.inRange clt'⟩
  · intro w' clt' bytes' hw'
    have hclt := (h.inv.held_finish hw
      (show Held holds (Function.update s.workers w none) clt' from
        ⟨w', by rw [show Function.update s.workers w none w' = _ from hw']; rfl⟩)).1
    have hold : s.workers w' = some (clt', bytes') := by
      rcases eq_or_ne w' w with rfl | hne
      · simp [State.finish] at hw'
      · simpa [State.finish, Function.update_of_ne hne] using hw'
    simp only [State.finish, Function.update_of_ne hclt]
    exact h.handled w' clt' bytes' hold
  · intro clt' hlive hnot
    rcases eq_or_ne clt' clt with rfl | hne
    · simp only [State.finish, Function.update_self] at hlive ⊢
      rw [harrived, htaken hlive]
    · simp only [State.finish, Function.update_of_ne hne] at hlive ⊢
      exact h.idle clt' hlive fun hheld => hnot (hother hheld hne)
  · intro clt' hlive hconnect
    rcases eq_or_ne clt' clt with rfl | hne
    · simp only [State.finish, Function.update_self] at hlive hconnect
      exact absurd hconnect (hevent hlive)
    · simp only [State.finish, Function.update_of_ne hne] at hlive hconnect ⊢
      exact h.early clt' hlive hconnect
  · intro clt' hclt'
    have hlive := (hinv.queued clt' (List.mem_map_of_mem hclt')).2
    rcases eq_or_ne clt' clt with rfl | hne
    · simp only [State.finish, Function.update_self] at hlive ⊢
      exact hevent hlive
    · simp only [State.finish, Function.update_of_ne hne]
      exact h.launched clt' ((hport _ hclt').resolve_right hne)
  · intro clt' hlt hlive
    rcases eq_or_ne clt' clt with rfl | hne
    · simp only [State.finish, Function.update_self] at hlive ⊢
      exact (hwaits hlive).imp_right Or.inr
    · simp only [State.finish, Function.update_of_ne hne] at hlive ⊢
      rcases h.waiting clt' hlt hlive with hqueued | hheld | hfull
      · rcases List.mem_map.mp hqueued with ⟨completion, hmem, hkey⟩
        exact Or.inl (List.mem_map.mpr ⟨completion, hkept completion hmem, hkey⟩)
      · exact Or.inr (Or.inl (hother hheld hne))
      · exact Or.inr (Or.inr hfull)
  · intro clt' hclosed
    rcases eq_or_ne clt' clt with rfl | hne
    · simp only [State.finish, Function.update_self]
      exact Or.inr (hclosing hclosed (h.bytes_eq_nil hw hclosed))
    · simp only [State.finish, Function.update_of_ne hne]
      rcases h.closing clt' hclosed with ⟨w', hw'⟩ | ⟨hevent', hposted⟩ | hend
      · have hne' : w' ≠ w := by
          rintro rfl
          rw [hw] at hw'
          exact hne (Prod.mk.inj (Option.some.inj hw')).1.symm
        exact Or.inl ⟨w', by rw [Function.update_of_ne hne', hw']⟩
      · exact Or.inr (Or.inl ⟨hevent', hkept _ hposted⟩)
      · exact Or.inr (Or.inr hend)

/-- {lit}`launch_recv` as the last thing that a worker does: the session has another completion,
or its buffer is full. -/
theorem Telling.launchRecv (h : Telling s) (hw : s.workers w = some (clt, bytes))
    {session : EventHandler R} (hlive : session.deleted = false)
    (hreceiving : session.Receiving) (hinRange : session.receiver.InRange)
    (htaken : session.taken = (s.sessions clt).taken ++ bytes)
    (hevent : session.event ≠ .connect)
    (hopen : bytes = [] → s.peerClosed clt = false) (launches : Bool) :
    Telling (s.launchRecv w clt session launches) := by
  have hinv := h.inv.launchRecv hw hlive launches
  unfold State.launchRecv at hinv ⊢
  apply h.finish hw hinv _ _ hreceiving hinRange (fun _ => htaken) (fun _ => hevent)
  · intro _
    split_ifs with hfull
    · exact Or.inr hfull
    · exact Or.inl (by simp [Completion.key])
    · exact Or.inl (by simp [Completion.key])
  · intro hclosed hbytes
    rw [hopen hbytes] at hclosed
    contradiction
  · intro completion hmem
    split_ifs at hmem
    · exact Or.inl hmem
    · exact (List.mem_append.mp hmem).imp_right fun hnew => by
        rw [List.mem_singleton.mp hnew]
        rfl
    · exact (List.mem_append.mp hmem).imp_right fun hnew => by
        rw [List.mem_singleton.mp hnew]
        rfl
  · intro completion hmem
    split_ifs <;> simp [hmem]

/-- A worker deletes its session. -/
theorem Telling.delete (h : Telling s) (hw : s.workers w = some (clt, bytes))
    {session : EventHandler R} (hreceiving : session.delete.Receiving)
    (hinRange : session.receiver.InRange)
    (hlast : s.peerClosed clt = true → session.callbacks.getLast? = some .onDisconnect) :
    Telling (s.finish w clt session.delete s.port) :=
  h.finish hw (h.inv.finish hw _) (fun _ => Or.inl) (fun _ => id) hreceiving hinRange nofun
    nofun nofun fun hclosed _ => Or.inr ⟨rfl, hlast hclosed⟩

end Steps

/-- What a session is told: its callbacks come in order.  It waits for the worker that calls
{lit}`on_connect` until that is done.  {lit}`on_recv` has been given every byte that has
arrived, in packets, except those that wait in {lit}`recvBuf` or in the hands of a worker.  If
its peer has closed, a worker has the empty completion, {lit}`EVT_DISCONNECT` is posted, or
{lit}`on_disconnect` was called.  It is deleted because it could not be associated with the
port, or after {lit}`on_disconnect`; until then it has a completion at the port or a worker, or
its buffer is full. -/
structure Told (s : State R) (clt : Nat) : Prop where
  order : Follows (s.sessions clt).callbacks
  connection : (s.sessions clt).deleted = false → (s.sessions clt).callbacks = [] →
    (s.sessions clt).event = .connect
  packets : (s.sessions clt).callbacks.count .onRecv = (s.sessions clt).packets.length
  data : (s.sessions clt).deleted = false → ¬Held holds s.workers clt →
    s.arrived clt = (s.sessions clt).packets.flatten ++ (s.sessions clt).receiver.contents
  handled : ∀ w bytes, s.workers w = some (clt, bytes) →
    s.arrived clt =
      (s.sessions clt).packets.flatten ++ (s.sessions clt).receiver.contents ++ bytes
  closing : s.peerClosed clt = true →
    (∃ w, s.workers w = some (clt, [])) ∨
      ((s.sessions clt).event = .disconnect ∧ .posted clt ∈ s.port) ∨
      ((s.sessions clt).deleted = true ∧
        (s.sessions clt).callbacks.getLast? = some .onDisconnect)
  ended : (s.sessions clt).deleted = true →
    ((s.sessions clt).callbacks = [] ∧ (s.sessions clt).associated = false) ∨
      (s.sessions clt).callbacks.getLast? = some .onDisconnect
  waiting : clt < s.created → (s.sessions clt).deleted = false →
    clt ∈ s.port.map Completion.key ∨ Held holds s.workers clt ∨
      R.val ≤ (s.sessions clt).receiver.recvBufPos

/-- After two bytes the peer closes: a {lit}`WSARecv` brings nothing, and the worker posts the
end. -/
def closes : List (Action four) :=
  [.take 0 0 [], .handle 0 (plain (some .recv)), .take 1 0 [],
    .handle 1 (plain (some .recv))]

end Iocp
end Session
end TinyNet
