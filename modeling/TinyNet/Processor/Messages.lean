import TinyNet.Processor.Release

/-!
# What the application thread finds in a message

The default {lit}`parse_message` hands out a pointer into {lit}`recvBuf`.  The worker
goes on with the buffer while the message is under way: it receives behind
{lit}`recvBufPos`, moves a leftover to the front and writes a terminator.

Main results:

- Theorem {lit}`messages_intact`: a run whose workers write only outside of the packets
  under way shows {lit}`on_message` the bytes that {lit}`on_recv` saw.
- Theorem {lit}`leftover_overwrites_message`: a run in which it finds other bytes.
-/

namespace TinyNet
namespace Processor

open Library.FixedBuffer
open Library.MachineInt
open Library.StepSystem
open Epoll

variable {R : BufferSize}

/-- The bytes of {lit}`recvBuf` that a step of the framing loop overwrites. -/
def frameWrites (r : Receiver R) : FramePc → Option (Int × Int)
  | .move readPos => some (0, toU32 (r.recvBufPos - readPos))
  | .terminate => some (r.recvBufPos, r.recvBufPos + 1)
  | _ => none

/-- The session and the bytes of its {lit}`recvBuf` that a step overwrites. -/
def State.writes (s : State R) : Action R → Option (Nat × Int × Int)
  | .epollIn _ session (.data chunk) =>
      some (session, (s.sessions session).recv.recvBufPos,
        (s.sessions session).recv.recvBufPos + chunk.length)
  | .worker w =>
      match s.procs w with
      | .framing session pc =>
          (frameWrites (s.sessions session).recv pc).map (Prod.mk session)
      | _ => none
  | _ => none

/-- The bytes that {lit}`on_message` finds are those of the packet, which
{lit}`on_recv` saw and which {lit}`on_message` gets without {lit}`app_run`. -/
def SeesPackets (trace : List Event) : Prop :=
  ∀ session message seen, .onMessage session message seen ∈ trace →
    seen = some message.data

/-- The step overwrites no byte of a packet that is in a queue or in the hands of the
application thread, and does not free it. -/
def KeepsMessages (s : State R) (a : Action R) : Prop :=
  (∀ session lo hi, s.writes a = some (session, lo, hi) →
    ∀ v c, AppThread.MsgPackage.filled (session, c) ∈ s.handoff.undelivered v →
      c.readPos + c.pkgLen ≤ lo ∨ hi ≤ c.readPos) ∧
  ReleaseWaits s a

/-- The packet is still in its session's buffer. -/
structure Intact (s : State R) (p : Nat × Call) : Prop where
  not_released : (s.sessions p.1).released = false
  readPos_nonneg : 0 ≤ p.2.readPos
  bytes : (s.sessions p.1).recv.recvBuf.range p.2.readPos (p.2.readPos + p.2.pkgLen) =
    p.2.data

/-- What holds along a run whose steps keep the messages. -/
structure MessageInv (s : State R) : Prop where
  base : Inv s
  intact : ∀ w, ∀ p ∈ (s.handoff.lanes w).outstanding, Intact s p
  sees : SeesPackets s.trace

theorem start_messageInv (garbage : Buf UInt8 R.val) (records : Nat → Fin 101 → Obj) :
    MessageInv (start garbage records) := by
  constructor
  · exact start_inv garbage records
  · intro w p hp
    have hlt := (start_inv garbage records).outstanding w p hp
    simp [start] at hlt
  · intro session message seen hmem
    simp [start] at hmem

/-! ## Writes to a buffer -/

/-- A message is intact if its buffer kept its bytes. -/
theorem Intact.congr {s s' : State R} {p : Nat × Call} (h : Intact s p)
    (hreleased : (s'.sessions p.1).released = (s.sessions p.1).released)
    (hbytes : (s'.sessions p.1).recv.recvBuf.range p.2.readPos (p.2.readPos + p.2.pkgLen) =
      (s.sessions p.1).recv.recvBuf.range p.2.readPos (p.2.readPos + p.2.pkgLen)) :
    Intact s' p := by
  constructor
  · rw [hreleased]
    exact h.not_released
  · exact h.readPos_nonneg
  · rw [hbytes]
    exact h.bytes

/-- The message that {lit}`parse_message` returns is a slice of the buffer. -/
theorem parseMessage_spec {r : Receiver R} {v : LoopVars} {c : Call}
    (h : parseMessage r v = some c) :
    0 ≤ c.readPos ∧ r.recvBuf.range c.readPos (c.readPos + c.pkgLen) = c.data := by
  unfold parseMessage Buf.read at h
  split at h
  · rename_i hbounds
    cases h
    exact ⟨hbounds.1, rfl⟩
  · contradiction

/-- Receiving leaves everything alone that it does not overwrite. -/
theorem recvData_range {f : ReadPacket} {r r' : Receiver R} {chunk : List UInt8}
    {v : LoopVars} (h : recvData f r chunk = some (.running r' v)) {lo hi : Int}
    (hlo : 0 ≤ lo)
    (hdisjoint : hi ≤ r.recvBufPos ∨ r.recvBufPos + chunk.length ≤ lo) :
    r'.recvBuf.range lo hi = r.recvBuf.range lo hi := by
  unfold recvData at h
  rcases Option.bind_eq_some_iff.mp h with ⟨buf, hwrite, hrest⟩
  rcases Option.bind_eq_some_iff.mp hrest with ⟨d, -, heq⟩
  cases heq
  exact Buf.write_range_of_disjoint hwrite hlo hdisjoint

/-- A step of the framing loop leaves everything alone that it does not overwrite. -/
theorem frameStep_range {f : ReadPacket} {r r' : Receiver R} {pc : FramePc}
    {next : Option FramePc} (h : frameStep f r pc = some (r', next)) {lo hi : Int}
    (hlo : 0 ≤ lo)
    (hdisjoint : ∀ wlo whi, frameWrites r pc = some (wlo, whi) → hi ≤ wlo ∨ whi ≤ lo) :
    r'.recvBuf.range lo hi = r.recvBuf.range lo hi := by
  cases pc with
  | loopHead v =>
      cases h
      rfl
  | requery v =>
      rcases Option.bind_eq_some_iff.mp h with ⟨query, -, hquery⟩
      cases query with
      | again pkgLen =>
          cases hquery
          rfl
      | leftover =>
          cases hquery
          rfl
      | consumed =>
          cases hquery
          rfl
  | move readPos =>
      rcases Option.bind_eq_some_iff.mp h with ⟨moved, hmove, heq⟩
      cases heq
      rcases Option.bind_eq_some_iff.mp hmove with ⟨buf, hbuf, hmoved⟩
      cases hmoved
      apply Buf.move_range_of_disjoint hbuf hlo
      have hd := hdisjoint 0 _ rfl
      omega
  | terminate =>
      rcases Option.bind_eq_some_iff.mp h with ⟨ended, hend, heq⟩
      cases heq
      rcases Option.bind_eq_some_iff.mp hend with ⟨buf, hbuf, hended⟩
      cases hended
      apply Buf.write_range_of_disjoint hbuf hlo
      exact hdisjoint _ _ rfl

/-! ## Steps -/

/-- A step that calls nothing and keeps the messages. -/
theorem MessageInv.of_silent {s s' : State R} (h : MessageInv s) (hbase : Inv s')
    (htrace : s'.trace = s.trace)
    (houtstanding : ∀ w, ∀ p ∈ (s'.handoff.lanes w).outstanding,
      p ∈ (s.handoff.lanes w).outstanding ∨ Intact s' p)
    (hkeeps : ∀ w, ∀ p ∈ (s.handoff.lanes w).outstanding, Intact s p → Intact s' p) :
    MessageInv s' := by
  constructor
  · exact hbase
  · intro w p hp
    rcases houtstanding w p hp with hold | hnew
    · exact hkeeps w p hold (h.intact w p hold)
    · exact hnew
  · rw [htrace]
    exact h.sees

/-- A step that only moves a worker. -/
theorem MessageInv.set_proc {s : State R} (h : MessageInv s) {w : Nat} {pc : ProcPc}
    (hbase : Inv (s.setProc w pc)) : MessageInv (s.setProc w pc) :=
  h.of_silent hbase rfl (fun _ _ hp => Or.inl hp)
    (fun _ _ _ hintact => hintact.congr rfl rfl)

/-- A worker writes to the buffer of its session, outside of the packets under way. -/
theorem MessageInv.update_recv {s : State R} (h : MessageInv s) {w session : Nat}
    {r : Receiver R} {pc : ProcPc}
    (hbase : Inv ((s.setSession session { s.sessions session with recv := r }).setProc w pc))
    (hworker : (s.sessions session).worker = w)
    (hproc : ∀ lv, s.procs w ≠ .handing session lv)
    (hbytes : ∀ v c, AppThread.MsgPackage.filled (session, c) ∈ s.handoff.undelivered v →
      0 ≤ c.readPos → r.recvBuf.range c.readPos (c.readPos + c.pkgLen) =
        (s.sessions session).recv.recvBuf.range c.readPos (c.readPos + c.pkgLen)) :
    MessageInv
      ((s.setSession session { s.sessions session with recv := r }).setProc w pc) := by
  refine h.of_silent hbase rfl (fun _ _ hp => Or.inl hp) ?_
  rintro v ⟨x, c⟩ hp hintact
  by_cases hx : x = session
  · subst hx
    have hundelivered := h.base.outstanding_undelivered hworker hproc hp
    apply hintact.congr
    · simp
    · simpa using hbytes v c hundelivered hintact.readPos_nonneg
  · apply hintact.congr
    · simp [hx]
    · simp [hx]

/-- A step of closing a session. -/
theorem closingStep_messageInv {s : State R} (h : MessageInv s) {w session : Nat}
    {what : Closing} {rest : List Closing} (hwaits : ReleaseWaits s (.worker w))
    (hproc : s.procs w = .closing session (what :: rest)) :
    MessageInv (s.closingStep w session what rest) := by
  have hrecv : ∀ x, ((s.closingStep w session what rest).sessions x).recv =
      (s.sessions x).recv := by
    intro x
    by_cases hx : x = session
    · subst hx
      simp
    · simp [hx]
  constructor
  · exact closingStep_inv h.base hproc
  · intro v p hp
    apply (h.intact v p hp).congr
    · exact h.base.released_closingStep hwaits hproc hp
    · rw [hrecv]
  · intro x message seen hmem
    rcases List.mem_append.mp hmem with hold | hnew
    · exact h.sees x message seen hold
    · simp at hnew

/-- A step of the application thread. -/
theorem appStep_messageInv {s : State R} (h : MessageInv s) {threads : Nat} {readFirst : Bool}
    {t : AppThread.State Nat Call}
    (hstep : AppThread.step threads s.handoff (.app readFirst) = some t)
    (hbase : Inv { s with handoff := t, trace := s.trace ++ s.appCall }) :
    MessageInv { s with handoff := t, trace := s.trace ++ s.appCall } := by
  constructor
  · exact hbase
  · intro w p hp
    have hold := AppThread.step_outstanding_of_ne_frame hstep (by simp) hp
    exact (h.intact w p hold).congr rfl rfl
  · intro x message seen hmem
    rcases List.mem_append.mp hmem with hold | hnew
    · exact h.sees x message seen hold
    · rcases appCall_cases h.base with hnone | ⟨i, session, c, hcall, houtstanding⟩
      · simp [hnone] at hnew
      · have hintact := h.intact i _ houtstanding
        rw [hcall, List.mem_singleton] at hnew
        cases hnew
        simp [State.seen, hintact.not_released, hintact.bytes]

/-- Steps that keep the messages show {lit}`on_message` the packets. -/
theorem step_messageInv {cfg : Config} {s s' : State R} {a : Action R} (h : MessageInv s)
    (hkeeps : KeepsMessages s a) (hstep : step cfg s a = some s') : MessageInv s' := by
  have hbase := step_inv h.base hstep
  cases step_cases hstep with
  | accept w garbage =>
      refine h.of_silent hbase rfl (fun _ _ hp => Or.inl hp) ?_
      intro v p hp hintact
      have hne := Nat.ne_of_lt (h.base.outstanding v p hp)
      apply hintact.congr <;> simp [State.accept, hne]
  | received w session chunk r v hready hdata =>
      apply h.update_recv hbase (h.base.handles_of_ready hready).worker_eq
      · simp [hready.2.1]
      · intro u c hundelivered hnonneg
        apply recvData_range hdata hnonneg
        exact hkeeps.1 session _ _ rfl u c hundelivered
  | closingEvent w session a path hready hevent => exact h.set_proc hbase
  | fault w a hproc => exact h.set_proc hbase
  | deliver w session v v' c t hproc hmessage hframe =>
      refine h.of_silent hbase rfl ?_ (fun _ _ _ hintact => hintact.congr rfl rfl)
      intro u p hp
      rcases AppThread.step_outstanding hframe hp with hold | hnew
      · exact Or.inl hold
      · cases hnew
        have hslice := parseMessage_spec hmessage
        exact Or.inr ⟨(h.base.proc_at hproc).2.not_released, hslice.1, hslice.2⟩
  | frame w session pc r next hproc hframe =>
      apply h.update_recv hbase (h.base.proc_at hproc).2.worker_eq
      · simp [hproc]
      · intro u c hundelivered hnonneg
        apply frameStep_range hframe hnonneg
        intro wlo whi hwrites
        apply hkeeps.1 session wlo whi _ u c hundelivered
        simp [State.writes, hproc, hwrites]
  | handed w session v hproc hidle => exact h.set_proc hbase
  | handing w session v t hproc hhandoff =>
      refine h.of_silent hbase rfl ?_ (fun _ _ _ hintact => hintact.congr rfl rfl)
      intro u p hp
      exact Or.inl (AppThread.step_outstanding_of_ne_frame hhandoff (by simp) hp)
  | closed w session hproc => exact h.set_proc hbase
  | closing w session what rest hproc => exact closingStep_messageInv h hkeeps.2 hproc
  | app readFirst t hhandoff => exact appStep_messageInv h hhandoff hbase

/-- If no step of a run overwrites or frees a byte of a packet that is under way to the
application thread, {lit}`on_message` finds at every message the bytes that
{lit}`on_recv` saw. -/
theorem messages_intact (cfg : Config) (garbage : Buf UInt8 R.val)
    (records : Nat → Fin 101 → Obj) (acts : List (Action R))
    (hkeeps : EachStep (step cfg) KeepsMessages (start garbage records) acts) :
    Always (step cfg) (fun s => SeesPackets s.trace) (start garbage records) acts :=
  always_of_eachStep (fun _ _ _ h hok hstep => step_messageInv h hok hstep)
    (fun _ h => h.sees) (start_messageInv garbage records) hkeeps

/-- A session receives {lit}`chunk`; its worker takes {lit}`n` steps, and then the
application thread takes those that bring it to {lit}`on_message`. -/
def receiveThenDeliver (chunk : List UInt8) (n : Nat) : List (Action four) :=
  [.accept 0 (.replicate 4 9), .epollIn 0 0 (.data chunk)] ++
    List.replicate n (.worker 0) ++ List.replicate 8 (.app true)

/-- The step is one of closing a session. -/
def State.closes (s : State R) : Action R → Bool
  | .worker w =>
      match s.procs w with
      | .closing _ _ => true
      | _ => false
  | _ => false

/-- A step that writes to no buffer and closes no session keeps the messages. -/
theorem keepsMessages_of_quiet (s : State R) (a : Action R)
    (h : ((s.writes a).isNone && !s.closes a) = true) : KeepsMessages s a := by
  rw [Bool.and_eq_true, Option.isNone_iff_eq_none] at h
  rcases h with ⟨hwrites, hcloses⟩
  constructor
  · intro session lo hi heq
    rw [hwrites] at heq
    contradiction
  · rintro w session rest rfl hproc
    simp [State.closes, hproc] at hcloses

/-- A packet that fills the received bytes is delivered as it was. -/
theorem messages_intact_whole_packet :
    Always (step (oneWorker false)) (fun s => SeesPackets s.trace) fresh
        (receiveThenDeliver [1, 2] 54) ∧
      (run (step (oneWorker false)) fresh (receiveThenDeliver [1, 2] 54)).map (·.trace) =
        some [.onMessage 0 ⟨0, 2, [1, 2]⟩ (some [1, 2])] := by
  refine ⟨messages_intact _ _ _ _ ?_, by decide⟩
  refine .of_cons rfl (keepsMessages_of_quiet _ _ rfl) ?_
  refine .of_cons rfl ⟨?_, ?_⟩ ?_
  · intro session lo hi _ v c hundelivered
    simp [State.accept, start, AppThread.start, AppThread.State.undelivered,
      AppThread.AppPc.inHand] at hundelivered
  · rintro w session rest heq
    contradiction
  · exact eachStep_of_checkSteps keepsMessages_of_quiet (by decide)

/-- With one byte behind the packet, the worker moves that byte to the front before the
application thread looks: {lit}`on_message` finds it, and a terminator, in place of
the packet. -/
theorem leftover_overwrites_message :
    ∃ s, run (step (oneWorker false)) fresh (receiveThenDeliver [1, 2, 3] 56) = some s ∧
      s.trace = [.onMessage 0 ⟨0, 2, [1, 2]⟩ (some [3, 0])] ∧ ¬SeesPackets s.trace := by
  have htrace : (run (step (oneWorker false)) fresh
      (receiveThenDeliver [1, 2, 3] 56)).map (·.trace) =
        some [.onMessage 0 ⟨0, 2, [1, 2]⟩ (some [3, 0])] := by
    decide
  rcases Option.map_eq_some_iff.mp htrace with ⟨s, hs, heq⟩
  refine ⟨s, hs, heq, ?_⟩
  intro hsees
  rw [heq] at hsees
  have hseen := hsees 0 ⟨0, 2, [1, 2]⟩ (some [3, 0]) (List.mem_singleton_self _)
  simp at hseen

end Processor
end TinyNet
