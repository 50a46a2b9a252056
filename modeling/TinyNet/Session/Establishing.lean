import TinyNet.Library.Holders
import TinyNet.Processor.Invariant
import TinyNet.Session.Protocol

/-!
# The callbacks of an epoll session

{lit}`Scheduler::push` registers a session with its worker and calls {lit}`on_connect` after
that, from the thread of the listener or connector ({lit}`detail/epollnet.hpp`).  So the worker
may handle events of the session before {lit}`on_connect` is called, and even release it.

This file joins the threads that establish sessions to the workers and the application thread,
and keeps the callbacks that each session gets.

Main results:

- Theorem {lit}`callbacks_follow_iff`: the callbacks of every session come in order exactly if
  no worker makes one to a session whose {lit}`on_connect` is still to come.
- Theorem {lit}`callbacks_live_iff`: no callback is ever due on a released session exactly if
  no worker releases one whose {lit}`on_connect` is still to come.
-/

namespace TinyNet
namespace Session
namespace Establishing

open Library.FixedBuffer
open Library.Holders
open Library.MachineInt
open Library.StepSystem
open Processor (Closing Config ProcPc StepCase)

variable {R : BufferSize}

/-! ## The model -/

/-- The workers and the application thread; for each thread that establishes sessions the one
that it has registered and not yet told; and the callbacks of each session so far. -/
structure State (R : BufferSize) where
  processor : Processor.State R
  threads : Nat → Option Nat
  callbacks : Nat → List Callback

/-- A thread makes a session and registers it with worker {lit}`w`; it calls
{lit}`on_connect`; or a worker or the application thread takes a step. -/
inductive Action (R : BufferSize) where
  | register (t w : Nat) (garbage : Buf UInt8 R.val)
  | onConnect (t : Nat)
  | processor (a : Processor.Action R)

/-- No session yet. -/
def start (garbage : Buf UInt8 R.val) (records : Nat → Fin 101 → Obj) : State R where
  processor := Processor.start garbage records
  threads _ := none
  callbacks _ := []

/-- The callback that a worker makes in its next step. -/
def called (p : Processor.State R) : Processor.Action R → Option (Nat × Callback)
  | .worker w =>
      match p.procs w with
      | .framing session (.loopHead v) =>
          if 0 < v.pkgLen ∧ Epoll.fits (p.sessions session).recv v then
            some (session, .onRecv)
          else none
      | .closing session (.onDisconnect :: _) => some (session, .onDisconnect)
      | _ => none
  | _ => none

/-- The callbacks after one more, if any. -/
def noted (callbacks : Nat → List Callback) : Option (Nat × Callback) → Nat → List Callback
  | none => callbacks
  | some (session, c) => Function.update callbacks session (callbacks session ++ [c])

/-- One step.  A session enters by {lit}`register` only. -/
def step (cfg : Config) (s : State R) : Action R → Option (State R)
  | .register t w garbage =>
      match s.threads t with
      | some _ => none
      | none =>
          (Processor.step cfg s.processor (.accept w garbage)).map fun p =>
            { s with
              processor := p
              threads := Function.update s.threads t (some s.processor.created) }
  | .onConnect t =>
      (s.threads t).map fun session =>
        { s with
          threads := Function.update s.threads t none
          callbacks := noted s.callbacks (some (session, .onConnect)) }
  | .processor (.accept _ _) => none
  | .processor a =>
      (Processor.step cfg s.processor a).map fun p =>
        { s with processor := p, callbacks := noted s.callbacks (called s.processor a) }

/-! ## What a worker may still call -/

/-- What holds where a worker stands: it is at a registered session until its close path has
taken that out of the epoll set; {lit}`on_disconnect` comes once, and the release after it. -/
def PcOk (registered : Nat → Bool) (callbacks : Nat → List Callback) : ProcPc → Prop
  | .framing session _ => registered session = true
  | .handing session _ => registered session = true
  | .closing session rest =>
      rest.Nodup ∧ (registered session = true → rest.head? = some .epollDel) ∧
        (.onDisconnect ∈ rest →
          .onDisconnect ∉ callbacks session ∧ [.onDisconnect, .release] <:+: rest)
  | _ => True

/-- Whether a session is in its worker's epoll set. -/
def registered (p : Processor.State R) (session : Nat) : Bool :=
  (p.sessions session).registered

/-- What holds of sessions, threads and callbacks between any two steps. -/
structure Inv (s : State R) : Prop where
  processor : Processor.Inv s.processor
  proc : ∀ w, PcOk (registered s.processor) s.callbacks (s.processor.procs w)
  live : ∀ session, registered s.processor session = true →
    session < s.processor.created ∧ .onDisconnect ∉ s.callbacks session
  exclusive : Exclusive id s.threads
  untold : ∀ t session, s.threads t = some session →
    session < s.processor.created ∧ .onConnect ∉ s.callbacks session
  fresh : ∀ session, s.processor.created ≤ session → s.callbacks session = []

theorem start_inv (garbage : Buf UInt8 R.val) (records : Nat → Fin 101 → Obj) :
    Inv (start garbage records) := by
  refine ⟨Processor.start_inv garbage records, fun _ => trivial, ?_, ?_, nofun, fun _ _ => rfl⟩
  · intro session hregistered
    contradiction
  · exact exclusive_const rfl

/-- What holds for a worker depends on its own session only. -/
theorem PcOk.congr {reg reg' : Nat → Bool} {calls calls' : Nat → List Callback} {pc : ProcPc}
    (h : PcOk reg calls pc)
    (hsame : ∀ session, pc.session? = some session →
      reg' session = reg session ∧ calls' session = calls session) : PcOk reg' calls' pc := by
  cases pc with
  | waiting => trivial
  | fault => trivial
  | framing session pc => exact (hsame session rfl).1.trans h
  | handing session v => exact (hsame session rfl).1.trans h
  | closing session rest =>
      rcases hsame session rfl with ⟨hreg, hcalls⟩
      refine ⟨h.1, fun hr => h.2.1 (hreg ▸ hr), fun hd => ⟨?_, (h.2.2 hd).2⟩⟩
      rw [hcalls]
      exact (h.2.2 hd).1

/-- A worker that makes a callback is at that session. -/
theorem called_cases {p : Processor.State R} {a : Processor.Action R} {session : Nat}
    {c : Callback} (h : called p a = some (session, c)) :
    ∃ w, a = .worker w ∧
      ((c = .onRecv ∧ ∃ v, p.procs w = .framing session (.loopHead v)) ∨
        (c = .onDisconnect ∧ ∃ rest, p.procs w = .closing session (.onDisconnect :: rest))) := by
  unfold called at h
  split at h
  · rename_i w
    refine ⟨w, rfl, ?_⟩
    split at h
    · rename_i v hproc
      split at h
      · cases h
        exact .inl ⟨rfl, v, hproc⟩
      · contradiction
    · rename_i rest hproc
      cases h
      exact .inr ⟨rfl, rest, hproc⟩
    · contradiction
  · contradiction

/-- A worker's step moves no other worker. -/
theorem workerStep_procs {cfg : Config} {p p' : Processor.State R} {w v : Nat}
    (hstep : p.workerStep cfg w = some p') (hne : v ≠ w) : p'.procs v = p.procs v := by
  have hset : ∀ (q : Processor.State R) (pc : ProcPc),
      (q.setProc w pc).procs v = q.procs v := by
    intro q pc
    rw [Processor.State.setProc_procs, Function.update_of_ne hne]
  have hframing : ∀ session pc, (p.framingStep cfg w session pc).procs v = p.procs v := by
    intro session pc
    unfold Processor.State.framingStep
    split <;> exact hset _ _
  unfold Processor.State.workerStep at hstep
  split at hstep
  · contradiction
  · split at hstep
    · unfold Processor.State.deliverStep at hstep
      split at hstep
      · rcases Option.bind_eq_some_iff.mp hstep with ⟨h, -, heq⟩
        cases heq
        exact hset _ _
      · cases hstep
        exact hset _ _
    · cases hstep
      exact hframing _ _
  · cases hstep
    exact hframing _ _
  · unfold Processor.State.handingStep at hstep
    split at hstep
    · cases hstep
      exact hset _ _
    · rcases Option.bind_eq_some_iff.mp hstep with ⟨h, -, heq⟩
      cases heq
      rfl
  · cases hstep
    exact hset _ _
  · cases hstep
    exact hset _ _
  · contradiction

/-! ## The steps -/

namespace Inv

variable {s : State R} {p' : Processor.State R} {w session : Nat} {pc : ProcPc}
  {calls : Nat → List Callback}

/-- A worker moves on at its session, which may leave the epoll set and get a callback other
than {lit}`on_connect`. -/
theorem move (h : Inv s) (hbase : Processor.Inv p')
    (hcreated : p'.created = s.processor.created)
    (hprocs : p'.procs = Function.update s.processor.procs w pc)
    (hworker : (s.processor.sessions session).worker = w)
    (hlt : session < s.processor.created)
    (hreg : ∀ x, x ≠ session → registered p' x = registered s.processor x)
    (hcalls : ∀ x, x ≠ session → calls x = s.callbacks x)
    (hpc : PcOk (registered p') calls pc)
    (hlive : registered p' session = true → .onDisconnect ∉ calls session)
    (huntold : .onConnect ∈ calls session → .onConnect ∈ s.callbacks session) :
    Inv { s with processor := p', callbacks := calls } := by
  refine ⟨hbase, ?_, ?_, h.exclusive, ?_, ?_⟩
  · show ∀ v, PcOk (registered p') calls (p'.procs v)
    rw [hprocs]
    refine (Function.forall_update_iff _ fun _ => PcOk (registered p') calls).mpr
      ⟨hpc, fun v hv => ?_⟩
    -- another worker is at another session
    refine (h.proc v).congr fun x hx => ?_
    have hne : x ≠ session := by
      rintro rfl
      exact hv ((((h.processor.proc v).session hx).2).symm.trans hworker)
    exact ⟨hreg x hne, hcalls x hne⟩
  · intro x hx
    by_cases hne : x = session
    · subst hne
      exact ⟨hcreated ▸ hlt, hlive hx⟩
    · rcases h.live x ((hreg x hne).symm.trans hx) with ⟨hltx, hdx⟩
      refine ⟨hcreated ▸ hltx, ?_⟩
      show .onDisconnect ∉ calls x
      rw [hcalls x hne]
      exact hdx
  · intro t x ht
    rcases h.untold t x ht with ⟨hltx, hcx⟩
    refine ⟨hcreated ▸ hltx, ?_⟩
    show .onConnect ∉ calls x
    by_cases hne : x = session
    · subst hne
      exact fun hmem => hcx (huntold hmem)
    · rw [hcalls x hne]
      exact hcx
  · intro x hx
    have hx' : s.processor.created ≤ x := hcreated ▸ hx
    show calls x = []
    rw [hcalls x (by omega)]
    exact h.fresh x hx'

/-- A worker without a session moves on, or one that stays at its place. -/
theorem setProc (h : Inv s) (hbase : Processor.Inv p')
    (hcreated : p'.created = s.processor.created)
    (hsessions : p'.sessions = s.processor.sessions)
    (hprocs : p'.procs = Function.update s.processor.procs w pc)
    (hpc : PcOk (registered s.processor) s.callbacks pc) :
    Inv { s with processor := p' } := by
  have hreg : registered p' = registered s.processor := by
    funext x
    rw [registered, registered, hsessions]
  refine ⟨hbase, ?_, ?_, h.exclusive, ?_, ?_⟩
  · show ∀ v, PcOk (registered p') s.callbacks (p'.procs v)
    rw [hprocs, hreg]
    exact (Function.forall_update_iff _ fun _ => PcOk (registered s.processor) s.callbacks).mpr
      ⟨hpc, fun v _ => h.proc v⟩
  · intro x hx
    rw [hcreated]
    exact h.live x (hreg ▸ hx)
  · intro t x ht
    rw [hcreated]
    exact h.untold t x ht
  · intro x hx
    exact h.fresh x (hcreated ▸ hx)

end Inv

/-- A callback leaves the other sessions alone. -/
theorem noted_of_ne (callbacks : Nat → List Callback) {session x : Nat} (c : Callback)
    (hne : x ≠ session) : noted callbacks (some (session, c)) x = callbacks x :=
  Function.update_of_ne hne _ _

theorem noted_self (callbacks : Nat → List Callback) (session : Nat) (c : Callback) :
    noted callbacks (some (session, c)) session = callbacks session ++ [c] :=
  Function.update_self _ _ _

/-- The close paths start with the epoll set and take each step once, the release right after
{lit}`on_disconnect`. -/
theorem path_spec {cfg : Config} {w session : Nat} {a : Processor.Action R}
    {path : List Closing} (hevent : Processor.ClosingEvent cfg w session a path) :
    path.Nodup ∧ path.head? = some .epollDel ∧
      (.onDisconnect ∈ path → [.onDisconnect, .release] <:+: path) := by
  have hrecv : ∀ evtHandler, (Processor.recvClosing evtHandler).Nodup ∧
      (Processor.recvClosing evtHandler).head? = some .epollDel ∧
        (.onDisconnect ∈ Processor.recvClosing evtHandler →
          [.onDisconnect, .release] <:+: Processor.recvClosing evtHandler) := by
    decide
  cases hevent with
  | error => exact hrecv cfg.evtHandler
  | closed => exact hrecv cfg.evtHandler
  | epollErr => decide
  | epollOther => decide

/-- An event for a worker. -/
theorem event_inv {cfg : Config} {s : State R} {p' : Processor.State R}
    {a : Processor.Action R} (h : Inv s) (haccept : ∀ w garbage, a ≠ .accept w garbage)
    (hworker : ∀ w, a ≠ .worker w) (hstep : Processor.step cfg s.processor a = some p') :
    Inv { s with processor := p' } := by
  have hbase := Processor.step_inv h.processor hstep
  cases Processor.step_cases hstep with
  | accept w garbage => exact absurd rfl (haccept w garbage)
  | received w session chunk r v hready hdata =>
      rcases hready with ⟨-, -, hlt, hreg, hw⟩
      have hsame : ∀ x, registered
          ((s.processor.setSession session { s.processor.sessions session with recv := r }).setProc
            w (.framing session (.loopHead v))) x = registered s.processor x := by
        intro x
        by_cases hx : x = session
        · subst hx
          simp [registered]
        · simp [registered, Function.update_of_ne hx]
      exact h.move hbase rfl rfl hw hlt (fun x _ => hsame x) (fun _ _ => rfl)
        ((hsame session).trans hreg) (fun _ => (h.live session hreg).2) id
  | closingEvent w session a path hready hevent =>
      rcases hready with ⟨-, -, -, hreg, -⟩
      rcases path_spec hevent with ⟨hnodup, hhead, hrelease⟩
      exact h.setProc hbase rfl rfl rfl
        ⟨hnodup, fun _ => hhead, fun hd => ⟨(h.live session hreg).2, hrelease hd⟩⟩
  | fault w a _ => exact h.setProc hbase rfl rfl rfl trivial
  | deliver w => exact absurd rfl (hworker w)
  | frame w => exact absurd rfl (hworker w)
  | handed w => exact absurd rfl (hworker w)
  | handing w => exact absurd rfl (hworker w)
  | closed w => exact absurd rfl (hworker w)
  | closing w => exact absurd rfl (hworker w)
  | app t _ => exact ⟨hbase, h.proc, h.live, h.exclusive, h.untold, h.fresh⟩

/-- A worker in its framing loop goes on, and may call {lit}`on_recv`. -/
theorem framing_inv {s : State R} {p' : Processor.State R} {w session : Nat} {pc : ProcPc}
    {fpc : Processor.FramePc} (h : Inv s)
    (hproc : s.processor.procs w = .framing session fpc) (hbase : Processor.Inv p')
    (hcreated : p'.created = s.processor.created)
    (hprocs : p'.procs = Function.update s.processor.procs w pc)
    (hreg : ∀ x, registered p' x = registered s.processor x)
    (hpc : ∀ calls, PcOk (registered s.processor) calls pc) :
    Inv { s with
      processor := p'
      callbacks := noted s.callbacks (called s.processor (.worker w)) } := by
  have hok := h.proc w
  have hbaseOk := h.processor.proc w
  rw [hproc] at hok hbaseOk
  have hregistered : registered s.processor session = true := hok
  have hreg' : registered p' = registered s.processor := funext hreg
  cases hcalled : called s.processor (.worker w) with
  | none =>
      refine h.move hbase hcreated hprocs hbaseOk.2.worker_eq hbaseOk.2.lt_created
        (fun x _ => hreg x) (fun _ _ => rfl) ?_ (fun _ => (h.live session hregistered).2) id
      rw [hreg']
      exact hpc _
  | some call =>
      rcases call with ⟨x, c⟩
      rcases called_cases hcalled with ⟨w', hw', hcase⟩
      obtain rfl : w = w' := by simpa using hw'
      rw [hproc] at hcase
      rcases hcase with ⟨rfl, v, heq⟩ | ⟨-, rest, heq⟩
      · obtain rfl : session = x := by
          cases heq
          rfl
        refine h.move hbase hcreated hprocs hbaseOk.2.worker_eq hbaseOk.2.lt_created
          (fun x _ => hreg x) (fun x hx => noted_of_ne s.callbacks _ hx) ?_ ?_ ?_
        · rw [hreg']
          exact hpc _
        · intro _
          rw [noted_self]
          simpa using (h.live session hregistered).2
        · intro hmem
          rw [noted_self] at hmem
          simpa using hmem
      · contradiction

/-- A step of a worker's close path, which may call {lit}`on_disconnect`. -/
theorem closing_inv {s : State R} {w session : Nat} {what : Closing} {rest : List Closing}
    (h : Inv s) (hproc : s.processor.procs w = .closing session (what :: rest)) :
    Inv { s with
      processor := s.processor.closingStep w session what rest
      callbacks := noted s.callbacks (called s.processor (.worker w)) } := by
  have hok := h.proc w
  rw [hproc] at hok
  rcases hok with ⟨hnodup, hhead, honce⟩
  rcases List.nodup_cons.mp hnodup with ⟨hnot, hnodup'⟩
  rcases h.processor.proc_at hproc with ⟨-, hlt, hworker, -⟩
  have hbase := Processor.closingStep_inv h.processor hproc
  have hcalled : called s.processor (.worker w) =
      if what = .onDisconnect then some (session, .onDisconnect) else none := by
    simp only [called, hproc]
    cases what <;> rfl
  -- once the first step is done, the session is not in the epoll set
  have hgone : registered (s.processor.closingStep w session what rest) session = false := by
    rw [registered, Processor.State.closingStep_sessions, Function.update_self]
    by_cases hdel : what = .epollDel
    · subst hdel
      rfl
    · have hfalse : (s.processor.sessions session).registered = false := by
        by_contra hreg
        exact hdel (Option.some.inj (hhead (by simpa [registered] using hreg)))
      cases what with
      | epollDel => rfl
      | close => exact hfalse
      | onDisconnect => exact hfalse
      | release => exact hfalse
      | evtSessionRelease => exact hfalse
  have hreg : ∀ x, x ≠ session →
      registered (s.processor.closingStep w session what rest) x =
        registered s.processor x := by
    intro x hx
    rw [registered, Processor.State.closingStep_sessions, Function.update_of_ne hx]
    rfl
  refine h.move hbase rfl rfl hworker hlt hreg ?_ ⟨hnodup', ?_, ?_⟩ ?_ ?_
  · intro x hx
    rw [hcalled]
    split
    · exact noted_of_ne _ _ hx
    · rfl
  · intro hr
    rw [hgone] at hr
    contradiction
  · intro hmem
    have hne : what ≠ .onDisconnect := by
      rintro rfl
      exact hnot hmem
    rcases honce (List.mem_cons_of_mem what hmem) with ⟨hnotCalled, hpair⟩
    refine ⟨?_, ?_⟩
    · rw [hcalled, if_neg hne]
      exact hnotCalled
    · rcases List.infix_cons_iff.mp hpair with hfirst | hlater
      · exact absurd (List.cons_prefix_cons.mp hfirst).1.symm hne
      · exact hlater
  · intro hr
    rw [hgone] at hr
    contradiction
  · intro hmem
    rw [hcalled] at hmem
    split at hmem
    · rw [noted_self] at hmem
      simpa using hmem
    · exact hmem

/-- A worker's step. -/
theorem worker_inv {cfg : Config} {s : State R} {p' : Processor.State R} {w : Nat}
    (h : Inv s) (hstep : Processor.step cfg s.processor (.worker w) = some p') :
    Inv { s with
      processor := p'
      callbacks := noted s.callbacks (called s.processor (.worker w)) } := by
  have hbase := Processor.step_inv h.processor hstep
  have hothers : ∀ v, v ≠ w → p'.procs v = s.processor.procs v :=
    fun v hv => workerStep_procs hstep hv
  have hquiet : ∀ {session v}, s.processor.procs w = .handing session v →
      called s.processor (.worker w) = none := by
    intro session v hproc
    simp [called, hproc]
  cases Processor.step_cases hstep with
  | closingEvent v session a path hready hevent => cases hevent
  | fault v a hproc =>
      have hv : v = w := by
        by_contra hne
        have hsame := hothers v hne
        rw [Processor.State.setProc_procs, Function.update_self] at hsame
        rw [← hsame] at hproc
        simp at hproc
      subst hv
      rcases hproc with hwaiting | ⟨session, fpc, hframing⟩
      · have hcalled : called s.processor (.worker v) = none := by
          simp [called, hwaiting]
        rw [hcalled]
        exact h.setProc hbase rfl rfl rfl trivial
      · exact framing_inv h hframing hbase rfl rfl (fun _ => rfl) fun _ => trivial
  | deliver w session v v' c t hproc hmessage hframe =>
      have hok := h.proc w
      rw [hproc] at hok
      exact framing_inv h hproc hbase rfl rfl (fun _ => rfl) fun _ => hok
  | frame w session fpc r next hproc hframe =>
      have hok := h.proc w
      rw [hproc] at hok
      refine framing_inv h hproc hbase rfl rfl (fun x => ?_) fun calls => ?_
      · by_cases hx : x = session
        · subst hx
          simp [registered]
        · simp [registered, Function.update_of_ne hx]
      · cases next with
        | none => trivial
        | some fpc' => exact hok
  | handed w session v hproc hidle =>
      have hok := h.proc w
      rw [hproc] at hok
      rw [hquiet hproc]
      exact h.setProc hbase rfl rfl rfl hok
  | handing w session v t hproc hhandoff =>
      rw [hquiet hproc]
      exact ⟨hbase, h.proc, h.live, h.exclusive, h.untold, h.fresh⟩
  | closed w session hproc =>
      have hcalled : called s.processor (.worker w) = none := by
        simp [called, hproc]
      rw [hcalled]
      exact h.setProc hbase rfl rfl rfl trivial
  | closing w session what rest hproc => exact closing_inv h hproc

/-- A thread registers a new session. -/
theorem register_inv {s : State R} {t w : Nat} {garbage : Buf UInt8 R.val} (h : Inv s) :
    Inv { s with
      processor := s.processor.accept w garbage
      threads := Function.update s.threads t (some s.processor.created) } := by
  have hold : ∀ x, x ≠ s.processor.created →
      registered (s.processor.accept w garbage) x = registered s.processor x := by
    intro x hx
    simp [registered, Processor.State.accept, Function.update_of_ne hx]
  refine ⟨Processor.accept_inv h.processor w garbage, ?_, ?_, ?_, ?_, ?_⟩
  · intro v
    refine (h.proc v).congr fun x hx => ⟨hold x ?_, rfl⟩
    exact ((h.processor.proc v).session hx).1.ne
  · intro x hx
    by_cases hnew : x = s.processor.created
    · subst hnew
      refine ⟨Nat.lt_succ_self _, ?_⟩
      show .onDisconnect ∉ s.callbacks s.processor.created
      rw [h.fresh _ le_rfl]
      exact List.not_mem_nil
    · rcases h.live x ((hold x hnew).symm.trans hx) with ⟨hlt, hd⟩
      exact ⟨Nat.lt_succ_of_lt hlt, hd⟩
  · apply h.exclusive.update
    intro x hx
    obtain rfl : s.processor.created = x := Option.some.inj hx
    right
    rintro ⟨t', ht'⟩
    exact absurd (h.untold t' _ ht').1 (lt_irrefl _)
  · intro t' x ht'
    by_cases ht : t' = t
    · subst ht
      have hx : s.processor.created = x := by simpa using ht'
      subst hx
      refine ⟨Nat.lt_succ_self _, ?_⟩
      show .onConnect ∉ s.callbacks s.processor.created
      rw [h.fresh _ le_rfl]
      exact List.not_mem_nil
    · have ht'' : s.threads t' = some x := by simpa [Function.update_of_ne ht] using ht'
      exact ⟨Nat.lt_succ_of_lt (h.untold t' x ht'').1, (h.untold t' x ht'').2⟩
  · intro x hx
    exact h.fresh x (Nat.le_of_succ_le hx)

/-- A thread tells its session of the connection. -/
theorem onConnect_inv {s : State R} {t session : Nat} (h : Inv s)
    (ht : s.threads t = some session) :
    Inv { s with
      threads := Function.update s.threads t none
      callbacks := noted s.callbacks (some (session, .onConnect)) } := by
  rcases h.untold t session ht with ⟨hlt, hnot⟩
  have hmem : ∀ x, .onDisconnect ∈ noted s.callbacks (some (session, .onConnect)) x ↔
      .onDisconnect ∈ s.callbacks x := by
    intro x
    by_cases hx : x = session
    · subst hx
      rw [noted_self]
      simp
    · rw [noted_of_ne _ _ hx]
  refine ⟨h.processor, ?_, ?_, h.exclusive.update nofun, ?_, ?_⟩
  · intro v
    have hok := h.proc v
    show PcOk (registered s.processor) _ (s.processor.procs v)
    cases hproc : s.processor.procs v with
    | waiting => trivial
    | fault => trivial
    | framing x fpc => rw [hproc] at hok; exact hok
    | handing x v => rw [hproc] at hok; exact hok
    | closing x rest =>
        rw [hproc] at hok
        exact ⟨hok.1, hok.2.1,
          fun hd => ⟨fun hc => (hok.2.2 hd).1 ((hmem x).mp hc), (hok.2.2 hd).2⟩⟩
  · intro x hx
    exact ⟨(h.live x hx).1, fun hc => (h.live x hx).2 ((hmem x).mp hc)⟩
  · intro t' x ht'
    have hne : t' ≠ t := by
      rintro rfl
      simp at ht'
    have ht'' : s.threads t' = some x := by simpa [Function.update_of_ne hne] using ht'
    refine ⟨(h.untold t' x ht'').1, ?_⟩
    show .onConnect ∉ noted s.callbacks (some (session, .onConnect)) x
    rw [noted_of_ne]
    · exact (h.untold t' x ht'').2
    · rintro rfl
      exact hne (h.exclusive t' t x ht'' ht)
  · intro x hx
    show noted s.callbacks (some (session, .onConnect)) x = []
    rw [noted_of_ne]
    · exact h.fresh x hx
    · have hx' : s.processor.created ≤ x := hx
      omega

/-- What a step can be. -/
theorem step_cases {cfg : Config} {s s' : State R} {a : Action R} (hstep : step cfg s a = some s') :
    (∃ t w garbage, a = .register t w garbage ∧ s.threads t = none ∧
      s' = { s with
        processor := s.processor.accept w garbage
        threads := Function.update s.threads t (some s.processor.created) }) ∨
    (∃ t session, a = .onConnect t ∧ s.threads t = some session ∧
      s' = { s with
        threads := Function.update s.threads t none
        callbacks := noted s.callbacks (some (session, .onConnect)) }) ∨
    (∃ a' p', a = .processor a' ∧ (∀ w garbage, a' ≠ .accept w garbage) ∧
      Processor.step cfg s.processor a' = some p' ∧
      s' = { s with
        processor := p', callbacks := noted s.callbacks (called s.processor a') }) := by
  unfold step at hstep
  split at hstep
  · rename_i t w garbage
    split at hstep
    · contradiction
    · rename_i hthread
      rcases Option.map_eq_some_iff.mp hstep with ⟨p', hp', rfl⟩
      rw [Processor.step] at hp'
      split at hp'
      · cases hp'
        exact .inl ⟨t, w, garbage, rfl, hthread, rfl⟩
      · contradiction
  · rename_i t
    rcases Option.map_eq_some_iff.mp hstep with ⟨session, hthread, rfl⟩
    exact .inr (.inl ⟨t, session, rfl, hthread, rfl⟩)
  · contradiction
  · rename_i a' hnot
    rcases Option.map_eq_some_iff.mp hstep with ⟨p', hp', rfl⟩
    exact .inr (.inr ⟨a', p', rfl, fun w garbage heq => hnot w garbage heq, hp', rfl⟩)

/-- Every step of every thread keeps the invariant. -/
theorem step_inv {cfg : Config} {s s' : State R} {a : Action R} (h : Inv s)
    (hstep : step cfg s a = some s') : Inv s' := by
  rcases step_cases hstep with ⟨t, w, garbage, rfl, -, rfl⟩ | ⟨t, session, rfl, ht, rfl⟩ |
    ⟨a', p', rfl, haccept, hp', rfl⟩
  · exact register_inv h
  · exact onConnect_inv h ht
  · cases a' with
    | worker w => exact worker_inv h hp'
    | accept w garbage => exact absurd rfl (haccept w garbage)
    | epollIn w session outcome => exact event_inv h haccept nofun hp'
    | epollErr w session => exact event_inv h haccept nofun hp'
    | epollOther w session => exact event_inv h haccept nofun hp'
    | app => exact event_inv h haccept nofun hp'

/-! ## The order of the callbacks -/

/-- A callback of a worker comes after the session's {lit}`on_connect`. -/
def Told (s : State R) : Action R → Prop
  | .processor a => ∀ session c, called s.processor a = some (session, c) →
      .onConnect ∈ s.callbacks session
  | _ => True

/-- A worker makes a callback to a session that was not told of its end. -/
theorem Inv.not_disconnected {s : State R} (h : Inv s) {a : Processor.Action R} {session : Nat}
    {c : Callback} (hcalled : called s.processor a = some (session, c)) :
    c ≠ .onConnect ∧ .onDisconnect ∉ s.callbacks session := by
  rcases called_cases hcalled with ⟨w, -, ⟨rfl, v, hproc⟩ | ⟨rfl, rest, hproc⟩⟩
  · have hok := h.proc w
    rw [hproc] at hok
    exact ⟨nofun, (h.live session hok).2⟩
  · have hok := h.proc w
    rw [hproc] at hok
    exact ⟨nofun, (hok.2.2 List.mem_cons_self).1⟩

/-- The callbacks come in order after one more if they did before and it comes in order. -/
theorem follows_noted {callbacks : Nat → List Callback} {session : Nat} {c : Callback} :
    (∀ x, Follows (noted callbacks (some (session, c)) x)) ↔
      Follows (callbacks session ++ [c]) ∧ ∀ x, x ≠ session → Follows (callbacks x) :=
  Function.forall_update_iff callbacks fun _ calls => Follows calls

/-- A step after which the callbacks are in order. -/
theorem told_of_follows {cfg : Config} {s s' : State R} {a : Action R}
    (hstep : step cfg s a = some s') (hfollows : ∀ x, Follows (s'.callbacks x))
    (h : Inv s) : Told s a := by
  rcases step_cases hstep with ⟨t, w, garbage, rfl, -, rfl⟩ | ⟨t, session, rfl, ht, rfl⟩ |
    ⟨a', p', rfl, -, -, rfl⟩
  · trivial
  · trivial
  · intro session c hcalled
    have hnoted : ∀ x, Follows (noted s.callbacks (some (session, c)) x) := by
      rw [← hcalled]
      exact hfollows
    have horder := (follows_concat.mp (follows_noted.mp hnoted).1).2
    rw [if_neg (h.not_disconnected hcalled).1] at horder
    exact horder.1

/-- A step that keeps the callbacks in order. -/
theorem follows_of_told {cfg : Config} {s s' : State R} {a : Action R} (h : Inv s)
    (hfollows : ∀ x, Follows (s.callbacks x)) (htold : Told s a)
    (hstep : step cfg s a = some s') : ∀ x, Follows (s'.callbacks x) := by
  rcases step_cases hstep with ⟨t, w, garbage, rfl, -, rfl⟩ | ⟨t, session, rfl, ht, rfl⟩ |
    ⟨a', p', rfl, -, -, rfl⟩
  · exact hfollows
  · refine follows_noted.mpr ⟨follows_concat.mpr ⟨hfollows session, ?_⟩, fun x _ => hfollows x⟩
    exact (h.untold t session ht).2
  · show ∀ x, Follows (noted s.callbacks (called s.processor a') x)
    cases hcalled : called s.processor a' with
    | none => exact hfollows
    | some call =>
        rcases call with ⟨session, c⟩
        rcases h.not_disconnected hcalled with ⟨hne, hnot⟩
        refine follows_noted.mpr
          ⟨follows_concat.mpr ⟨hfollows session, ?_⟩, fun x _ => hfollows x⟩
        rw [if_neg hne]
        exact ⟨htold session c hcalled, hnot⟩

/-- The callbacks of every session come in order, {lit}`on_connect` first and
{lit}`on_disconnect` last, exactly if no worker makes one to a session whose
{lit}`on_connect` is still to come. -/
theorem callbacks_follow_iff (cfg : Config) (garbage : Buf UInt8 R.val)
    (records : Nat → Fin 101 → Obj) (acts : List (Action R)) :
    Always (step cfg) (fun s => ∀ session, Follows (s.callbacks session))
        (start garbage records) acts ↔
      EachStep (step cfg) Told (start garbage records) acts := by
  constructor
  · intro halways
    exact eachStep_of_always (fun _ _ _ => step_inv)
      (fun _ _ _ h hstep hfollows => told_of_follows hstep hfollows h)
      (start_inv garbage records) halways
  · intro htold
    have hkeep : ∀ (s : State R) (a : Action R) (s' : State R),
        (Inv s ∧ ∀ x, Follows (s.callbacks x)) → Told s a → step cfg s a = some s' →
          Inv s' ∧ ∀ x, Follows (s'.callbacks x) :=
      fun _ _ _ h ha hstep => ⟨step_inv h.1 hstep, follows_of_told h.1 h.2 ha hstep⟩
    exact always_of_eachStep hkeep (fun _ h => h.2)
      ⟨start_inv garbage records, fun _ => ⟨.fresh, leadsTo_nil⟩⟩ htold

/-! ## Callbacks on sessions that exist -/

/-- A thread's next step is a callback to the session. -/
def Due (s : State R) (session : Nat) : Prop :=
  (∃ t, s.threads t = some session) ∨ ∃ a c, called s.processor a = some (session, c)

/-- The session that a worker passes to {lit}`factory->release` in its next step. -/
def releases (p : Processor.State R) : Processor.Action R → Option Nat
  | .worker w =>
      match p.procs w with
      | .closing session (.release :: _) => some session
      | _ => none
  | _ => none

/-- No thread is to call {lit}`on_connect` of a session that the step releases. -/
def ReleasesTold (s : State R) : Action R → Prop
  | .processor a => ∀ session, releases s.processor a = some session →
      ∀ t, s.threads t ≠ some session
  | _ => True

/-- A worker's callback is to a session that was not released. -/
theorem Inv.called_not_released {s : State R} (h : Inv s) {a : Processor.Action R}
    {session : Nat} {c : Callback} (hcalled : called s.processor a = some (session, c)) :
    (s.processor.sessions session).released = false := by
  rcases called_cases hcalled with ⟨w, -, ⟨rfl, v, hproc⟩ | ⟨rfl, rest, hproc⟩⟩
  · exact (h.processor.proc_at hproc).2.not_released
  · have hok := h.proc w
    rw [hproc] at hok
    rcases hok with ⟨hnodup, -, honce⟩
    rcases h.processor.proc_at hproc with ⟨-, -, -, -, hcloses⟩
    -- the release is the next step
    rcases List.infix_cons_iff.mp (honce List.mem_cons_self).2 with hfirst | hlater
    · rcases (List.cons_prefix_cons.mp hfirst).2 with ⟨more, rfl⟩
      exact (hcloses.1 rfl).2
    · exact absurd (hlater.subset List.mem_cons_self) (List.nodup_cons.mp hnodup).1

/-- Sessions are released by the step of a close path that says so. -/
theorem released_step {cfg : Config} {p p' : Processor.State R} {a : Processor.Action R}
    (haccept : ∀ w garbage, a ≠ .accept w garbage)
    (hstep : Processor.step cfg p a = some p') (x : Nat) :
    (p'.sessions x).released =
      ((p.sessions x).released || decide (releases p a = some x)) := by
  by_cases hclosing : ∃ w session what rest,
      a = .worker w ∧ p.procs w = .closing session (what :: rest)
  · rcases hclosing with ⟨w, session, what, rest, rfl, hproc⟩
    have hp' : p.closingStep w session what rest = p' := by
      simpa [Processor.step, Processor.State.workerStep, hproc] using hstep
    have hreleases : releases p (.worker w) =
        if what = .release then some session else none := by
      simp only [releases, hproc]
      cases what <;> rfl
    rw [← hp', hreleases, Processor.sessions_closingStep_released]
    by_cases hwhat : what = .release <;> simp [hwhat, eq_comm]
  · have hreleases : releases p a = none := by
      unfold releases
      split
      · rename_i w
        split
        · rename_i session rest hproc
          exact absurd ⟨w, session, _, rest, rfl, hproc⟩ hclosing
        · rfl
      · rfl
    have hrecv : ∀ session (r : Epoll.Receiver R),
        (Function.update p.sessions session { p.sessions session with recv := r } x).released =
          (p.sessions x).released := by
      intro session r
      by_cases hx : x = session
      · subst hx
        rw [Function.update_self]
      · rw [Function.update_of_ne hx]
    rw [hreleases]
    simp only [reduceCtorEq, decide_false, Bool.or_false]
    cases Processor.step_cases hstep with
    | accept w garbage => exact absurd rfl (haccept w garbage)
    | received w session chunk r v hready hdata => exact hrecv session r
    | closingEvent w session a path hready hevent => rfl
    | fault w a _ => rfl
    | deliver w session v v' c t hproc hmessage hframe => rfl
    | frame w session fpc r next hproc hframe => exact hrecv session r
    | handed w session v hproc hidle => rfl
    | handing w session v t hproc hhandoff => rfl
    | closed w session hproc => rfl
    | closing w session what rest hproc =>
        exact absurd ⟨w, session, what, rest, rfl, hproc⟩ hclosing
    | app t _ => rfl

/-- No callback is due on a released session. -/
def DueLive (s : State R) : Prop :=
  ∀ session, Due s session → (s.processor.sessions session).released = false

/-- A worker's callbacks are never at fault. -/
theorem Inv.dueLive_iff {s : State R} (h : Inv s) :
    DueLive s ↔ ∀ t session, s.threads t = some session →
      (s.processor.sessions session).released = false := by
  constructor
  · intro hlive t session ht
    exact hlive session (.inl ⟨t, ht⟩)
  · rintro hthreads session (⟨t, ht⟩ | ⟨a, c, hcalled⟩)
    · exact hthreads t session ht
    · exact h.called_not_released hcalled

/-- A step that leaves the sessions of the due callbacks. -/
theorem releasesTold_of_dueLive {cfg : Config} {s s' : State R} {a : Action R}
    (hstep : step cfg s a = some s') (hlive : DueLive s') : ReleasesTold s a := by
  rcases step_cases hstep with ⟨t, w, garbage, rfl, -, rfl⟩ | ⟨t, session, rfl, ht, rfl⟩ |
    ⟨a', p', rfl, haccept, hp', rfl⟩
  · trivial
  · trivial
  · intro session hreleases t ht
    have hnot := hlive session (.inl ⟨t, ht⟩)
    rw [released_step haccept hp' session, hreleases] at hnot
    simp at hnot

/-- A step that releases no session whose {lit}`on_connect` is due. -/
theorem dueLive_of_releasesTold {cfg : Config} {s s' : State R} {a : Action R} (h : Inv s)
    (hlive : DueLive s) (htold : ReleasesTold s a) (hstep : step cfg s a = some s') :
    DueLive s' := by
  have hthreads := h.dueLive_iff.mp hlive
  rw [(step_inv h hstep).dueLive_iff]
  rcases step_cases hstep with ⟨t, w, garbage, rfl, -, rfl⟩ | ⟨t, session, rfl, ht, rfl⟩ |
    ⟨a', p', rfl, haccept, hp', rfl⟩
  · refine (Function.forall_update_iff s.threads fun _ o => ∀ x, o = some x →
      ((s.processor.accept w garbage).sessions x).released = false).mpr ⟨?_, ?_⟩
    · rintro x ⟨⟩
      simp [Processor.State.accept]
    · intro t' _ x ht'
      have hne : x ≠ s.processor.created := (h.untold t' x ht').1.ne
      simpa [Processor.State.accept, Function.update_of_ne hne] using hthreads t' x ht'
  · refine (Function.forall_update_iff s.threads fun _ o => ∀ x, o = some x →
      (s.processor.sessions x).released = false).mpr ⟨?_, fun t' _ => hthreads t'⟩
    intro x hx
    cases hx
  · intro t x ht
    rw [released_step haccept hp' x, hthreads t x ht]
    simpa using fun hreleases => htold x hreleases t ht

/-- No thread is ever about to call a session that was released, exactly if no worker releases
one whose {lit}`on_connect` is still to come. -/
theorem callbacks_live_iff (cfg : Config) (garbage : Buf UInt8 R.val)
    (records : Nat → Fin 101 → Obj) (acts : List (Action R)) :
    Always (step cfg) DueLive (start garbage records) acts ↔
      EachStep (step cfg) ReleasesTold (start garbage records) acts := by
  constructor
  · intro halways
    exact eachStep_of_always (fun _ _ _ => step_inv)
      (fun _ _ _ _ hstep hlive => releasesTold_of_dueLive hstep hlive)
      (start_inv garbage records) halways
  · intro htold
    have hkeep : ∀ (s : State R) (a : Action R) (s' : State R), (Inv s ∧ DueLive s) →
        ReleasesTold s a → step cfg s a = some s' → Inv s' ∧ DueLive s' :=
      fun _ _ _ h ha hstep => ⟨step_inv h.1 hstep, dueLive_of_releasesTold h.1 h.2 ha hstep⟩
    have hinv := start_inv garbage records
    refine always_of_eachStep hkeep (fun _ h => h.2) ⟨hinv, ?_⟩ htold
    exact hinv.dueLive_iff.mpr nofun

/-- The peer closes the connection before {lit}`on_connect`: the worker has released the session
that the listener is about to call. -/
example :
    (run (step ⟨1, false, fun _ => 0⟩)
      (start (.replicate 4 9) fun _ _ => 0 : State four)
      ([.register 0 0 (.replicate 4 9), .processor (.epollIn 0 0 .closed)] ++
        List.replicate 4 (.processor (.worker 0)))).map
      (fun s => (s.threads 0, (s.processor.sessions 0).released, s.callbacks 0)) =
      some (some 0, true, [.onDisconnect]) := by
  decide

end Establishing
end Session
end TinyNet
