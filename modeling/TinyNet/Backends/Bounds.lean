import TinyNet.Backends.FramingLoop

/-!
# When the kqueue and IOCP loops stay inside the receive buffer

The byte behind a packet is a byte of {lit}`recvBuf` unless the packet ends where the
buffer ends.  So, for a {lit}`read_packet` that claims no more than the bytes at hand,
these loops stay inside the buffer and do what the epoll loop does exactly as long as
{lit}`RecvBufSize` is never itself a packet boundary of the bytes received.

Main results:

- Theorem {lit}`recvEvent_eq_epoll`: an event after which the buffer does not end with
  a packet is handled as on epoll.
- Theorem {lit}`recvEvent_not_done`: any other event overruns the buffer.
- Theorem {lit}`likeEpoll_iff_neverFilled`: a sequence of events is handled as on epoll
  exactly if no event fills the buffer up to its end with complete packets.
-/

namespace TinyNet
namespace Backends

open Library.FixedBuffer
open Library.MachineInt
open Library.StreamFraming
open Epoll (Receiver ReadPacket Call LoopVars LoopInv cutOf RecvResult ValidSplit)

variable {R : BufferSize} {b : Backend} {f : ReadPacket} {s : Receiver R} {v : LoopVars}

/-- All events are handled inside the buffer, with the same calls and the same state of
the session as on epoll.  A loop that ends has at most as many iterations as the buffer
has bytes. -/
def LikeEpoll (b : Backend) (f : ReadPacket) (s : Receiver R) (chunks : List (List UInt8)) :
    Prop :=
  ∃ s' calls, recvAll b f R.val s chunks = some (s', calls) ∧
    Epoll.recvAll f R.val s chunks = some (s', calls)

/-- The condition on the bytes received, given those left over: the end of the buffer is
never a packet boundary. -/
def NeverFilled (R : BufferSize) (f : ReadPacket) : List UInt8 → List (List UInt8) → Prop
  | _, [] => True
  | left, chunk :: chunks =>
      ¬Boundary (cutOf f) (left ++ chunk) R.val ∧
        NeverFilled R f (greedy (cutOf f) (left ++ chunk)).2 chunks

/-! ## The loop of one event -/

/-- As long as the end of the buffer is no packet boundary, the loop is the epoll loop. -/
theorem loop_eq_epoll (hf : ∀ d, (f d).toInt ≤ d.length)
    (hend : ¬Boundary (cutOf f) s.contents R.val) (h : LoopInv f s v)
    (hp : Boundary (cutOf f) s.contents v.readPos.toNat) (fuel : Nat) :
    loop b f fuel (.running s v) = (Epoll.loop f fuel (.running s v)).map .ofEpoll := by
  induction fuel generalizing v with
  | zero =>
      rw [loop, Epoll.loop]
      split <;> rfl
  | succ k ih =>
      by_cases hpos : 0 < v.pkgLen
      · have hle := h.pos_le
        have hfits := h.packet_le hf
        have hnext := h.boundary_next hpos hfits hp
        have hroom : v.readPos + v.pkgLen < R.val := by
          by_contra hfull
          have hall : (v.readPos + v.pkgLen).toNat = R.val := by omega
          rw [hall] at hnext
          exact hend hnext
        rw [loop, if_pos hpos, Epoll.loop, if_pos hpos, loopBody_eq_epoll h hpos hfits hroom]
        rcases h.loopBody_advance hpos hfits with
          ⟨v', hbody, hread, -, hinv⟩ | ⟨-, ended, calls, hbody⟩
        · rw [← hread] at hnext
          rw [hbody]
          exact ih hinv hnext
        · rw [hbody]
          cases k <;> rfl
      · rw [loop, if_neg hpos, Epoll.loop, if_neg hpos]
        rfl

/-- If the end of the buffer is a packet boundary, the loop comes to the packet before it
and overruns the buffer. -/
theorem loop_overruns (hpos : 1 ≤ s.recvBufPos) (hle : s.recvBufPos ≤ R.val)
    (hend : Boundary (cutOf f) s.contents R.val) :
    ∃ k v, loop b f k (.running s (.enter f s)) = some (.overrun v) := by
  have hone := R.one_le
  generalize hfull : R.val = stop at hend
  cases hend with
  | start => omega
  | @next p hp hfound hcomplete =>
      rcases reaches_boundary (b := b) hpos hle hp (by omega) hfound with
        ⟨k, v, hloop, hread, hpkg, hinv⟩
      have hcut := hinv.cutOf_eq
      have hlen := hinv.length_contents
      rw [hread, Int.toNat_natCast] at hcut
      have hguard : fits b s v = true := fits_of_le hinv hpkg (by omega)
      refine ⟨k + 1, v, ?_⟩
      rw [loop_succ, hloop, Option.bind_some, loop, if_pos hpkg,
        loopBody_overrun hguard (by omega)]
      rfl

/-- A loop that has come to a standstill stays there. -/
theorem loop_of_stopped {k m : Nat} {flow stopped : Flow R}
    (h : loop b f k flow = some stopped) (hstop : loop b f 1 stopped = some stopped)
    (hle : k ≤ m) : loop b f m flow = some stopped := by
  induction m, hle using Nat.le_induction with
  | base => exact h
  | succ m _ ih => rw [loop_succ, ih, Option.bind_some, hstop]

/-! ## One event -/

/-- The loop variables at the head of the loop before the first delivery. -/
theorem eq_enter (h : LoopInv f s v) (hread : v.readPos = 0) (hcalls : v.calls = []) :
    v = .enter f s := by
  have hlen := h.pkgLen_eq
  rw [hread] at hlen
  cases v
  simp_all [LoopVars.enter, Receiver.contents]

/-- An event after which the end of the buffer is no packet boundary is handled as on
epoll. -/
theorem recvEvent_eq_epoll (hf : ∀ d, (f d).toInt ≤ d.length) (hs : s.InRange)
    {chunk : List UInt8} (hrecv : RecvResult s chunk)
    (hend : ¬Boundary (cutOf f) (s.contents ++ chunk) R.val) (fuel : Nat) :
    recvEvent b f fuel s chunk = (Epoll.recvEvent f fuel s chunk).map .ofEpoll := by
  rcases Epoll.recvData_spec f hs hrecv.ne_nil hrecv.2 with
    ⟨s₀, v, hdata, -, hcontents, hread, -, hinv⟩
  rw [← hcontents] at hend
  have hstart : Boundary (cutOf f) s₀.contents v.readPos.toNat := by
    rw [hread]
    exact .start
  rw [recvEvent, Epoll.recvEvent, hdata]
  exact loop_eq_epoll hf hend hinv hstart fuel

/-- An event after which the end of the buffer is a packet boundary is never done. -/
theorem recvEvent_not_done (hs : s.InRange) {chunk : List UInt8}
    (hrecv : RecvResult s chunk) (hend : Boundary (cutOf f) (s.contents ++ chunk) R.val)
    (fuel : Nat) (s' : Receiver R) (calls : List Call) :
    recvEvent b f fuel s chunk ≠ some (.done s' calls) := by
  intro hdone
  rcases Epoll.recvData_spec f hs hrecv.ne_nil hrecv.2 with
    ⟨s₀, v, hdata, hpos, hcontents, hread, hcalls, hinv⟩
  have hchunk := hrecv.1
  have hnonneg := hs.1
  rw [← hcontents] at hend
  rcases loop_overruns (b := b) (by omega) hinv.pos_le hend with ⟨k, v', hover⟩
  have hloop : loop b f fuel (.running s₀ (.enter f s₀)) = some (.done s' calls) := by
    rw [← eq_enter hinv hread hcalls]
    rwa [recvEvent, hdata] at hdone
  have hdone' := loop_of_stopped hloop rfl (Nat.le_max_left fuel k)
  rw [loop_of_stopped hover rfl (Nat.le_max_right fuel k)] at hdone'
  cases hdone'

/-! ## A sequence of events -/

/-- A first event that is done as on epoll leaves the rest to be handled. -/
theorem likeEpoll_cons_iff {chunk : List UInt8} {chunks : List (List UInt8)}
    {s₁ : Receiver R} {calls₁ : List Call}
    (hevent : recvEvent b f R.val s chunk = some (.done s₁ calls₁))
    (hepoll : Epoll.recvEvent f R.val s chunk = some (.done s₁ calls₁)) :
    LikeEpoll b f s (chunk :: chunks) ↔ LikeEpoll b f s₁ chunks := by
  unfold LikeEpoll
  rw [recvAll, hevent, Epoll.recvAll, hepoll]
  constructor
  · rintro ⟨s', calls, hall, hall'⟩
    rcases Option.map_eq_some_iff.mp hall with ⟨⟨t, rest⟩, hrest, heq⟩
    rcases Option.map_eq_some_iff.mp hall' with ⟨⟨t', rest'⟩, hrest', heq'⟩
    obtain ⟨rfl, rfl⟩ := Prod.mk.inj heq
    obtain ⟨rfl, hcalls⟩ := Prod.mk.inj heq'
    obtain rfl := List.append_cancel_left hcalls
    exact ⟨_, _, hrest, hrest'⟩
  · rintro ⟨s', calls, hall, hall'⟩
    exact ⟨s', calls₁ ++ calls, by simp [hall], by simp [hall']⟩

/-- From any session state, the events are handled as on epoll exactly if none of them
fills the buffer up to its end with complete packets. -/
theorem likeEpoll_iff (hf : ∀ d, (f d).toInt ≤ d.length) (hs : s.InRange)
    {chunks : List (List UInt8)} (hsplit : ValidSplit f s chunks) :
    LikeEpoll b f s chunks ↔ NeverFilled R f s.contents chunks := by
  induction chunks generalizing s with
  | nil => exact ⟨fun _ => trivial, fun _ => ⟨s, [], rfl, rfl⟩⟩
  | cons chunk chunks ih =>
      rcases hsplit with ⟨hrecv, hnext⟩
      by_cases hend : Boundary (cutOf f) (s.contents ++ chunk) R.val
      · constructor
        · rintro ⟨s', calls, hall, -⟩
          exfalso
          rw [recvAll] at hall
          split at hall
          · rename_i s₁ calls₁ hevent
            exact recvEvent_not_done hs hrecv hend _ _ _ hevent
          · cases hall
        · rintro ⟨hnot, -⟩
          exact absurd hend hnot
      · rcases Epoll.recvEvent_eq_greedy hf hs hrecv le_rfl with
          ⟨s₁, calls₁, hepoll, -, hleft⟩
        have hevent : recvEvent b f R.val s chunk = some (.done s₁ calls₁) := by
          rw [recvEvent_eq_epoll hf hs hrecv hend, hepoll]
          rfl
        have hends : Epoll.EventEnds f s chunk s₁ calls₁ := ⟨_, hepoll⟩
        rw [likeEpoll_cons_iff hevent hepoll,
          ih (hends.conserves hs hrecv).1 (hnext s₁ calls₁ hends), hleft, NeverFilled]
        exact ⟨fun hrest => ⟨hend, hrest⟩, fun hrest => hrest.2⟩

/-- On both back ends a new session handles its events inside the buffer and as on epoll
exactly if no event fills the buffer up to its end with complete packets. -/
theorem likeEpoll_iff_neverFilled (b : Backend) (f : ReadPacket)
    (hf : ∀ d, (f d).toInt ≤ d.length) (garbage : Buf UInt8 R.val)
    (chunks : List (List UInt8)) (hsplit : ValidSplit f (Receiver.create garbage) chunks) :
    LikeEpoll b f (Receiver.create garbage) chunks ↔ NeverFilled R f [] chunks := by
  have hin : (Receiver.create garbage).InRange := by
    simp [Receiver.InRange, Receiver.create]
  have hempty : (Receiver.create garbage).contents = [] := by
    simp [Receiver.contents, Receiver.create]
  rw [likeEpoll_iff hf hin hsplit, hempty]

/-- {lit}`EventHandler::read_packet`, which takes all bytes at hand for a packet. -/
def eventHandlerReadPacket : ReadPacket :=
  fun d => Int32.ofNat d.length

/-- It claims no more than the bytes at hand. -/
theorem eventHandlerReadPacket_le (d : List UInt8) :
    (eventHandlerReadPacket d).toInt ≤ d.length := by
  have hmod := Nat.mod_le d.length Int32.size
  rw [eventHandlerReadPacket, Int32.toInt_ofNat', Int.bmod]
  split <;> omega

/-- A single chunk that fits the buffer is a possible split. -/
theorem validSplit_single {garbage : Buf UInt8 R.val} {chunk : List UInt8}
    (hne : 1 ≤ chunk.length) (hle : chunk.length ≤ R.val) :
    ValidSplit f (Receiver.create garbage) [chunk] := by
  refine ⟨⟨hne, ?_⟩, fun _ _ _ => trivial⟩
  show (chunk.length : Int) ≤ R.val - 0
  omega

theorem likeEpoll_iff_neverFilled_threeBytes :
    LikeEpoll .kqueue eventHandlerReadPacket (Receiver.create (R := four) (.replicate 4 9))
        [[1, 2, 3]] ∧
      NeverFilled four eventHandlerReadPacket [] [[1, 2, 3]] := by
  have hlike : LikeEpoll .kqueue eventHandlerReadPacket
      (Receiver.create (R := four) (.replicate 4 9)) [[1, 2, 3]] :=
    ⟨⟨⟨[1, 2, 3, 9], rfl⟩, 0⟩, [⟨0, 3, [1, 2, 3]⟩], by decide, by decide⟩
  exact ⟨hlike, (likeEpoll_iff_neverFilled (R := four) .kqueue eventHandlerReadPacket
    eventHandlerReadPacket_le (.replicate 4 9) [[1, 2, 3]]
    (validSplit_single (by decide) (by decide))).mp hlike⟩

/-- With the default {lit}`read_packet`, a chunk that fills the buffer makes both workers
touch the byte behind the buffer. -/
theorem full_buffer_overruns :
    (∀ d, (eventHandlerReadPacket d).toInt ≤ d.length) ∧
      ValidSplit eventHandlerReadPacket (Receiver.create (R := four) (.replicate 4 9))
        [[1, 2, 3, 4]] ∧
      ∀ b, recvEvent b eventHandlerReadPacket 1
          (Receiver.create (R := four) (.replicate 4 9)) [1, 2, 3, 4] =
        some (.overrun ⟨0, 4, []⟩) := by
  refine ⟨eventHandlerReadPacket_le, validSplit_single (by decide) (by decide), ?_⟩
  intro b
  cases b <;> decide

end Backends
end TinyNet
