import TinyNet.Epoll.Chunking

/-!
# When the framing loop ends

An iteration of the {lit}`while (pkgLen > 0)` loop that fails the guard delivers
nothing and asks {lit}`read_packet` again about the same bytes.  So the loop ends
exactly if {lit}`read_packet` never claims more than the bytes that are left, at none
of the positions that the loop comes to.

Main results:

- Theorem {lit}`LoopInv.loopBody_advance`: an iteration that delivers goes on behind
  the packet or ends the loop.
- Theorem {lit}`reaches_boundary`: the loop comes to every packet boundary at which
  {lit}`read_packet` finds another packet.
- Theorem {lit}`loop_ends_iff`: the loop ends exactly if at every packet boundary the
  packet is complete.
-/

namespace TinyNet
namespace Epoll

open Library.FixedBuffer
open Library.MachineInt
open Library.StreamFraming

variable {R : BufferSize} {f : ReadPacket} {s : Receiver R} {v : LoopVars}

/-- The loop variables when the head of the loop is reached first. -/
def LoopVars.enter (f : ReadPacket) (s : Receiver R) : LoopVars where
  readPos := 0
  pkgLen := (f s.contents).toInt
  calls := []

/-- The head of the loop, with received bytes in the buffer. -/
def enter (f : ReadPacket) (s : Receiver R) : Flow R :=
  .running s (.enter f s)

/-- The loop invariant holds when the loop is entered with at least one byte. -/
theorem LoopInv.enter (f : ReadPacket) (hpos : 1 ≤ s.recvBufPos)
    (hle : s.recvBufPos ≤ R.val) : LoopInv f s (.enter f s) where
  pos_le := hle
  readPos_lt := by
    show 0 < s.recvBufPos
    omega
  tiles := rfl
  not_entered _ := rfl
  pkgLen_eq := rfl

/-! ## One iteration -/

/-- What the loop has before it is the contents behind {lit}`readPos`. -/
theorem LoopInv.range_eq_drop (h : LoopInv f s v) :
    s.recvBuf.range v.readPos s.recvBufPos = s.contents.drop v.readPos.toNat := by
  have hnonneg := h.readPos_nonneg
  rw [Receiver.contents, Buf.drop_range _ le_rfl, zero_add, Int.toNat_of_nonneg hnonneg]

/-- The packet length at the head of the loop, as a length in the stream. -/
theorem LoopInv.cutOf_eq (h : LoopInv f s v) :
    cutOf f (s.contents.drop v.readPos.toNat) = v.pkgLen.toNat := by
  rw [← h.range_eq_drop, cutOf, ← h.pkgLen_eq]

/-- As many bytes are received as {lit}`recvBufPos` says. -/
theorem LoopInv.length_contents (h : LoopInv f s v) :
    (s.contents.length : Int) = s.recvBufPos := by
  have hnonneg := h.readPos_nonneg
  have hlt := h.readPos_lt
  rw [Receiver.contents, Buf.length_range le_rfl (by omega) h.pos_le]
  omega

/-- An iteration that delivers goes on behind the packet, if there is another one, and
ends the loop otherwise. -/
theorem LoopInv.loopBody_advance (h : LoopInv f s v) (hpos : 0 < v.pkgLen)
    (hfits : v.readPos + v.pkgLen ≤ s.recvBufPos) :
    (∃ v', loopBody f s v = some (.running s v') ∧
      v'.readPos = v.readPos + v.pkgLen ∧ 0 < v'.pkgLen ∧ LoopInv f s v') ∨
    ((v.readPos + v.pkgLen < s.recvBufPos →
        (f (s.recvBuf.range (v.readPos + v.pkgLen) s.recvBufPos)).toInt ≤ 0) ∧
      ∃ ended calls, loopBody f s v = some (.done ended calls)) := by
  have hnonneg := h.readPos_nonneg
  have hle := h.pos_le
  rcases deliver_spec h hpos hfits with ⟨v', hv', hread, -, htiles⟩
  have hbody : loopBody f s v = requery f s v' := by
    rw [loopBody, if_pos ((h.fits_iff hpos).mpr hfits), hv']
    rfl
  rw [hbody, ← hread]
  rcases requery_cases f (v := v') (by omega) (by omega) hle with
    ⟨hlt, hmore, hflow⟩ | ⟨-, hnone, ended, hflow, -⟩ | ⟨hall, hflow⟩
  · left
    exact ⟨_, hflow, rfl, hmore,
      ⟨hle, hlt, htiles, fun hzero => absurd hzero (not_le.mpr hmore), rfl⟩⟩
  · right
    exact ⟨fun _ => hnone, ended, _, hflow⟩
  · right
    exact ⟨fun hlt => absurd hall hlt.ne, _, _, hflow⟩

/-- The position behind a complete packet is a packet boundary. -/
theorem LoopInv.boundary_next (h : LoopInv f s v) (hpos : 0 < v.pkgLen)
    (hfits : v.readPos + v.pkgLen ≤ s.recvBufPos)
    (hp : Boundary (cutOf f) s.contents v.readPos.toNat) :
    Boundary (cutOf f) s.contents (v.readPos + v.pkgLen).toNat := by
  have hnonneg := h.readPos_nonneg
  have hcut := h.cutOf_eq
  have hlen := h.length_contents
  have hnext := hp.next (by omega) (by omega)
  rwa [hcut, ← Int.toNat_add hnonneg hpos.le] at hnext

/-- An iteration goes on behind a complete packet if there seems to be another one. -/
theorem LoopInv.loopBody_next (h : LoopInv f s v) (hpos : 0 < v.pkgLen)
    (hlt : v.readPos + v.pkgLen < s.recvBufPos)
    (hcut : 0 < cutOf f (s.contents.drop (v.readPos + v.pkgLen).toNat)) :
    ∃ v', loopBody f s v = some (.running s v') ∧ v'.readPos = v.readPos + v.pkgLen ∧
      0 < v'.pkgLen ∧ LoopInv f s v' := by
  have hnonneg := h.readPos_nonneg
  rcases h.loopBody_advance hpos hlt.le with hnext | ⟨hnone, -⟩
  · exact hnext
  · exfalso
    have hdrop : s.recvBuf.range (v.readPos + v.pkgLen) s.recvBufPos =
        s.contents.drop (v.readPos + v.pkgLen).toNat := by
      rw [Receiver.contents, Buf.drop_range _ le_rfl, zero_add,
        Int.toNat_of_nonneg (by omega)]
    have hzero := hnone hlt
    rw [hdrop] at hzero
    unfold cutOf at hcut
    omega

/-- The loop is entered if there seems to be a packet at the front. -/
theorem enter_pkgLen_pos (hcut : 0 < cutOf f (s.contents.drop 0)) :
    0 < (LoopVars.enter f s).pkgLen := by
  rw [List.drop_zero, cutOf] at hcut
  show 0 < (f s.contents).toInt
  omega

/-! ## Many iterations -/

/-- A packet that is not complete keeps the loop at its place for ever. -/
theorem LoopInv.loop_spin (h : LoopInv f s v) (hpos : 0 < v.pkgLen)
    (hfits : ¬v.readPos + v.pkgLen ≤ s.recvBufPos) (fuel : Nat) :
    loop f fuel (.running s v) = some (.running s v) := by
  induction fuel with
  | zero => rw [loop, if_pos hpos]
  | succ k ih => rw [loop, if_pos hpos, h.loopBody_spin hpos hfits, Option.bind_some, ih]

/-- The loop comes to every packet boundary at which there seems to be another packet. -/
theorem reaches_boundary (hpos : 1 ≤ s.recvBufPos) (hle : s.recvBufPos ≤ R.val) {p : Nat}
    (hp : Boundary (cutOf f) s.contents p) (hlt : p < s.contents.length)
    (hcut : 0 < cutOf f (s.contents.drop p)) :
    ∃ k v, loop f k (enter f s) = some (.running s v) ∧ v.readPos = p ∧
      0 < v.pkgLen ∧ LoopInv f s v := by
  have henter := LoopInv.enter f hpos hle
  have hlen := henter.length_contents
  induction hp with
  | start =>
      have hpkg := enter_pkgLen_pos hcut
      exact ⟨0, _, by rw [enter, loop, if_pos hpkg], rfl, hpkg, henter⟩
  | @next p _ hfound hcomplete ih =>
      rcases ih (by omega) hfound with ⟨k, v, hloop, hread, hpkg, hinv⟩
      have hnext : p + cutOf f (s.contents.drop p) = (v.readPos + v.pkgLen).toNat := by
        have hcutOf := hinv.cutOf_eq
        rw [hread, Int.toNat_natCast] at hcutOf
        omega
      rw [hnext] at hlt hcut ⊢
      rcases hinv.loopBody_next hpkg (by omega) hcut with ⟨v', hbody, hread', hpkg', hinv'⟩
      refine ⟨k + 1, v', ?_, by omega, hpkg', hinv'⟩
      rw [loop_add, hloop, Option.bind_some, loop, if_pos hpkg, hbody, Option.bind_some,
        loop, if_pos hpkg']

/-- From a packet boundary on the loop ends, if no incomplete packet lies ahead. -/
theorem LoopInv.loop_ends (hcomplete : ∀ p, Boundary (cutOf f) s.contents p →
      p < s.contents.length → p + cutOf f (s.contents.drop p) ≤ s.contents.length)
    (h : LoopInv f s v) (hp : Boundary (cutOf f) s.contents v.readPos.toNat)
    {fuel : Nat} (hfuel : s.recvBufPos - v.readPos ≤ fuel) :
    ∃ s' calls, loop f fuel (.running s v) = some (.done s' calls) := by
  induction fuel generalizing v with
  | zero =>
      have hlt := h.readPos_lt
      omega
  | succ k ih =>
      have hnonneg := h.readPos_nonneg
      have hlt := h.readPos_lt
      have hlen := h.length_contents
      by_cases hpos : 0 < v.pkgLen
      · have hfits : v.readPos + v.pkgLen ≤ s.recvBufPos := by
          have hcut := hcomplete _ hp (by omega)
          rw [h.cutOf_eq] at hcut
          omega
        rw [loop, if_pos hpos]
        rcases h.loopBody_advance hpos hfits with
          ⟨v', hbody, hread, -, hinv⟩ | ⟨-, ended, calls, hbody⟩
        · have hnext := h.boundary_next hpos hfits hp
          rw [← hread] at hnext
          rw [hbody, Option.bind_some]
          exact ih hinv hnext (by omega)
        · rw [hbody, Option.bind_some]
          exact ⟨ended, calls, by cases k <;> rfl⟩
      · exact ⟨s, v.calls, by rw [loop, if_neg hpos]⟩

/-- The framing loop ends exactly if at every packet boundary inside the received bytes
{lit}`read_packet` claims no more than the bytes that are left. -/
theorem loop_ends_iff (f : ReadPacket) (s : Receiver R) (hpos : 1 ≤ s.recvBufPos)
    (hle : s.recvBufPos ≤ R.val) :
    (∃ fuel s' calls, loop f fuel (enter f s) = some (.done s' calls)) ↔
      ∀ p, Boundary (cutOf f) s.contents p → p < s.contents.length →
        p + cutOf f (s.contents.drop p) ≤ s.contents.length := by
  have henter := LoopInv.enter f hpos hle
  have hlen := henter.length_contents
  constructor
  · rintro ⟨fuel, s', calls, hdone⟩ p hp hlt
    by_contra hlong
    rcases reaches_boundary hpos hle hp hlt (by omega) with
      ⟨k, v, hloop, hread, hpkg, hinv⟩
    have hcut := hinv.cutOf_eq
    rw [hread, Int.toNat_natCast] at hcut
    have hmax := loop_of_done hdone (Nat.le_add_left fuel k)
    rw [loop_add, hloop, Option.bind_some, hinv.loop_spin hpkg (by omega)] at hmax
    cases hmax
  · intro hcomplete
    have hfuel : s.recvBufPos - (LoopVars.enter f s).readPos ≤ s.recvBufPos.toNat := by
      show s.recvBufPos - 0 ≤ _
      omega
    rcases henter.loop_ends hcomplete .start hfuel with ⟨s', calls, hdone⟩
    exact ⟨_, s', calls, hdone⟩

/-- A {lit}`read_packet` for packets that start with a byte giving their total length. -/
def headerReadPacket : ReadPacket
  | [] => -1
  | n :: _ => Int32.ofNat n.toNat

/-- Two bytes received, in a buffer of four. -/
def twoReceived (first second : UInt8) : Receiver four where
  recvBuf := ⟨[first, second, 9, 9], rfl⟩
  recvBufPos := 2

theorem loop_ends_iff_twoPackets :
    ∃ fuel s' calls,
      loop headerReadPacket fuel (enter headerReadPacket (twoReceived 1 1)) =
        some (.done s' calls) := by
  refine (loop_ends_iff headerReadPacket (twoReceived 1 1) (by decide) (by decide)).mpr ?_
  intro p _ hlt
  have hp : p < 2 := hlt
  interval_cases p <;> decide

/-- With two bytes of a packet of three received, the loop never ends. -/
theorem incomplete_packet_spins :
    ¬∃ fuel s' calls,
      loop headerReadPacket fuel (enter headerReadPacket (twoReceived 3 7)) =
        some (.done s' calls) := by
  rintro ⟨fuel, s', calls, hdone⟩
  have hinv : LoopInv headerReadPacket (twoReceived 3 7) (.enter _ _) :=
    .enter headerReadPacket (by decide) (by decide)
  rw [enter, hinv.loop_spin (by decide) (by decide) fuel] at hdone
  cases hdone

end Epoll
end TinyNet
