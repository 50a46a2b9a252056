import TinyNet.Library.StepSystem

/-!
# What a session may expect of its callbacks

The callbacks of {lit}`IEventHandler` tell a session what becomes of its connection.  This
file says in which order they make sense: {lit}`on_connect` comes first, then data is received
and sent, and {lit}`on_disconnect` comes last.  The back ends call them from their own threads;
what they keep of this order is shown for each of them.

Main results:

- Theorem {lit}`LeadsTo.shape`: the sequences of callbacks in that order, spelled out.
- Theorem {lit}`follows_concat`: when one more callback keeps the order.
-/

namespace TinyNet
namespace Session

open Library.StepSystem

/-- The callbacks of {lit}`IEventHandler`. -/
inductive Callback where
  | onConnect
  | onRecv
  | onSend
  | onDisconnect
deriving DecidableEq

/-- What a session has been told so far. -/
inductive Phase where
  | fresh
  | connected
  | disconnected
deriving DecidableEq

/-- Where a callback leads, if it may come now. -/
def Phase.next : Phase → Callback → Option Phase
  | .fresh, .onConnect => some .connected
  | .connected, .onRecv => some .connected
  | .connected, .onSend => some .connected
  | .connected, .onDisconnect => some .disconnected
  | _, _ => none

/-- The callbacks lead to a phase. -/
def LeadsTo (calls : List Callback) (p : Phase) : Prop :=
  run Phase.next .fresh calls = some p

/-- The callbacks come in order. -/
def Follows (calls : List Callback) : Prop :=
  ∃ p, LeadsTo calls p

theorem leadsTo_nil : LeadsTo [] .fresh :=
  rfl

/-- One more callback. -/
theorem LeadsTo.concat {calls : List Callback} {p p' : Phase} {c : Callback}
    (h : LeadsTo calls p) (hc : p.next c = some p') : LeadsTo (calls ++ [c]) p' := by
  rw [LeadsTo, run_concat, h]
  exact hc

/-- A call about data. -/
def Callback.IsData (c : Callback) : Prop :=
  c = .onRecv ∨ c = .onSend

/-- The callbacks that lead to a phase, spelled out. -/
def Phase.Shape (calls : List Callback) : Phase → Prop
  | .fresh => calls = []
  | .connected => ∃ data, (∀ c ∈ data, c.IsData) ∧ calls = .onConnect :: data
  | .disconnected =>
      ∃ data, (∀ c ∈ data, c.IsData) ∧ calls = .onConnect :: data ++ [.onDisconnect]

/-- One more call about data. -/
theorem Phase.Shape.concat_data {calls : List Callback} {c : Callback}
    (h : Phase.connected.Shape calls) (hc : c.IsData) :
    Phase.connected.Shape (calls ++ [c]) := by
  rcases h with ⟨data, hdata, rfl⟩
  exact ⟨data ++ [c],
    List.forall_mem_append.mpr ⟨hdata, List.forall_mem_singleton.mpr hc⟩, rfl⟩

/-- Callbacks in order are {lit}`on_connect`, calls about data and {lit}`on_disconnect`, or a
beginning of that. -/
theorem LeadsTo.shape {calls : List Callback} {p : Phase} (h : LeadsTo calls p) :
    p.Shape calls := by
  induction calls using List.reverseRecOn generalizing p with
  | nil =>
      obtain rfl := Option.some.inj h
      rfl
  | append_singleton calls c ih =>
      rw [LeadsTo, run_concat, Option.bind_eq_some_iff] at h
      rcases h with ⟨p₀, hp₀, hnext⟩
      have hshape := ih hp₀
      cases p₀ with
      | fresh =>
          cases c with
          | onConnect =>
              cases hnext
              obtain rfl : calls = [] := hshape
              exact ⟨[], nofun, rfl⟩
          | onRecv => contradiction
          | onSend => contradiction
          | onDisconnect => contradiction
      | connected =>
          cases c with
          | onConnect => contradiction
          | onRecv =>
              cases hnext
              exact hshape.concat_data (.inl rfl)
          | onSend =>
              cases hnext
              exact hshape.concat_data (.inr rfl)
          | onDisconnect =>
              cases hnext
              rcases hshape with ⟨data, hdata, rfl⟩
              exact ⟨data, hdata, rfl⟩
      | disconnected => contradiction

/-- Between {lit}`on_connect` and {lit}`on_disconnect` a session is connected. -/
theorem LeadsTo.connected_iff {calls : List Callback} {p : Phase} (h : LeadsTo calls p) :
    p = .connected ↔ .onConnect ∈ calls ∧ .onDisconnect ∉ calls := by
  have hdisconnect : ∀ {data : List Callback}, (∀ c ∈ data, c.IsData) →
      .onDisconnect ∉ data := by
    intro data hdata hmem
    rcases hdata _ hmem with hd | hd <;> cases hd
  have hshape := h.shape
  cases p with
  | fresh =>
      obtain rfl : calls = [] := hshape
      simp
  | connected =>
      rcases hshape with ⟨data, hdata, rfl⟩
      simpa using hdisconnect hdata
  | disconnected =>
      rcases hshape with ⟨data, hdata, rfl⟩
      simp

/-- A session that was not told of its connection was told nothing. -/
theorem LeadsTo.fresh_iff {calls : List Callback} {p : Phase} (h : LeadsTo calls p) :
    p = .fresh ↔ .onConnect ∉ calls := by
  have hshape := h.shape
  cases p with
  | fresh =>
      obtain rfl : calls = [] := hshape
      simp
  | connected =>
      rcases hshape with ⟨data, -, rfl⟩
      simp
  | disconnected =>
      rcases hshape with ⟨data, -, rfl⟩
      simp

/-- One more callback keeps the order if it is the first {lit}`on_connect`, or another one
while the session is connected. -/
theorem follows_concat {calls : List Callback} {c : Callback} :
    Follows (calls ++ [c]) ↔ Follows calls ∧
      if c = .onConnect then .onConnect ∉ calls
      else .onConnect ∈ calls ∧ .onDisconnect ∉ calls := by
  have hnext : ∀ {p}, LeadsTo calls p →
      ((∃ p', p.next c = some p') ↔
        if c = .onConnect then .onConnect ∉ calls
        else .onConnect ∈ calls ∧ .onDisconnect ∉ calls) := by
    intro p hp
    rw [← hp.fresh_iff, ← hp.connected_iff]
    cases p <;> cases c <;> simp [Phase.next]
  constructor
  · rintro ⟨p', hp'⟩
    rw [LeadsTo, run_concat, Option.bind_eq_some_iff] at hp'
    rcases hp' with ⟨p, hp, hc⟩
    exact ⟨⟨p, hp⟩, (hnext hp).mp ⟨p', hc⟩⟩
  · rintro ⟨⟨p, hp⟩, hc⟩
    rcases (hnext hp).mpr hc with ⟨p', hp'⟩
    exact ⟨p', hp.concat hp'⟩

end Session
end TinyNet
