import Mathlib.Data.List.Basic
import Mathlib.Logic.Function.Basic
import OmnipaxosKv.Common
import OmnipaxosKv.Connection.Pipe

/-! # The network of a client (`client/network.rs`)

A slot per server id, and behind each slot the outgoing queue and the tasks of its
connection. `send` waits while the queue is full.
-/

namespace OmnipaxosKv

namespace Client

/-- The batch size both clients pass to `Network::new`. -/
def networkBatchSize : ℕ := 100

abbrev serverTask : Actor := OmnipaxosKv.ServerConnection.writerTask networkBatchSize

structure ServerConnection where
  serverId : NodeId
deriving DecidableEq, Repr

structure Network where
  serverConnections : List (Option ServerConnection)
  serverMessages : List ServerMessage
  toServer : NodeId → Pipe ClientMessage
  /-- history: the messages taken out of `server_messages` -/
  taken : List ServerMessage

namespace Network

/-- The table of `Network::new` before and after `initialize_connections`. -/
def slots (servers : List NodeId) (connected : Bool) : List (Option ServerConnection) :=
  (List.range (servers.foldr max 0 + 1)).map fun id =>
    if connected ∧ id ∈ servers then some ⟨id⟩ else none

def new (servers : List NodeId) : Network where
  serverConnections := slots servers false
  serverMessages := []
  toServer := fun _ => Pipe.new
  taken := []

/-- `initialize_connections` has a connection to every server. -/
def connect (servers : List NodeId) (n : Network) : Network :=
  { n with serverConnections := slots servers true }

/-- `Network::send`. `none`: suspended in the bounded `outgoing_messages.send`. -/
def send (receiver : NodeId) (msg : ClientMessage) (n : Network) : Option Network :=
  match n.serverConnections[receiver]? with
  -- an unknown or unconnected server: an error is logged and the message is lost
  | none => some n
  | some none => some n
  | some (some connection) =>
      match (n.toServer connection.serverId).send msg with
      -- the writer task is gone: the slot is emptied and never filled again
      | none => some { n with serverConnections := n.serverConnections.set receiver none }
      | some pipe =>
          if (n.toServer connection.serverId).writer.HasRoom serverTask then
            some { n with toServer := Function.update n.toServer connection.serverId pipe }
          else none

/-- `server_messages.recv()`. -/
def recv (n : Network) : Network :=
  { n with serverMessages := n.serverMessages.tail, taken := n.taken ++ n.serverMessages.take 1 }

/-- `Network::shutdown`. The reader tasks are aborted too: nothing is received any more. -/
def shutdown (n : Network) : Network :=
  { n with
    serverConnections := n.serverConnections.map fun _ => none
    toServer := fun id =>
      if n.serverConnections.any (· = some ⟨id⟩) then (n.toServer id).close else n.toServer id }

/-- A slot holds the connection it is named after. -/
def Aligned (n : Network) : Prop :=
  ∀ (i : ℕ) (c : ServerConnection), n.serverConnections[i]? = some (some c) → c.serverId = i

/-- The slot of a server is filled and its writer task is alive. -/
def Connected (receiver : NodeId) (n : Network) : Prop :=
  n.serverConnections[receiver]? = some (some ⟨receiver⟩) ∧
    (n.toServer receiver).writer.phase ≠ .ended

instance (receiver : NodeId) (n : Network) : Decidable (n.Connected receiver) :=
  inferInstanceAs (Decidable (_ ∧ _))

/-- The slots of `Network::new` are named after their connections. -/
theorem aligned_slots {servers : List NodeId} {connected : Bool} {i : ℕ} {c : ServerConnection}
    (h : (slots servers connected)[i]? = some (some c)) : c.serverId = i := by
  rw [slots, List.getElem?_map] at h
  obtain ⟨id, hid, hc⟩ := Option.map_eq_some_iff.mp h
  obtain ⟨_, hget⟩ := List.getElem?_eq_some_iff.mp hid
  split at hc
  · obtain rfl : (⟨id⟩ : ServerConnection) = c := by simpa using hc
    simpa using hget.symm
  · cases hc

theorem aligned_new (servers : List NodeId) : (new servers).Aligned := fun _ _ h => aligned_slots h

theorem aligned_connect (servers : List NodeId) (n : Network) : (n.connect servers).Aligned :=
  fun _ _ h => aligned_slots h

section

variable {n n' : Network} {receiver : NodeId} {msg : ClientMessage}

/-- All that a resolved `send` can do: with a live connection the message is accepted,
otherwise it is dropped and the slot is empty afterwards. -/
theorem send_cases (h : n.Aligned) (hs : n.send receiver msg = some n') :
    (n.Connected receiver ∧ ∃ pipe, (n.toServer receiver).send msg = some pipe ∧
      n' = { n with toServer := Function.update n.toServer receiver pipe }) ∨
    (¬ n.Connected receiver ∧ ∃ slots, n' = { n with serverConnections := slots } ∧
      n'.Aligned) := by
  unfold send at hs
  split at hs
  · next hslot =>
      right
      exact ⟨fun hc => by simp [hc.1] at hslot, n.serverConnections,
        (Option.some.inj hs).symm, Option.some.inj hs ▸ h⟩
  · next hslot =>
      right
      exact ⟨fun hc => by simp [hc.1] at hslot, n.serverConnections,
        (Option.some.inj hs).symm, Option.some.inj hs ▸ h⟩
  · next connection hslot =>
      obtain rfl := h receiver connection hslot
      split at hs
      · next hsend =>
          right
          refine ⟨fun hc => hc.2 (Pipe.send_eq_none_iff.mp hsend), _, (Option.some.inj hs).symm, ?_⟩
          rw [← Option.some.inj hs]
          intro i c hc
          rw [List.getElem?_set] at hc
          split at hc
          · split at hc <;> simp at hc
          · exact h i c hc
      · next pipe hsend =>
          split at hs
          · left
            exact ⟨⟨hslot, (Pipe.send_eq_some hsend).2⟩, pipe, hsend, (Option.some.inj hs).symm⟩
          · cases hs

/-- A suspended `send` waits for room in the queue of a live connection. -/
theorem send_eq_none (h : n.Aligned) (hs : n.send receiver msg = none) :
    n.Connected receiver ∧ ¬ (n.toServer receiver).writer.HasRoom serverTask := by
  unfold send at hs
  split at hs
  · cases hs
  · cases hs
  · next connection hslot =>
      obtain rfl := h receiver connection hslot
      split at hs
      · cases hs
      · next pipe hsend =>
          split at hs
          · cases hs
          · next hroom => exact ⟨⟨hslot, (Pipe.send_eq_some hsend).2⟩, hroom⟩

end

end Network

end Client

end OmnipaxosKv
