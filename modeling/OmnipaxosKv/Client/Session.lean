import Mathlib.Data.List.Basic
import Mathlib.Data.List.Infix
import OmnipaxosKv.Client.Network

/-! # Client sessions

What the shim and the benchmark client have in common: they number their commands from
zero, send them in that order to one server, one `network.send` at a time, and send
nothing before a start signal.
-/

namespace OmnipaxosKv

namespace Client

/-- The messages of a sequence of commands: a command's id is its position. -/
def numbered (commands : List KVCommand) : List ClientMessage := commands.mapIdx .append

theorem numbered_concat (commands : List KVCommand) (c : KVCommand) :
    numbered (commands ++ [c]) = numbered commands ++ [.append commands.length c] := by
  simp [numbered]

/-- The message with id `i` is that of the command at `i`. -/
theorem mem_numbered {commands : List KVCommand} {i : CommandId} {c : KVCommand} :
    .append i c ∈ numbered commands ↔ commands[i]? = some c := by
  rw [numbered, List.mem_iff_getElem?]
  constructor
  · rintro ⟨j, hj⟩
    rw [List.getElem?_mapIdx] at hj
    obtain ⟨c', hc', heq⟩ := Option.map_eq_some_iff.mp hj
    obtain ⟨rfl, rfl⟩ := ClientMessage.append.inj heq
    exact hc'
  · exact fun h => ⟨i, by simp [List.getElem?_mapIdx, h]⟩

theorem nodup_numbered (commands : List KVCommand) : (numbered commands).Nodup := by
  rw [List.nodup_iff_injective_getElem]
  rintro ⟨i, hi⟩ ⟨j, hj⟩ h
  simp only [numbered, List.getElem_mapIdx, ClientMessage.append.injEq] at h
  exact Fin.ext h.1

/-- The state of a client's conversation with its server. -/
structure Session (activeServer : NodeId) (n : Network) (commands : List KVCommand)
    (sending : Option ClientMessage) : Prop where
  aligned : n.Aligned
  sent : ((n.toServer activeServer).writer.accepted ++ sending.toList).Sublist (numbered commands)
  started : commands ≠ [] → ∃ startTime, .startSignal startTime ∈ n.taken

namespace Session

variable {activeServer : NodeId} {n n' : Network} {commands : List KVCommand}
  {sending : Option ClientMessage}

theorem init (servers : List NodeId) : Session activeServer (Network.new servers) [] none where
  aligned := Network.aligned_new servers
  sent := List.Sublist.refl _
  started := fun h => absurd rfl h

theorem connect (h : Session activeServer n commands sending) (servers : List NodeId) :
    Session activeServer (n.connect servers) commands sending where
  aligned := Network.aligned_connect servers n
  sent := h.sent
  started := h.started

/-- The next command is taken and its `network.send` begins. -/
theorem issue (h : Session activeServer n commands none) (c : KVCommand)
    (hstart : ∃ startTime, .startSignal startTime ∈ n.taken) :
    Session activeServer n (commands ++ [c]) (some (.append commands.length c)) where
  aligned := h.aligned
  sent := by
    have hsent := h.sent
    rw [Option.toList_none, List.append_nil] at hsent
    rw [numbered_concat]
    exact hsent.append (List.Sublist.refl _)
  started := fun _ => hstart

/-- `network.send` returns. -/
theorem resolve {msg : ClientMessage} (h : Session activeServer n commands (some msg))
    (hs : n.send activeServer msg = some n') : Session activeServer n' commands none := by
  rcases Network.send_cases h.aligned hs with ⟨_, pipe, hpipe, rfl⟩ | ⟨_, slots, rfl, haligned⟩
  · refine ⟨h.aligned, ?_, h.started⟩
    simpa [Pipe.accepted_send hpipe] using h.sent
  · refine ⟨haligned, ?_, h.started⟩
    have hsub : ((n.toServer activeServer).writer.accepted).Sublist (numbered commands) :=
      (List.sublist_append_left _ _).trans h.sent
    simpa using hsub

/-- Taking a message sends nothing. -/
theorem recv (h : Session activeServer n commands sending) :
    Session activeServer n.recv commands sending where
  aligned := h.aligned
  sent := h.sent
  started := fun hne => by
    obtain ⟨startTime, hmem⟩ := h.started hne
    exact ⟨startTime, List.mem_append_left _ hmem⟩

/-- Changes that touch neither the table, nor what was accepted, nor what was taken. -/
theorem frame (h : Session activeServer n commands sending)
    (hslots : n'.serverConnections = n.serverConnections)
    (hacc : (n'.toServer activeServer).writer.accepted = (n.toServer activeServer).writer.accepted)
    (htaken : n'.taken = n.taken) : Session activeServer n' commands sending where
  aligned := fun i c hc => h.aligned i c (hslots ▸ hc)
  sent := hacc ▸ h.sent
  started := htaken ▸ h.started

/-- What was accepted before a shutdown stays accepted. -/
theorem shutdown (h : Session activeServer n commands sending) :
    Session activeServer n.shutdown commands sending where
  aligned := by
    intro i c hc
    simp only [Network.shutdown, List.getElem?_map] at hc
    obtain ⟨_, _, hnone⟩ := Option.map_eq_some_iff.mp hc
    cases hnone
  sent := by
    have hacc : (n.shutdown.toServer activeServer).writer.accepted =
        (n.toServer activeServer).writer.accepted := by
      simp only [Network.shutdown]
      split <;> rfl
    exact hacc ▸ h.sent
  started := h.started

/-- What a session is sending now was not accepted before. -/
theorem not_accepted_of_sending {msg : ClientMessage}
    (h : Session activeServer n commands (some msg)) :
    msg ∉ (n.toServer activeServer).writer.accepted := by
  intro hmem
  have hnodup := h.sent.nodup (nodup_numbered commands)
  rw [List.nodup_append] at hnodup
  exact hnodup.2.2 msg hmem msg (by simp) rfl

end Session

end Client

end OmnipaxosKv
