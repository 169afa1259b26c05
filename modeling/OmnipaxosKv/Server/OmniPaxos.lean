import Mathlib.Data.List.Basic
import OmnipaxosKv.Common

/-! # The consensus library

The server calls the `omnipaxos` crate through the operations below; its instance type
`Ω` and message type `M` are opaque. `OmniPaxos.Lawful` states what the server relies
on: the decided log grows, and a decided suffix that is not empty is read as it was decided.
(`Command` names no snapshot type, and the server never trims, snapshots or reconfigures.)
-/

namespace OmnipaxosKv

namespace Server

/-- `omnipaxos::util::LogEntry`; the server tells only `Decided` from the rest. -/
inductive LogEntry where
  | decided (cmd : Command)
  | other
deriving DecidableEq, Repr

/-- The operations of an `OmniPaxosInstance`. `none` is an `Err`. -/
structure OmniPaxos (Ω M : Type) where
  getDecidedIdx : Ω → ℕ
  readDecidedSuffix : Ω → ℕ → Option (List LogEntry)
  handleIncoming : Ω → M → Ω
  append : Ω → Command → Option Ω
  tick : Ω → Ω
  tryBecomeLeader : Ω → Ω
  getCurrentLeader : Ω → Option (NodeId × Bool)
  takeOutgoingMessages : Ω → Ω × List M
  getReceiver : M → NodeId

/-- The library's promises, in terms of the log an instance has decided. -/
structure OmniPaxos.Lawful {Ω M : Type} (lib : OmniPaxos Ω M) (decided : Ω → List Command) :
    Prop where
  getDecidedIdx_eq : ∀ ω, lib.getDecidedIdx ω = (decided ω).length
  readDecidedSuffix_eq : ∀ ω i, i < (decided ω).length →
    lib.readDecidedSuffix ω i = some (((decided ω).drop i).map .decided)
  handleIncoming_grows : ∀ ω m, decided ω <+: decided (lib.handleIncoming ω m)
  append_grows : ∀ ω c ω', lib.append ω c = some ω' → decided ω <+: decided ω'
  tick_grows : ∀ ω, decided ω <+: decided (lib.tick ω)
  tryBecomeLeader_grows : ∀ ω, decided ω <+: decided (lib.tryBecomeLeader ω)
  takeOutgoingMessages_grows : ∀ ω, decided ω <+: decided (lib.takeOutgoingMessages ω).1

/-! ## The smallest library

A single node that is its own leader and decides what it appends or is told at once. -/

def soloLibrary : OmniPaxos (List Command) Command where
  getDecidedIdx := List.length
  readDecidedSuffix := fun log i =>
    if i < log.length then some ((log.drop i).map .decided) else none
  handleIncoming := fun log c => log ++ [c]
  append := fun log c => some (log ++ [c])
  tick := id
  tryBecomeLeader := id
  getCurrentLeader := fun _ => some (1, true)
  takeOutgoingMessages := fun log => (log, [])
  getReceiver := fun _ => 1

/-- The library of a lone server keeps the promises. -/
theorem soloLibrary_lawful : soloLibrary.Lawful id where
  getDecidedIdx_eq := fun _ => rfl
  readDecidedSuffix_eq := fun _ _ h => if_pos h
  handleIncoming_grows := fun _ _ => List.prefix_append _ _
  append_grows := by
    intro ω c ω' h
    obtain rfl := Option.some.inj h
    exact List.prefix_append _ _
  tick_grows := fun _ => List.prefix_refl _
  tryBecomeLeader_grows := fun _ => List.prefix_refl _
  takeOutgoingMessages_grows := fun _ => List.prefix_refl _

/-! ## A library for two nodes

Node 1 decides what it appends and tells node 2, which confirms; node 2 appends nothing. -/

structure Relay where
  self : NodeId
  log : List Command
  outbox : List (NodeId × Option Command)
deriving DecidableEq, Repr

def relayLibrary : OmniPaxos Relay (NodeId × Option Command) where
  getDecidedIdx := fun ω => ω.log.length
  readDecidedSuffix := fun ω i =>
    if i < ω.log.length then some ((ω.log.drop i).map .decided) else none
  handleIncoming := fun ω m =>
    match m.2 with
    | none => ω
    | some c => { ω with log := ω.log ++ [c], outbox := ω.outbox ++ [(1, none)] }
  append := fun ω c =>
    if ω.self = 1 then
      some { ω with log := ω.log ++ [c], outbox := ω.outbox ++ [(2, some c)] }
    else some ω
  tick := id
  tryBecomeLeader := id
  getCurrentLeader := fun _ => some (1, true)
  takeOutgoingMessages := fun ω => ({ ω with outbox := [] }, ω.outbox)
  getReceiver := Prod.fst

/-- The relaying library keeps the promises, too. -/
theorem relayLibrary_lawful : relayLibrary.Lawful Relay.log where
  getDecidedIdx_eq := fun _ => rfl
  readDecidedSuffix_eq := fun _ _ h => if_pos h
  handleIncoming_grows := by
    intro ω m
    unfold relayLibrary
    dsimp only
    split
    · exact List.prefix_refl _
    · exact List.prefix_append _ _
  append_grows := by
    intro ω c ω' h
    unfold relayLibrary at h
    dsimp only at h
    split at h
    · rw [← Option.some.inj h]
      exact List.prefix_append _ _
    · rw [← Option.some.inj h]
  tick_grows := fun _ => List.prefix_refl _
  tryBecomeLeader_grows := fun _ => List.prefix_refl _
  takeOutgoingMessages_grows := fun _ => List.prefix_refl _

end Server

end OmnipaxosKv
