import Mathlib.Data.Finmap
import OmnipaxosKv.Lib.Machine

/-! # Messages and commands

The types that servers and clients exchange (`common.rs`, modules `kv` and
`messages`). Ids and counters are natural numbers. The messages of the consensus
library are opaque to this code, so `ClusterMessage` takes their type as a
parameter.
-/

namespace OmnipaxosKv

/-- A `std::collections::HashMap`: finitely many keys, at most one value each,
no order that a program can rely on. -/
abbrev HashMap (K V : Type) := Finmap (fun _ : K => V)

theorem lookup_insert_ite {K V : Type} [DecidableEq K] (m : HashMap K V) (k k' : K) (v : V) :
    (m.insert k v).lookup k' = if k' = k then some v else m.lookup k' := by
  by_cases h : k' = k
  · subst h
    simp
  · rw [Finmap.lookup_insert_of_ne _ h, if_neg h]

theorem lookup_erase_ite {K V : Type} [DecidableEq K] (m : HashMap K V) (k k' : K) :
    (m.erase k).lookup k' = if k' = k then none else m.lookup k' := by
  by_cases h : k' = k
  · subst h
    simp
  · rw [Finmap.lookup_erase_ne h, if_neg h]

abbrev CommandId := ℕ
abbrev ClientId := ℕ
abbrev NodeId := ℕ
abbrev Timestamp := ℤ

inductive KVCommand where
  | put (key value : String)
  | delete (key : String)
  | get (key : String)
deriving DecidableEq, Repr

/-- A log entry: the client's command under the ids that route its answer back. -/
structure Command where
  clientId : ClientId
  coordinatorId : NodeId
  id : CommandId
  kvCmd : KVCommand
deriving DecidableEq, Repr

inductive RegistrationMessage where
  | nodeRegister (nodeId : NodeId)
  | clientRegister
deriving DecidableEq, Repr

inductive ClusterMessage (M : Type) where
  | omniPaxosMessage (m : M)
  | leaderStartSignal (startTime : Timestamp)
deriving DecidableEq, Repr

inductive ClientMessage where
  | append (id : CommandId) (kvCmd : KVCommand)
deriving DecidableEq, Repr

inductive ServerMessage where
  | write (id : CommandId)
  | read (id : CommandId) (value : Option String)
  | startSignal (startTime : Timestamp)
deriving DecidableEq, Repr

namespace ServerMessage

/-- `none` is the `unimplemented!()` panic on a start signal. -/
def commandId : ServerMessage → Option CommandId
  | write id => some id
  | read id _ => some id
  | startSignal _ => none

end ServerMessage

/-! ## The replicated database (`database.rs`) -/

structure Database where
  db : HashMap String String
deriving DecidableEq

namespace Database

def new : Database := ⟨∅⟩

/-- `Database::handle_command`: the new database, and `some` result for a read. -/
def handleCommand (d : Database) : KVCommand → Database × Option (Option String)
  | .put key value => (⟨d.db.insert key value⟩, none)
  | .delete key => (⟨d.db.erase key⟩, none)
  | .get key => (d, some (d.db.lookup key))

/-- The database after a log, starting from `d`. -/
def replayFrom (d : Database) (log : List Command) : Database :=
  log.foldl (fun d c => (d.handleCommand c.kvCmd).1) d

/-- The database after a log, starting from the empty one. -/
def replay (log : List Command) : Database := replayFrom new log

@[simp] theorem replay_nil : replay [] = new := rfl

/-- A log is replayed part by part. -/
@[simp] theorem replayFrom_append (d : Database) (xs ys : List Command) :
    replayFrom d (xs ++ ys) = replayFrom (replayFrom d xs) ys := by
  simp [replayFrom]

theorem replay_append (xs ys : List Command) :
    replay (xs ++ ys) = replayFrom (replay xs) ys :=
  replayFrom_append new xs ys

end Database

end OmnipaxosKv
