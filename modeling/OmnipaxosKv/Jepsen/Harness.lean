import OmnipaxosKv.Jepsen.Register
import OmnipaxosKv.Jepsen.Soundness

/-! # A test with its history

The interpreter runs the workload against the cluster. A client worker that takes an operation
makes its HTTP request, at the shim of its node, and is done with the operation when `invoke!`
returns. All else goes on as it does without the other: the loop and the workers that only log
or sleep, and the cluster with the requests that are on their way.

The queues of the interpreter never block, so their bounds are left out. Of the HTTP client one
thing more is assumed: it does not send the request of a write again.
-/

namespace OmnipaxosKv

namespace Jepsen

open Server Client
open Cluster (EndpointId)

/-! ## Operations and requests -/

/-- The read or write that a client is to make. -/
def Operation.kv (o : Operation Payload) : Option Op :=
  match o.process, o.fields with
  | .int _, .kv op _ => some op
  | _, _ => none

def OpType.operationType : OpType → OperationType
  | .ok => .ok
  | .info => .info
  | .fail => .fail

/-- The operation that `invoke!` returns. -/
def Operation.answered (o : Operation Payload) (op : Op) (outcome : HttpOutcome) :
    Operation Payload :=
  { o with
    type := (op.invoke outcome).type.operationType
    fields := .kv (op.invoke outcome).toOp (op.invoke outcome).error }

/-- The node of a client worker. -/
def nodeOf (nodes : List EndpointId) : Name → Option EndpointId
  | .int id => nodes[id % nodes.length]?
  | .keyword _ => none

/-- The operation in the queue of a worker. -/
def Interpreter.told {γ α : Type} (s : Interpreter γ α) (thread : Name) : Option (Operation α) :=
  match (s.workers thread).inbox with
  | some (.op o) => some o
  | _ => none

/-- The worker takes or answers a read or a write. -/
def Interpreter.callsHttp (s : Interpreter (Gen Payload) Payload) : RunStep Payload → Bool
  | .take thread => (s.told thread).any fun o => o.kv.isSome
  | .finish thread _ => (s.workers thread).current.any fun o => o.kv.isSome
  | _ => false

/-! ## The test -/

structure Harness (Ω M : Type) where
  run : Interpreter (Gen Payload) Payload
  test : State Ω M
  /-- the index in the history of the invocation of each operation of `test` -/
  calls : List ℕ

inductive HarnessStep where
  /-- a step without a request or a response -/
  | run (l : RunStep Payload)
  | request (thread : Name)
  /-- operation `i` is done -/
  | respond (thread : Name) (i : ℕ) (outcome : HttpOutcome)
  /-- a step of the cluster, or a request arrives -/
  | test (l : Label)
deriving DecidableEq, Repr

/-- What happens without the workers. A `PUT` arrives once at most. -/
def State.Unprompted {Ω M : Type} (s : State Ω M) : Label → Prop
  | .invoke _ _ => False
  | .complete _ _ => False
  | .deliver i _ => ∀ o ∈ s.ops[i]?, o.op.f = .write → o.requests = []
  | .cluster _ => True

instance {Ω M : Type} (s : State Ω M) : ∀ l, Decidable (s.Unprompted l)
  | .invoke _ _ => .isFalse id
  | .complete _ _ => .isFalse id
  | .deliver i _ =>
      inferInstanceAs (Decidable (∀ o ∈ s.ops[i]?, o.op.f = .write → o.requests = []))
  | .cluster _ => .isTrue trivial

namespace Harness

variable {Ω M : Type} (lib : OmniPaxos Ω M) (decided : Ω → List Command) (cfg : Cluster.Config)
  (t : Transport) (nodes : List EndpointId)

def guard : HarnessStep → Harness Ω M → Prop
  | .run l, s => Interpreter.enabled l s.run ∧ s.run.callsHttp l = false
  | .request thread, s => Interpreter.enabled (.take thread) s.run ∧
      ∃ o ∈ s.run.told thread, ∃ op ∈ o.kv, ∃ e ∈ nodeOf nodes thread,
        (jepsen lib decided cfg t).guard (.invoke e op) s.test
  | .respond thread i outcome, s =>
      ∃ o ∈ (s.run.workers thread).current, ∃ op ∈ o.kv,
        Interpreter.enabled (.finish thread (o.answered op outcome)) s.run ∧
        s.calls[i]? = some o.index.toNat ∧
        (jepsen lib decided cfg t).guard (.complete i outcome) s.test
  | .test l, s => s.test.Unprompted l ∧ (jepsen lib decided cfg t).guard l s.test

def update : HarnessStep → Harness Ω M → Harness Ω M
  | .run l, s => { s with run := Interpreter.update (Gen.generator Payload) l s.run }
  | .request thread, s =>
      match s.run.told thread, (s.run.told thread).bind Operation.kv, nodeOf nodes thread with
      | some o, some op, some e =>
          { run := Interpreter.update (Gen.generator Payload) (.take thread) s.run
            test := (jepsen lib decided cfg t).update (.invoke e op) s.test
            calls := s.calls ++ [o.index.toNat] }
      | _, _, _ => s
  | .respond thread i outcome, s =>
      match (s.run.workers thread).current, ((s.run.workers thread).current).bind Operation.kv with
      | some o, some op =>
          { s with
            run := Interpreter.update (Gen.generator Payload)
              (.finish thread (o.answered op outcome)) s.run
            test := (jepsen lib decided cfg t).update (.complete i outcome) s.test }
      | _, _ => s
  | .test l, s => { s with test := (jepsen lib decided cfg t).update l s.test }

end Harness

/-- The runs of a test with `n` client threads. -/
def harness {Ω M : Type} (lib : OmniPaxos Ω M) (decided : Ω → List Command)
    (cfg : Cluster.Config) (t : Transport) (nodes : List EndpointId) (n : ℕ)
    (gen : Gen Payload) : Machine (Harness Ω M) HarnessStep where
  init := fun s => s.run = .start n gen ∧ (jepsen lib decided cfg t).init s.test ∧ s.calls = []
  guard := Harness.guard lib decided cfg t nodes
  update := Harness.update lib decided cfg t nodes

instance decidableHarness {Ω M : Type} (lib : OmniPaxos Ω M) (decided : Ω → List Command)
    (cfg : Cluster.Config) (t : Transport) (nodes : List EndpointId) (n : ℕ)
    (gen : Gen Payload) : ∀ l s, Decidable ((harness lib decided cfg t nodes n gen).guard l s)
  | .run l, s => inferInstanceAs
      (Decidable (Interpreter.enabled l s.run ∧ s.run.callsHttp l = false))
  | .request thread, s => inferInstanceAs
      (Decidable (Interpreter.enabled (.take thread) s.run ∧
        ∃ o ∈ s.run.told thread, ∃ op ∈ o.kv, ∃ e ∈ nodeOf nodes thread,
          (jepsen lib decided cfg t).guard (.invoke e op) s.test))
  | .respond thread i outcome, s => inferInstanceAs
      (Decidable (∃ o ∈ (s.run.workers thread).current, ∃ op ∈ o.kv,
        Interpreter.enabled (.finish thread (o.answered op outcome)) s.run ∧
        s.calls[i]? = some o.index.toNat ∧
        (jepsen lib decided cfg t).guard (.complete i outcome) s.test))
  | .test l, s => inferInstanceAs
      (Decidable (s.test.Unprompted l ∧ (jepsen lib decided cfg t).guard l s.test))

/-! ## The two sides -/

section

variable {Ω M : Type} {lib : OmniPaxos Ω M} {decided : Ω → List Command} {cfg : Cluster.Config}
  {t : Transport} {nodes : List EndpointId} {n : ℕ} {gen : Gen Payload} {s : Harness Ω M}

/-- A request: a worker takes its operation, and the test invokes it. -/
theorem update_request {thread : Name} {o : Operation Payload} {op : Op} {e : EndpointId}
    (ho : o ∈ s.run.told thread) (hop : op ∈ o.kv) (he : e ∈ nodeOf nodes thread) :
    (harness lib decided cfg t nodes n gen).update (.request thread) s =
      { run := Interpreter.update (Gen.generator Payload) (.take thread) s.run
        test := (jepsen lib decided cfg t).update (.invoke e op) s.test
        calls := s.calls ++ [o.index.toNat] } := by
  show Harness.update lib decided cfg t nodes (.request thread) s = _
  rw [Option.mem_def] at ho hop he
  simp only [Harness.update, ho, Option.bind_some, hop, he]

/-- An answer: the test completes the operation, and the worker is done with it. -/
theorem update_respond {thread : Name} {i : ℕ} {outcome : HttpOutcome} {o : Operation Payload}
    {op : Op} (ho : o ∈ (s.run.workers thread).current) (hop : op ∈ o.kv) :
    (harness lib decided cfg t nodes n gen).update (.respond thread i outcome) s =
      { s with
        run := Interpreter.update (Gen.generator Payload)
          (.finish thread (o.answered op outcome)) s.run
        test := (jepsen lib decided cfg t).update (.complete i outcome) s.test } := by
  show Harness.update lib decided cfg t nodes (.respond thread i outcome) s = _
  rw [Option.mem_def] at ho hop
  simp only [Harness.update, ho, Option.bind_some, hop]

/-- The run of the interpreter is one, whatever the cluster does. -/
theorem run_reachable (hr : (harness lib decided cfg t nodes n gen).Reachable s) :
    (interpreter (Gen.generator Payload) n gen).Reachable s.run := by
  rw [Interpreter.reachable_iff_unbounded]
  induction hr with
  | start hs => exact .start hs.1
  | @step s l _ hg ih =>
      cases l with
      | run l => exact ih.step l hg.1
      | request thread =>
          rcases hg with ⟨htake, o, ho, op, hop, e, he, _⟩
          rw [update_request ho hop he]
          exact .step (RunStep.take thread) ih htake
      | respond thread i outcome =>
          rcases hg with ⟨o, ho, op, hop, hfinish, _⟩
          rw [update_respond ho hop]
          exact .step (RunStep.finish thread (o.answered op outcome)) ih hfinish
      | test l => exact ih

/-- What the harness does to the cluster is a run of a test. -/
theorem test_reachable (hr : (harness lib decided cfg t nodes n gen).Reachable s) :
    (jepsen lib decided cfg t).Reachable s.test := by
  induction hr with
  | start hs => exact .start hs.2.1
  | @step s l _ hg ih =>
      cases l with
      | run l => exact ih
      | request thread =>
          rcases hg with ⟨_, o, ho, op, hop, e, he, hguard⟩
          rw [update_request ho hop he]
          exact ih.step _ hguard
      | respond thread i outcome =>
          rcases hg with ⟨o, ho, op, hop, _, _, hguard⟩
          rw [update_respond ho hop]
          exact ih.step _ hguard
      | test l => exact ih.step l hg.2

end

end Jepsen

end OmnipaxosKv
