import OmnipaxosKv.Cluster.Linearizable
import OmnipaxosKv.Jepsen.Client

/-! # A Jepsen test

Operations of the generators, invoked against the shims of a cluster. The HTTP request of an
operation may arrive at its shim at any time, also after the operation has timed out, and
more than once if the HTTP client sends it again. The requests of operations are the only
ones that the shims get.

Two things are assumed of the HTTP client: a connection is refused only if nothing of the
request has arrived or will arrive, and a status with its body is the answer of the handler
that served the request.
-/

namespace OmnipaxosKv

namespace Jepsen

open Server Client
open Cluster (EndpointId Ticket EntryOf)

/-- An operation in progress or done. -/
structure Invocation where
  op : Op
  endpoint : EndpointId
  /-- what its HTTP request is among the requests of the shim -/
  requests : List RequestId
  /-- the length of the log when it was invoked: no server had decided more -/
  invokedAt : ℕ
  outcome : Option HttpOutcome
  /-- how many entries a server had decided when it was completed -/
  completedAt : ℕ
deriving DecidableEq, Repr

/-- What `invoke!` has returned. -/
def Invocation.completion (o : Invocation) : Option Completion := o.outcome.map o.op.invoke

def Invocation.arrived (r : RequestId) (o : Invocation) : Invocation :=
  { o with requests := o.requests ++ [r] }

def Invocation.completed (outcome : HttpOutcome) (now : ℕ) (o : Invocation) : Invocation :=
  { o with outcome := some outcome, completedAt := now }

structure State (Ω M : Type) where
  cluster : Cluster.State Ω M
  ops : List Invocation

inductive Label where
  | invoke (e : EndpointId) (op : Op)
  /-- the HTTP request of operation `i` arrives -/
  | deliver (i : ℕ) (decided : List Command)
  | complete (i : ℕ) (outcome : HttpOutcome)
  | cluster (l : Cluster.Label)
deriving DecidableEq, Repr

section

variable {Ω M : Type}

/-- The answers that the handler of a request has given. -/
def answers (s : Cluster.State Ω M) (ticket : Ticket) : List Status :=
  s.history.filterMap fun event =>
    match event with
    | .respond ticket' status => if ticket' = ticket then some status else none
    | .invoke _ _ => none

theorem mem_answers {s : Cluster.State Ω M} {ticket : Ticket} {status : Status} :
    status ∈ answers s ticket ↔ .respond ticket status ∈ s.history := by
  rw [answers, List.mem_filterMap]
  constructor
  · intro h
    rcases h with ⟨event, hmem, heq⟩
    cases event with
    | invoke ticket' op => cases heq
    | respond ticket' status' =>
        dsimp only at heq
        split at heq
        · next hticket =>
            rw [← hticket, ← Option.some.inj heq]
            exact hmem
        · cases heq
  · intro h
    exact ⟨_, h, if_pos rfl⟩

/-- The outcomes that the HTTP request can have now. -/
def Invocation.Possible (s : Cluster.State Ω M) (o : Invocation) : HttpOutcome → Prop
  | .response status body => ∃ r ∈ o.requests, ∃ answer ∈ answers s (o.endpoint, r),
      response answer = .response status body
  | .exception .connect => o.requests = []
  | .exception _ => True

instance decidablePossible (s : Cluster.State Ω M) (o : Invocation) :
    ∀ outcome, Decidable (o.Possible s outcome)
  | .response status body =>
      inferInstanceAs (Decidable (∃ r ∈ o.requests, ∃ answer ∈ answers s (o.endpoint, r),
        response answer = .response status body))
  | .exception .connect => inferInstanceAs (Decidable (o.requests = []))
  | .exception .socketTimeout => .isTrue trivial
  | .exception (.other _) => .isTrue trivial

/-- The number of entries of the log that at least one server has decided. -/
def decidedCount (decided : Ω → List Command) (cfg : Cluster.Config) (s : Cluster.State Ω M) : ℕ :=
  (cfg.nodes.map fun n => (decided (s.servers n).omnipaxos).length).max?.getD 0

theorem le_decidedCount {decided : Ω → List Command} {cfg : Cluster.Config}
    (s : Cluster.State Ω M) {n : NodeId} (hn : n ∈ cfg.nodes) :
    (decided (s.servers n).omnipaxos).length ≤ decidedCount decided cfg s :=
  List.le_max?_getD_of_mem (List.mem_map.mpr ⟨n, hn, rfl⟩)

/-- The number of HTTP requests that a shim has got. -/
def requestCount (s : Cluster.State Ω M) (e : EndpointId) : ℕ :=
  match s.endpoints e with
  | .shim sh => sh.requests.length
  | .bench _ => 0

def isHttpRequest : Cluster.Action → Bool
  | .shim _ (.invoke _) => true
  | _ => false

namespace State

/-- The step of the cluster in which the HTTP request of `o` arrives. -/
def arrival (o : Invocation) (decided : List Command) : Cluster.Label :=
  ⟨.shim o.endpoint (.invoke o.op.request), decided⟩

variable (lib : OmniPaxos Ω M) (decided : Ω → List Command) (cfg : Cluster.Config)
  (t : Transport)

def guard : Label → State Ω M → Prop
  | .invoke e op, _ => cfg.kind e = .shim ∧ op.Generated
  -- nothing arrives once the connection was refused
  | .deliver i entries, s => ∃ o ∈ s.ops[i]?, o.outcome ≠ some (.exception .connect) ∧
      (Cluster.agreeing lib decided cfg t).guard (arrival o entries) s.cluster
  -- an operation is completed once
  | .complete i outcome, s => ∃ o ∈ s.ops[i]?, o.outcome = none ∧ o.Possible s.cluster outcome
  -- the shims get their requests from operations only
  | .cluster l, s => isHttpRequest l.action = false ∧
      (Cluster.agreeing lib decided cfg t).guard l s.cluster

def update : Label → State Ω M → State Ω M
  | .invoke e op, s =>
      ⟨s.cluster, s.ops ++ [⟨op, e, [], s.cluster.log.length, none, 0⟩]⟩
  | .deliver i entries, s =>
      match s.ops[i]? with
      | none => s
      | some o =>
          ⟨(Cluster.agreeing lib decided cfg t).update (arrival o entries) s.cluster,
            s.ops.set i (o.arrived (requestCount s.cluster o.endpoint))⟩
  | .complete i outcome, s =>
      match s.ops[i]? with
      | none => s
      | some o =>
          ⟨s.cluster, s.ops.set i (o.completed outcome (decidedCount decided cfg s.cluster))⟩
  | .cluster l, s => ⟨(Cluster.agreeing lib decided cfg t).update l s.cluster, s.ops⟩

end State

/-- The runs of a test, over a library that keeps its promises. -/
def jepsen (lib : OmniPaxos Ω M) (decided : Ω → List Command) (cfg : Cluster.Config)
    (t : Transport) : Machine (State Ω M) Label where
  init := fun s => (Cluster.agreeing lib decided cfg t).init s.cluster ∧ s.ops = []
  guard := State.guard lib decided cfg t
  update := State.update lib decided cfg t

instance decidableJepsen (lib : OmniPaxos Ω M) (decided : Ω → List Command)
    (cfg : Cluster.Config) (t : Transport) :
    ∀ l s, Decidable ((jepsen lib decided cfg t).guard l s)
  | .invoke e op, _ => inferInstanceAs (Decidable (cfg.kind e = .shim ∧ op.Generated))
  | .deliver i entries, s =>
      inferInstanceAs (Decidable (∃ o ∈ s.ops[i]?, o.outcome ≠ some (.exception .connect) ∧
        (Cluster.agreeing lib decided cfg t).guard (State.arrival o entries) s.cluster))
  | .complete i outcome, s =>
      inferInstanceAs (Decidable (∃ o ∈ s.ops[i]?, o.outcome = none ∧
        o.Possible s.cluster outcome))
  | .cluster l, s =>
      inferInstanceAs (Decidable (isHttpRequest l.action = false ∧
        (Cluster.agreeing lib decided cfg t).guard l s.cluster))

variable {lib : OmniPaxos Ω M} {decided : Ω → List Command} {cfg : Cluster.Config} {t : Transport}
  {s : State Ω M}

/-- The request of an operation arrives at its shim. -/
theorem update_deliver {i : ℕ} {o : Invocation} (ho : s.ops[i]? = some o)
    (entries : List Command) :
    (jepsen lib decided cfg t).update (.deliver i entries) s =
      ⟨(Cluster.agreeing lib decided cfg t).update (State.arrival o entries) s.cluster,
        s.ops.set i (o.arrived (requestCount s.cluster o.endpoint))⟩ := by
  change State.update lib decided cfg t (.deliver i entries) s = _
  rw [State.update, ho]

theorem update_complete {i : ℕ} {o : Invocation} (ho : s.ops[i]? = some o)
    (outcome : HttpOutcome) :
    (jepsen lib decided cfg t).update (.complete i outcome) s =
      ⟨s.cluster, s.ops.set i (o.completed outcome (decidedCount decided cfg s.cluster))⟩ := by
  change State.update lib decided cfg t (.complete i outcome) s = _
  rw [State.update, ho]

/-- The cluster of a test is a cluster. -/
theorem cluster_reachable (hr : (jepsen lib decided cfg t).Reachable s) :
    (Cluster.agreeing lib decided cfg t).Reachable s.cluster := by
  induction hr with
  | start hs => exact .start hs.1
  | @step s l _ hg ih =>
      cases l with
      | invoke e op => exact ih
      -- a delivery is one step of the cluster, an invocation or a completion none
      | deliver i entries =>
          rcases hg with ⟨o, ho, _, hguard⟩
          rw [update_deliver ho]
          exact ih.step _ hguard
      | complete i outcome =>
          rcases hg with ⟨o, ho, _⟩
          rw [update_complete ho]
          exact ih
      | cluster l => exact ih.step l hg.2

end

end Jepsen

end OmnipaxosKv
