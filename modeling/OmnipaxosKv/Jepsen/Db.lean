import OmnipaxosKv.Lib.Dict
import OmnipaxosKv.Jepsen.Calls

/-! # The database of the test (`jepsen/omnipaxos/db.clj`)

`setup!` uploads the two binaries and the three configuration files of a node, starts the server
and the api-shim and waits until the shim answers; `teardown!` kills both and removes the
directory. Of a machine the model has the files that were uploaded, and whether the shim has
answered since a daemon was last started or killed.

A command that fails to kill a daemon is not noticed, and nor is one that starts a daemon and
exits with status 1.
-/

namespace OmnipaxosKv

namespace Jepsen

namespace Lifecycle

open Script

/-! ## Configuration files -/

def dir : String := "/opt/omnipaxos"

def serverBin : String := dir ++ "/server"

def shimBin : String := dir ++ "/api-shim"

def clusterFile : String := dir ++ "/cluster.toml"

def serverFile : String := dir ++ "/server.toml"

def shimFile : String := dir ++ "/shim.toml"

/-- `node->id`: the first digits of the name, of which there may be none or too many. -/
def nodeId (node : Node) : Except Throwable ℕ :=
  let digits := (node.toList.dropWhile fun c => !c.isDigit).takeWhile Char.isDigit
  let id := digits.foldl (fun n c => 10 * n + (c.toNat - '0'.toNat)) 0
  if digits = [] ∨ 2 ^ 31 ≤ id then .error .illegalArgument else .ok id

def clusterToml (nodes : List Node) : Except Throwable String := do
  let ids ← nodes.mapM nodeId
  let addrs := nodes.map fun n => "\"" ++ n ++ ":8000\""
  return "\n".intercalate
    ["cluster_name = \"jepsen\"",
      "nodes = [" ++ ", ".intercalate (ids.map toString) ++ "]",
      "node_addrs = [" ++ ", ".intercalate addrs ++ "]",
      "initial_leader = 1",
      "[initial_flexible_quorum]",
      "read_quorum_size = 2",
      "write_quorum_size = 2",
      ""]

def serverToml (node : Node) : Except Throwable String := do
  let id ← nodeId node
  return "\n".intercalate
    ["location = \"" ++ node ++ "\"",
      "server_id = " ++ toString id,
      "listen_address = \"0.0.0.0\"",
      "listen_port = 8000",
      "num_clients = 1",
      "output_filepath = \"" ++ dir ++ "/server-" ++ toString id ++ ".json\"",
      ""]

def shimToml (node : Node) : Except Throwable String := do
  let id ← nodeId node
  return "\n".intercalate
    ["location = \"" ++ node ++ "\"",
      "server_id = " ++ toString id,
      "server_address = \"127.0.0.1:8000\"",
      "summary_filepath = \"" ++ dir ++ "/shim-" ++ toString id ++ "-summary.json\"",
      "output_filepath = \"" ++ dir ++ "/shim-" ++ toString id ++ ".csv\"",
      "[[requests]]",
      "duration_sec = 86400",
      "requests_per_sec = 1",
      "read_ratio = 0.5",
      ""]

/-! ## Machines -/

inductive Content where
  | binary (localPath : String)
  | text (content : String)
deriving DecidableEq, Repr

structure Host where
  files : Dict String Content
  /-- the shim has answered since a daemon was started or killed -/
  answered : Bool

def Host.upload (path : String) (content : Content) (h : Host) : Host :=
  { h with files := h.files.set path content }

/-- A daemon has been started or killed. -/
def Host.disturb (h : Host) : Host := { h with answered := false }

def Host.removeDir (h : Host) : Host := { h with files := Dict.empty }

abbrev Command : Type := Script (Remote Host) Throwable Unit

/-- Returns, rather than throws, exceptions. -/
def meh (x : Command) : Command := do
  let outcome ← attempt x
  match outcome with
  | .error .error => throw .error
  | _ => pure ()

/-- `Thread/sleep`, which may be interrupted. -/
def sleep : Command := exec id

/-- The command line is written to the log of the daemon first. -/
def startDaemon : Command := do
  exec id
  let outcome ← attempt (exec Host.disturb)
  match outcome with
  | .error (.nonzeroExit 1) => pure ()
  | _ => deliver outcome

/-- A `timeout` here is the one of `stop-daemon!`; it waits in a thread of its own, so that an
interrupt is none of the exceptions that are returned. -/
def stopDaemon : Command := do
  let outcome ← attempt (exec Host.disturb)
  match outcome with
  | .error .timeout => throw .runtime
  | .error .interrupted => throw .interrupted
  | _ => meh (deliver outcome)
  -- the pidfile
  meh (exec id)

/-- `await-shim!`, with the tries that are left. -/
def awaitShim : ℕ → Command
  | 0 => throw .runtime
  | tries + 1 => do
      let outcome ← attempt (exec id)
      match outcome with
      | .ok _ => modify fun r => { r with machine := { r.machine with answered := true } }
      | .error .error => throw .error
      | .error _ => do
          sleep
          awaitShim tries

def omnipaxosSetup (localServerBin localShimBin : String) (nodes : List Node) (node : Node) :
    Command := do
  -- `mkdir -p`
  exec id
  exec (Host.upload serverBin (.binary localServerBin))
  exec (Host.upload shimBin (.binary localShimBin))
  -- `chmod +x`
  exec id
  let cluster ← deliver (clusterToml nodes)
  exec (Host.upload clusterFile (.text cluster))
  let server ← deliver (serverToml node)
  exec (Host.upload serverFile (.text server))
  let shim ← deliver (shimToml node)
  exec (Host.upload shimFile (.text shim))
  startDaemon
  -- the other servers come up
  sleep
  startDaemon
  awaitShim 30

def omnipaxosTeardown (_ : Node) : Command := do
  stopDaemon
  stopDaemon
  exec Host.removeDir

/-- A log file is downloaded where it exists, unless it is being written. -/
def download : Command := do
  let found ← attempt (exec id)
  match found with
  | .ok _ => do
      let outcome ← attempt (exec id)
      match outcome with
      | .error .pipeClosed | .error .illegalArgument => pure ()
      | _ => deliver outcome
  | .error e => if e.isRuntime then pure () else throw e

def omnipaxosDb (localServerBin localShimBin : String) (nodes : List Node) : DB Host where
  setup := omnipaxosSetup localServerBin localShimBin nodes
  teardown := omnipaxosTeardown
  setupPrimary := none
  kill := none
  logFiles := some fun _ => do
    -- the server's, and the shim's
    download
    download

/-! ## What it does to the machines -/

/-- What is on a machine that is set up. -/
structure Deployed (localServerBin localShimBin : String) (nodes : List Node) (node : Node)
    (h : Host) : Prop where
  files : ∃ cluster server shim, clusterToml nodes = .ok cluster ∧ serverToml node = .ok server ∧
    shimToml node = .ok shim ∧
    h.files.entries = [(serverBin, .binary localServerBin), (shimBin, .binary localShimBin),
      (clusterFile, .text cluster), (serverFile, .text server), (shimFile, .text shim)]
  answered : h.answered = true

section

variable {P Q : Host → Prop} {α : Type}

/-- The machine before, and after the script returned. -/
def Does (P : Host → Prop) (x : Script (Remote Host) Throwable α) (Q : Host → Prop) : Prop :=
  Triple (fun r => P r.machine) x (fun _ r => Q r.machine) fun _ _ => True

/-- What holds of the machine also where something was thrown. -/
def Keeps (P : Host → Prop) (x : Script (Remote Host) Throwable α) : Prop :=
  Triple (fun r => P r.machine) x (fun _ r => P r.machine) fun _ r => P r.machine

/-- A command meets the next fate. -/
theorem eval_exec (command : Host → Host) (r : Remote Host) : (exec command).eval r =
    ((r.fates 0).outcome, ⟨fun i => r.fates (i + 1), (r.fates 0).apply command r.machine⟩) := by
  rw [exec, eval_bind, eval_get]
  dsimp only
  rw [eval_bind, eval_set]
  dsimp only
  rw [eval_deliver]

/-- A command that returns was carried out. -/
theorem does_exec {command : Host → Host} (h : ∀ m, P m → Q (command m)) :
    Does P (exec command) Q := by
  intro r hr
  rw [eval_exec]
  cases r.fates 0 with
  | done => exact h r.machine hr
  | thrown carriedOut e => trivial

/-- One that throws was carried out, or it was not. -/
theorem keeps_exec {command : Host → Host} (h : ∀ m, P m → P (command m)) :
    Keeps P (exec command) := by
  intro r hr
  rw [eval_exec]
  cases r.fates 0 with
  | done => exact h r.machine hr
  | thrown carriedOut e =>
      cases carriedOut with
      | false => exact hr
      | true => exact h r.machine hr

theorem Keeps.does {x : Script (Remote Host) Throwable α} (h : Keeps P x) : Does P x P :=
  Triple.weaken h (fun _ hr => hr) (fun _ _ hr => hr) fun _ _ _ => trivial

/-- What is kept holds also where the exception is caught. -/
theorem Keeps.attempt {x : Script (Remote Host) Throwable α} (h : Keeps P x) :
    Keeps P (attempt x) := by
  refine (Triple.attempt h).weaken (fun _ hr => hr) ?_ fun _ _ hr => hr
  intro outcome r hr
  cases outcome with
  | ok a => exact hr
  | error e => exact hr

theorem Does.bind {R : Host → Prop} {β : Type} {x : Script (Remote Host) Throwable α}
    {f : α → Script (Remote Host) Throwable β} (hx : Does P x Q) (hf : ∀ a, Does Q (f a) R) :
    Does P (x >>= f) R :=
  Triple.bind hx hf

theorem keeps_deliver (outcome : Except Throwable α) : Keeps P (deliver outcome) := by
  refine triple_deliver outcome fun r hr => ?_
  cases outcome with
  | ok a => exact hr
  | error e => exact hr

theorem keeps_sleep : Keeps P sleep :=
  keeps_exec fun _ hm => hm

theorem keeps_startDaemon (h : ∀ m, P m → P m.disturb) : Does P startDaemon P := by
  refine (keeps_exec fun _ hm => hm).does.bind fun _ => ?_
  refine (keeps_exec h).attempt.does.bind fun outcome => ?_
  split
  · exact triple_pure () fun _ hr => hr
  · exact (keeps_deliver outcome).does

/-- The loop returns only with an answer of the shim. -/
theorem does_awaitShim (h : ∀ m, P m → Q { m with answered := true }) (tries : ℕ) :
    Does P (awaitShim tries) Q := by
  induction tries with
  | zero => exact triple_throw Throwable.runtime fun _ _ => trivial
  | succ tries ih =>
      refine (keeps_exec (P := P) fun _ hm => hm).attempt.does.bind fun outcome => ?_
      split
      · exact triple_modify _ fun r hr => h r.machine hr
      · exact triple_throw Throwable.error fun _ _ => trivial
      · exact keeps_sleep.does.bind fun _ => ih

/-- The files are these, in the order in which they were uploaded. -/
def Host.Has (entries : List (String × Content)) (h : Host) : Prop := h.files.entries = entries

/-- A file that is not there yet is added behind the others. -/
theorem does_upload {entries : List (String × Content)} {path : String} {content : Content}
    (paths : List String) (hpaths : entries.map Prod.fst = paths) (h : path ∉ paths) :
    Does (Host.Has entries) (exec (Host.upload path content))
      (Host.Has (entries ++ [(path, content)])) := by
  refine does_exec fun m hm => ?_
  have hpath : path ∉ m.files.keys := by
    rw [Dict.keys, hm, hpaths]
    exact h
  exact (Dict.entries_set_of_not_mem hpath content).trans (congrArg (· ++ [(path, content)]) hm)

/-- A value that is computed first, if it can be computed. -/
theorem Does.deliver_bind {x : Except Throwable α} {β : Type}
    {f : α → Script (Remote Host) Throwable β} (h : ∀ a, x = .ok a → Does P (f a) Q) :
    Does P (deliver x >>= f) Q := by
  cases x with
  | ok a =>
      refine Triple.bind (Q := fun b r => b = a ∧ P r.machine) ?_ fun b => ?_
      · exact triple_deliver _ fun _ hr => ⟨rfl, hr⟩
      · rintro r ⟨rfl, hr⟩
        exact h b rfl r hr
  | error e =>
      refine Triple.bind (Q := fun _ _ => False) ?_ fun _ => ?_
      · exact triple_deliver _ fun _ _ => trivial
      · intro r hr
        exact hr.elim

end

variable {localServerBin localShimBin : String} {nodes : List Node}

/-- On an empty machine a set-up that returns leaves the files and an answering shim. -/
theorem does_omnipaxosSetup (node : Node) :
    Does (Host.Has []) (omnipaxosSetup localServerBin localShimBin nodes node)
      (Deployed localServerBin localShimBin nodes node) := by
  have hid : ∀ entries, Does (Host.Has entries) (exec id) (Host.Has entries) :=
    fun _ => does_exec fun _ hm => hm
  rw [omnipaxosSetup]
  refine (hid []).bind fun _ => ?_
  refine (does_upload [] rfl List.not_mem_nil).bind fun _ => ?_
  refine (does_upload [serverBin] rfl (by decide)).bind fun _ => ?_
  refine (hid _).bind fun _ => ?_
  refine Does.deliver_bind fun cluster hcluster => ?_
  refine (does_upload [serverBin, shimBin] rfl (by decide)).bind fun _ => ?_
  refine Does.deliver_bind fun server hserver => ?_
  refine (does_upload [serverBin, shimBin, clusterFile] rfl (by decide)).bind fun _ => ?_
  refine Does.deliver_bind fun shim hshim => ?_
  refine (does_upload [serverBin, shimBin, clusterFile, serverFile] rfl (by decide)).bind
    fun _ => ?_
  refine (keeps_startDaemon fun _ hm => hm).bind fun _ => ?_
  refine keeps_sleep.does.bind fun _ => ?_
  refine (keeps_startDaemon fun _ hm => hm).bind fun _ => ?_
  refine does_awaitShim (fun m hm => ?_) 30
  exact ⟨⟨cluster, server, shim, hcluster, hserver, hshim, hm⟩, rfl⟩

/-- The database keeps its contract: a teardown empties the machine, a set-up fills it. -/
theorem omnipaxosDb_meets :
    (omnipaxosDb localServerBin localShimBin nodes).Meets (fun _ => Host.Has [])
      (Deployed localServerBin localShimBin nodes) where
  teardown := by
    intro n
    have hrm : Does (fun _ => True) (exec Host.removeDir) (Host.Has []) :=
      does_exec fun _ _ => rfl
    refine Triple.bind (Q := fun _ _ => True) (triple_true _) fun _ => ?_
    exact Triple.bind (Q := fun _ _ => True) (triple_true _) fun _ => hrm
  setup := does_omnipaxosSetup
  setupPrimary := fun _ habsurd => by cases habsurd

/-- A node with a configuration of its server has an id. -/
theorem nodeId_of_serverToml {node : Node} {server : String} (h : serverToml node = .ok server) :
    ∃ id, nodeId node = .ok id := by
  cases hid : nodeId node with
  | ok id => exact ⟨id, rfl⟩
  | error e =>
      rw [serverToml, hid] at h
      cases h

end Lifecycle

end Jepsen

end OmnipaxosKv
