import Mathlib.Data.List.Sort
import Mathlib.Data.Rat.Defs
import OmnipaxosKv.Lib.Checks
import OmnipaxosKv.Lib.Dict

/-! # Configurations of a benchmark cluster (`benchmarks/omnipaxos_configs.py`)

A `ServerConfig` or `ClientConfig` is frozen and checks itself when it is made, so what it
checked remains true. A `ClusterConfig` is frozen too, but the two dictionaries in it are
not: its check says nothing about what is written into them later.

What only describes the machine of an instance (startup script, metadata) is left out.
-/

namespace OmnipaxosKv

namespace Deployment

open Checks

/-- The exceptions that are raised, a `TypeError` for the keyword it rejects. -/
inductive PyError where
  | valueError (message : String)
  | typeError (keyword : String)
  | keyError (key : ℤ)
deriving DecidableEq, Repr

/-- How Python prints a list of numbers. -/
def listRepr (l : List ℤ) : String := "[" ++ ", ".intercalate (l.map toString) ++ "]"

structure FlexibleQuorum where
  readQuorumSize : ℤ
  writeQuorumSize : ℤ
deriving DecidableEq, Repr

structure RequestInterval where
  durationSec : ℤ
  requestsPerSec : ℤ
  readRatio : ℚ
deriving DecidableEq, Repr

structure InstanceConfig where
  name : String
  zone : String
  machineType : String
  dnsName : Option String
deriving DecidableEq, Repr

def validRustLogLevels : List String := ["error", "debug", "trace", "info", "warn"]

def invalidServerId (serverId : ℤ) : PyError :=
  .valueError s!"Invalid server_id: {serverId}. It must be greater than 0."

def invalidRustLog (rustLog : String) : PyError :=
  .valueError (s!"Invalid rust_log level: {rustLog}. Expected one of " ++
    "['error', 'debug', 'trace', 'info', 'warn'].")

/-! ## Servers -/

structure OmniPaxosKVServerConfig where
  location : String
  serverId : ℤ
  listenAddress : String
  listenPort : ℤ
  numClients : ℤ
  outputFilepath : String
deriving DecidableEq, Repr

/-- Keyword arguments, among them keywords that are no fields. -/
structure ServerKwargs where
  location : Option String := none
  serverId : Option ℤ := none
  listenAddress : Option String := none
  listenPort : Option ℤ := none
  numClients : Option ℤ := none
  outputFilepath : Option String := none
  unknown : List String := []
deriving DecidableEq, Repr

/-- `dataclasses.replace` -/
def OmniPaxosKVServerConfig.replace (kwargs : ServerKwargs) (c : OmniPaxosKVServerConfig) :
    Except PyError OmniPaxosKVServerConfig :=
  match kwargs.unknown with
  | keyword :: _ => .error (.typeError keyword)
  | [] => .ok {
      location := kwargs.location.getD c.location
      serverId := kwargs.serverId.getD c.serverId
      listenAddress := kwargs.listenAddress.getD c.listenAddress
      listenPort := kwargs.listenPort.getD c.listenPort
      numClients := kwargs.numClients.getD c.numClients
      outputFilepath := kwargs.outputFilepath.getD c.outputFilepath }

structure ServerFields where
  instanceConfig : InstanceConfig
  omnipaxosServerConfig : OmniPaxosKVServerConfig
  rustLog : String
  serverAddress : String
deriving DecidableEq, Repr

def ServerFields.validate (c : ServerFields) : Except PyError Unit := do
  let opConfig := c.omnipaxosServerConfig
  raiseIf (opConfig.serverId ≤ 0) (invalidServerId opConfig.serverId)
  raiseIf (opConfig.numClients < 0)
    (.valueError s!"Invalid num_clients: {opConfig.numClients}. It must be a positive number.")
  raiseIf (c.rustLog ∉ validRustLogLevels) (invalidRustLog c.rustLog)

/-- Fields that `__post_init__` has checked. -/
abbrev ServerConfig : Type := Checked ServerFields.validate

namespace ServerConfig

def init (c : ServerFields) : Except PyError ServerConfig := Checked.make ServerFields.validate c

def serverId (c : ServerConfig) : ℤ := c.1.omnipaxosServerConfig.serverId

def numClients (c : ServerConfig) : ℤ := c.1.omnipaxosServerConfig.numClients

def updateOmnipaxosConfig (kwargs : ServerKwargs) (c : ServerConfig) :
    Except PyError ServerConfig := do
  let newOpConfig ← c.1.omnipaxosServerConfig.replace kwargs
  let newConfig ← init { c.1 with omnipaxosServerConfig := newOpConfig }
  -- checked once more, after the `__post_init__` of the copy
  newConfig.1.validate
  return newConfig

end ServerConfig

/-! ### What the checks amount to -/

/-- A replacement sets the fields it names, which are all known, and keeps the others. -/
theorem OmniPaxosKVServerConfig.replace_ok {kwargs : ServerKwargs}
    {c c' : OmniPaxosKVServerConfig} (h : c.replace kwargs = .ok c') :
    kwargs.unknown = [] ∧ c'.serverId = kwargs.serverId.getD c.serverId ∧
      c'.numClients = kwargs.numClients.getD c.numClients := by
  unfold replace at h
  split at h
  · cases h
  · next hunknown =>
      rw [← Except.ok.inj h]
      exact ⟨hunknown, rfl, rfl⟩

theorem OmniPaxosKVServerConfig.replace_accepted {kwargs : ServerKwargs}
    (c : OmniPaxosKVServerConfig) (hunknown : kwargs.unknown = []) :
    ∃ c', c.replace kwargs = .ok c' := by
  unfold replace
  rw [hunknown]
  exact ⟨_, rfl⟩

theorem ServerFields.validate_ok_iff {c : ServerFields} :
    c.validate = .ok () ↔ 0 < c.omnipaxosServerConfig.serverId ∧
      0 ≤ c.omnipaxosServerConfig.numClients ∧ c.rustLog ∈ validRustLogLevels := by
  unfold validate
  simp only [seq_ok_iff, raiseIf_ok_iff, not_le, not_lt, not_not]

namespace ServerConfig

variable {kwargs : ServerKwargs} {c c' : ServerConfig}

theorem update_ok_iff : c.updateOmnipaxosConfig kwargs = .ok c' ↔
    ∃ newOpConfig, c.1.omnipaxosServerConfig.replace kwargs = .ok newOpConfig ∧
      c'.1 = { c.1 with omnipaxosServerConfig := newOpConfig } := by
  unfold updateOmnipaxosConfig init
  simp only [bind_ok_iff (x := c.1.omnipaxosServerConfig.replace kwargs),
    Checked.make_recheck_ok_iff]

/-- An update sets the fields it names, keeps the others and checks what comes out. -/
theorem update_ok (h : c.updateOmnipaxosConfig kwargs = .ok c') :
    kwargs.unknown = [] ∧ c'.numClients = kwargs.numClients.getD c.numClients ∧
      0 ≤ c'.numClients := by
  rcases update_ok_iff.mp h with ⟨newOpConfig, hreplace, hnew⟩
  rcases OmniPaxosKVServerConfig.replace_ok hreplace with ⟨hunknown, _, hnum⟩
  refine ⟨hunknown, ?_, (ServerFields.validate_ok_iff.mp c'.2).2.1⟩
  rw [numClients, hnew]
  exact hnum

/-- An update is accepted if it names fields only and its numbers are in range. -/
theorem update_accepted (hunknown : kwargs.unknown = [])
    (hserver : 0 < kwargs.serverId.getD c.serverId)
    (hnum : 0 ≤ kwargs.numClients.getD c.numClients) :
    ∃ c', c.updateOmnipaxosConfig kwargs = .ok c' := by
  rcases OmniPaxosKVServerConfig.replace_accepted c.1.omnipaxosServerConfig hunknown with
    ⟨newOpConfig, hreplace⟩
  rcases OmniPaxosKVServerConfig.replace_ok hreplace with ⟨_, hnewServer, hnewNum⟩
  have hold := ServerFields.validate_ok_iff.mp c.2
  have hvalid : ServerFields.validate { c.1 with omnipaxosServerConfig := newOpConfig } = .ok () := by
    apply ServerFields.validate_ok_iff.mpr
    dsimp only
    rw [hnewServer, hnewNum]
    exact ⟨hserver, hnum, hold.2.2⟩
  exact ⟨⟨_, hvalid⟩, update_ok_iff.mpr ⟨newOpConfig, hreplace, rfl⟩⟩

theorem serverId_pos (c : ServerConfig) : 0 < c.serverId :=
  (ServerFields.validate_ok_iff.mp c.2).1

end ServerConfig

/-! ## Clients -/

structure OmniPaxosKVClientConfig where
  location : String
  serverId : ℤ
  serverAddress : String
  requests : List RequestInterval
  summaryFilepath : String
  outputFilepath : String
deriving DecidableEq, Repr

structure ClientKwargs where
  location : Option String := none
  serverId : Option ℤ := none
  serverAddress : Option String := none
  requests : Option (List RequestInterval) := none
  summaryFilepath : Option String := none
  outputFilepath : Option String := none
  unknown : List String := []
deriving DecidableEq, Repr

def OmniPaxosKVClientConfig.replace (kwargs : ClientKwargs) (c : OmniPaxosKVClientConfig) :
    Except PyError OmniPaxosKVClientConfig :=
  match kwargs.unknown with
  | keyword :: _ => .error (.typeError keyword)
  | [] => .ok {
      location := kwargs.location.getD c.location
      serverId := kwargs.serverId.getD c.serverId
      serverAddress := kwargs.serverAddress.getD c.serverAddress
      requests := kwargs.requests.getD c.requests
      summaryFilepath := kwargs.summaryFilepath.getD c.summaryFilepath
      outputFilepath := kwargs.outputFilepath.getD c.outputFilepath }

structure ClientFields where
  instanceConfig : InstanceConfig
  omnipaxosClientConfig : OmniPaxosKVClientConfig
  rustLog : String := "info"
deriving DecidableEq, Repr

def ClientFields.validate (c : ClientFields) : Except PyError Unit := do
  let opConfig := c.omnipaxosClientConfig
  raiseIf (opConfig.serverId ≤ 0) (invalidServerId opConfig.serverId)
  raiseIf (c.rustLog ∉ validRustLogLevels) (invalidRustLog c.rustLog)

/-- Fields that `__post_init__` has checked. -/
abbrev ClientConfig : Type := Checked ClientFields.validate

namespace ClientConfig

def init (c : ClientFields) : Except PyError ClientConfig := Checked.make ClientFields.validate c

def serverId (c : ClientConfig) : ℤ := c.1.omnipaxosClientConfig.serverId

def updateOmnipaxosConfig (kwargs : ClientKwargs) (c : ClientConfig) :
    Except PyError ClientConfig := do
  let newOpConfig ← c.1.omnipaxosClientConfig.replace kwargs
  let newConfig ← init { c.1 with omnipaxosClientConfig := newOpConfig }
  newConfig.1.validate
  return newConfig

end ClientConfig

/-! ### What the checks amount to -/

/-- A replacement sets the fields it names, which are all known, and keeps the others. -/
theorem OmniPaxosKVClientConfig.replace_ok {kwargs : ClientKwargs}
    {c c' : OmniPaxosKVClientConfig} (h : c.replace kwargs = .ok c') :
    kwargs.unknown = [] ∧ c'.serverId = kwargs.serverId.getD c.serverId := by
  unfold replace at h
  split at h
  · cases h
  · next hunknown =>
      rw [← Except.ok.inj h]
      exact ⟨hunknown, rfl⟩

theorem OmniPaxosKVClientConfig.replace_accepted {kwargs : ClientKwargs}
    (c : OmniPaxosKVClientConfig) (hunknown : kwargs.unknown = []) :
    ∃ c', c.replace kwargs = .ok c' := by
  unfold replace
  rw [hunknown]
  exact ⟨_, rfl⟩

theorem ClientFields.validate_ok_iff {c : ClientFields} :
    c.validate = .ok () ↔
      0 < c.omnipaxosClientConfig.serverId ∧ c.rustLog ∈ validRustLogLevels := by
  unfold validate
  simp only [seq_ok_iff, raiseIf_ok_iff, not_le, not_not]

namespace ClientConfig

variable {kwargs : ClientKwargs} {c c' : ClientConfig}

theorem update_ok_iff : c.updateOmnipaxosConfig kwargs = .ok c' ↔
    ∃ newOpConfig, c.1.omnipaxosClientConfig.replace kwargs = .ok newOpConfig ∧
      c'.1 = { c.1 with omnipaxosClientConfig := newOpConfig } := by
  unfold updateOmnipaxosConfig init
  simp only [bind_ok_iff (x := c.1.omnipaxosClientConfig.replace kwargs),
    Checked.make_recheck_ok_iff]

/-- An update sets the fields it names, keeps the others and checks what comes out. -/
theorem update_ok (h : c.updateOmnipaxosConfig kwargs = .ok c') :
    kwargs.unknown = [] ∧ c'.serverId = kwargs.serverId.getD c.serverId ∧ 0 < c'.serverId := by
  rcases update_ok_iff.mp h with ⟨newOpConfig, hreplace, hnew⟩
  rcases OmniPaxosKVClientConfig.replace_ok hreplace with ⟨hunknown, hserver⟩
  refine ⟨hunknown, ?_, (ClientFields.validate_ok_iff.mp c'.2).1⟩
  rw [serverId, hnew]
  exact hserver

/-- An update is accepted if it names fields only and its server id is in range. -/
theorem update_accepted (hunknown : kwargs.unknown = [])
    (hserver : 0 < kwargs.serverId.getD c.serverId) :
    ∃ c', c.updateOmnipaxosConfig kwargs = .ok c' := by
  rcases OmniPaxosKVClientConfig.replace_accepted c.1.omnipaxosClientConfig hunknown with
    ⟨newOpConfig, hreplace⟩
  rcases OmniPaxosKVClientConfig.replace_ok hreplace with ⟨_, hnewServer⟩
  have hold := ClientFields.validate_ok_iff.mp c.2
  have hvalid : ClientFields.validate { c.1 with omnipaxosClientConfig := newOpConfig } = .ok () := by
    apply ClientFields.validate_ok_iff.mpr
    dsimp only
    rw [hnewServer]
    exact ⟨hserver, hold.2⟩
  exact ⟨⟨_, hvalid⟩, update_ok_iff.mpr ⟨newOpConfig, hreplace, rfl⟩⟩

end ClientConfig

/-! ## The cluster -/

structure OmniPaxosKVClusterConfig where
  nodes : List ℤ
  nodeAddrs : List String
  initialLeader : ℤ
  initialFlexibleQuorum : Option FlexibleQuorum
deriving DecidableEq, Repr

structure ClusterKwargs where
  nodes : Option (List ℤ) := none
  nodeAddrs : Option (List String) := none
  initialLeader : Option ℤ := none
  /-- `some none` sets the field to `None` -/
  initialFlexibleQuorum : Option (Option FlexibleQuorum) := none
  unknown : List String := []
deriving DecidableEq, Repr

def OmniPaxosKVClusterConfig.replace (kwargs : ClusterKwargs) (c : OmniPaxosKVClusterConfig) :
    Except PyError OmniPaxosKVClusterConfig :=
  match kwargs.unknown with
  | keyword :: _ => .error (.typeError keyword)
  | [] => .ok {
      nodes := kwargs.nodes.getD c.nodes
      nodeAddrs := kwargs.nodeAddrs.getD c.nodeAddrs
      initialLeader := kwargs.initialLeader.getD c.initialLeader
      initialFlexibleQuorum := kwargs.initialFlexibleQuorum.getD c.initialFlexibleQuorum }

structure ClusterConfig where
  omnipaxosClusterConfig : OmniPaxosKVClusterConfig
  serverConfigs : Dict ℤ ServerConfig
  clientConfigs : Dict ℤ ClientConfig
  clientImage : String
  serverImage : String

/-- `sorted(d.keys())` -/
def sortedKeys {V : Type} (d : Dict ℤ V) : List ℤ := d.keys.insertionSort (· ≤ ·)

/-- The clients whose configuration refers to the server. -/
def serverIdMatches (serverId : ℤ) (clientConfigs : Dict ℤ ClientConfig) : ℕ :=
  clientConfigs.values.countP fun c => decide (c.serverId = serverId)

namespace ClusterConfig

/-- The checks of `validate` on a quorum, if one is set. -/
def validateQuorum (opConfig : OmniPaxosKVClusterConfig) : Except PyError Unit :=
  match opConfig.initialFlexibleQuorum with
  | none => .ok ()
  | some quorum => do
      let readQuorum := quorum.readQuorumSize
      let writeQuorum := quorum.writeQuorumSize
      raiseIf (readQuorum < 2) (.valueError "Read quorum must be greater than 2")
      raiseIf (writeQuorum < 2) (.valueError "Write quorum must be greater than 2")
      raiseIf (readQuorum + writeQuorum ≤ opConfig.nodes.length)
        (.valueError s!"Flexible quorum ({readQuorum}, {writeQuorum}) must guarantee overlap")

def validate (c : ClusterConfig) : Except PyError Unit := do
  let opConfig := c.omnipaxosClusterConfig
  validateQuorum opConfig
  c.clientConfigs.keys.forM fun clientId =>
    raiseIf (clientId ∉ c.serverConfigs.keys)
      (.valueError s!"Client {clientId} has no server to connect to")
  c.serverConfigs.entries.forM fun (serverId, serverConfig) =>
    -- the clients are counted by the server they refer to, not by their key
    let totalMatches := serverIdMatches serverId c.clientConfigs
    let serverNumClients := serverConfig.numClients
    raiseIf (serverNumClients ≠ totalMatches)
      (.valueError (s!"Server {serverId} has {serverNumClients} clients but found " ++
        s!"{totalMatches} references among client configs"))
  raiseIf (opConfig.initialLeader ∉ c.serverConfigs.keys)
    (.valueError s!"Initial leader {opConfig.initialLeader} must be one of the server nodes")
  let serverIds := sortedKeys c.serverConfigs
  raiseIf (opConfig.nodes ≠ serverIds)
    (.valueError ("Cluster nodes " ++ listRepr opConfig.nodes ++
      " must match defined server ids " ++ listRepr serverIds))

/-- `ClusterConfig(...)` with its `__post_init__`. -/
def init (c : ClusterConfig) : Except PyError ClusterConfig := do
  c.validate
  return c

def updateOmnipaxosConfig (kwargs : ClusterKwargs) (c : ClusterConfig) :
    Except PyError ClusterConfig := do
  let newOpConfig ← c.omnipaxosClusterConfig.replace kwargs
  let newConfig ← init { c with omnipaxosClusterConfig := newOpConfig }
  newConfig.validate
  return newConfig

/-! ### What the checks amount to -/

/-- What `validate` requires. -/
structure Valid (c : ClusterConfig) : Prop where
  quorum : ∀ quorum ∈ c.omnipaxosClusterConfig.initialFlexibleQuorum,
    2 ≤ quorum.readQuorumSize ∧ 2 ≤ quorum.writeQuorumSize ∧
      c.omnipaxosClusterConfig.nodes.length < quorum.readQuorumSize + quorum.writeQuorumSize
  clients : ∀ clientId ∈ c.clientConfigs.keys, clientId ∈ c.serverConfigs.keys
  numClients : ∀ serverId serverConfig, c.serverConfigs.get? serverId = some serverConfig →
    serverConfig.numClients = serverIdMatches serverId c.clientConfigs
  initialLeader : c.omnipaxosClusterConfig.initialLeader ∈ c.serverConfigs.keys
  nodes : c.omnipaxosClusterConfig.nodes = sortedKeys c.serverConfigs

variable {c c' : ClusterConfig}

/-- What the check of a flexible quorum comes to: both sizes are at least two, and any two quorums
meet. -/
theorem validateQuorum_ok_iff {opConfig : OmniPaxosKVClusterConfig} :
    validateQuorum opConfig = .ok () ↔ ∀ quorum ∈ opConfig.initialFlexibleQuorum,
      2 ≤ quorum.readQuorumSize ∧ 2 ≤ quorum.writeQuorumSize ∧
        opConfig.nodes.length < quorum.readQuorumSize + quorum.writeQuorumSize := by
  unfold validateQuorum
  cases opConfig.initialFlexibleQuorum with
  | none => simp
  | some quorum =>
      simp only [seq_ok_iff, raiseIf_ok_iff, not_lt, not_le, Option.mem_some_iff, forall_eq']

/-- A cluster passes its check just if it is valid. -/
theorem validate_ok_iff : c.validate = .ok () ↔ c.Valid := by
  unfold validate
  simp only [seq_ok_iff, forM_ok_iff, raiseIf_ok_iff, validateQuorum_ok_iff, not_not]
  constructor
  · intro h
    rcases h with ⟨hquorum, hclients, hnum, hleader, hnodes⟩
    refine ⟨hquorum, hclients, ?_, hleader, hnodes⟩
    intro serverId serverConfig hget
    exact hnum (serverId, serverConfig) (Dict.get?_eq_some_iff.mp hget)
  · intro h
    refine ⟨h.quorum, h.clients, ?_, h.initialLeader, h.nodes⟩
    intro e he
    exact h.numClients e.1 e.2 (Dict.get?_eq_some_iff.mpr he)

theorem init_ok (h : c.init = .ok c') : c' = c ∧ c.validate = .ok () := by
  rcases seq_ok_iff.mp h with ⟨hvalid, hret⟩
  exact ⟨(Except.ok.inj hret).symm, hvalid⟩

/-- An update of the cluster's own settings is checked against the dictionaries. -/
theorem update_ok {kwargs : ClusterKwargs} (h : c.updateOmnipaxosConfig kwargs = .ok c') :
    c'.validate = .ok () ∧ c'.serverConfigs = c.serverConfigs ∧
      c'.clientConfigs = c.clientConfigs := by
  unfold updateOmnipaxosConfig at h
  -- the three lines of the method: the new settings, the copy, the second check
  rcases bind_ok_iff.mp h with ⟨newOpConfig, _, hrest⟩
  rcases bind_ok_iff.mp hrest with ⟨newConfig, hinit, hlast⟩
  rcases seq_ok_iff.mp hlast with ⟨hvalid, hret⟩
  rw [← Except.ok.inj hret, (init_ok hinit).1]
  rw [(init_ok hinit).1] at hvalid
  exact ⟨hvalid, rfl, rfl⟩

end ClusterConfig

end Deployment

end OmnipaxosKv
