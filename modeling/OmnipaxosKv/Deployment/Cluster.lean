import OmnipaxosKv.Deployment.Configs

/-! # Building and changing a benchmark cluster (`benchmarks/omnipaxos_cluster.py`)

`OmnipaxosClusterBuilder.build` makes a configuration that passes `ClusterConfig.validate`.
Of the three methods that change it later only `change_cluster_config` runs that check
again; the other two check the one configuration that they replace.

The instances, the remote processes and the logs are left out.
-/

namespace OmnipaxosKv

namespace Deployment

open Checks

/-! ## The builder -/

structure OmnipaxosClusterBuilder where
  clusterId : String
  gcloudOsloginUid : String
  serverDockerImageName : String
  clientDockerImageName : String
  serverConfigs : Dict ℤ ServerConfig
  clientConfigs : Dict ℤ ClientConfig
  initialLeader : Option ℤ
  initialQuorum : Option FlexibleQuorum
  serverPort : ℤ

structure OmnipaxosCluster where
  clusterConfig : ClusterConfig

/-- `server_configs[server_id] = config`, into the dictionary that is there. -/
def ClusterConfig.setServerConfig (serverId : ℤ) (config : ServerConfig) (c : ClusterConfig) :
    ClusterConfig :=
  { c with serverConfigs := c.serverConfigs.set serverId config }

/-- `client_configs[client_id] = config`, into the dictionary that is there. -/
def ClusterConfig.setClientConfig (clientId : ℤ) (config : ClientConfig) (c : ClusterConfig) :
    ClusterConfig :=
  { c with clientConfigs := c.clientConfigs.set clientId config }

namespace OmnipaxosClusterBuilder

/-- `__init__`, with the environment variables it reads. -/
def new (clusterId : ℤ) (osloginUid serverImage clientImage : String) :
    OmnipaxosClusterBuilder where
  clusterId := s!"{clusterId}"
  gcloudOsloginUid := osloginUid
  serverDockerImageName := serverImage
  clientDockerImageName := clientImage
  serverConfigs := Dict.empty
  clientConfigs := Dict.empty
  initialLeader := none
  initialQuorum := none
  serverPort := 8000

def server (serverId : ℤ) (zone machineType rustLog : String) (b : OmnipaxosClusterBuilder) :
    Except PyError OmnipaxosClusterBuilder := do
  raiseIf (serverId ∈ b.serverConfigs.keys) (.valueError s!"Server {serverId} already exists")
  let instanceName := s!"user-{b.gcloudOsloginUid}-cluster-{b.clusterId}-server-{serverId}"
  let serverConfig ← ServerConfig.init {
    instanceConfig := ⟨instanceName, zone, machineType, some instanceName⟩
    serverAddress := s!"{instanceName}.internal.zone.:{b.serverPort}"
    omnipaxosServerConfig := {
      location := zone
      serverId := serverId
      listenAddress := "0.0.0.0"
      listenPort := b.serverPort
      numClients := 0
      outputFilepath := s!"server-{serverId}.json" }
    rustLog := rustLog }
  return { b with serverConfigs := b.serverConfigs.set serverId serverConfig }

def client (serverId : ℤ) (zone : String) (requests : List RequestInterval)
    (machineType rustLog : String) (b : OmnipaxosClusterBuilder) :
    Except PyError OmnipaxosClusterBuilder := do
  raiseIf (serverId ∈ b.clientConfigs.keys) (.valueError s!"Client {serverId} already exists")
  let instanceName := s!"user-{b.gcloudOsloginUid}-cluster-{b.clusterId}-client-{serverId}"
  let clientConfig ← ClientConfig.init {
    instanceConfig := ⟨instanceName, zone, machineType, none⟩
    omnipaxosClientConfig := {
      location := zone
      serverId := serverId
      serverAddress := ""
      requests := requests
      summaryFilepath := s!"client-{serverId}.json"
      outputFilepath := s!"client-{serverId}.csv" }
    rustLog := rustLog }
  return { b with clientConfigs := b.clientConfigs.set serverId clientConfig }

def setInitialLeader (initialLeader : ℤ) (b : OmnipaxosClusterBuilder) :
    OmnipaxosClusterBuilder :=
  { b with initialLeader := some initialLeader }

def setInitialQuorum (flexQuorum : FlexibleQuorum) (b : OmnipaxosClusterBuilder) :
    OmnipaxosClusterBuilder :=
  { b with initialQuorum := some flexQuorum }

/-- `self._server_configs[server_id]` -/
def serverConfigOf (b : OmnipaxosClusterBuilder) (serverId : ℤ) : Except PyError ServerConfig :=
  orRaise (b.serverConfigs.get? serverId) (.keyError serverId)

/-- One turn of the first loop of `build`. -/
def addNumClients (b : OmnipaxosClusterBuilder) (entry : ℤ × ServerConfig) :
    Except PyError OmnipaxosClusterBuilder := do
  let (serverId, serverConfig) := entry
  let totalMatches := serverIdMatches serverId b.clientConfigs
  let config ← serverConfig.updateOmnipaxosConfig { numClients := some totalMatches }
  return { b with serverConfigs := b.serverConfigs.set serverId config }

/-- One turn of the second loop of `build`. -/
def addServerAddress (b : OmnipaxosClusterBuilder) (entry : ℤ × ClientConfig) :
    Except PyError OmnipaxosClusterBuilder := do
  let (clientId, clientConfig) := entry
  let serverConfig ← b.serverConfigOf clientConfig.serverId
  let config ← clientConfig.updateOmnipaxosConfig
    { serverAddress := some serverConfig.1.serverAddress }
  return { b with clientConfigs := b.clientConfigs.set clientId config }

def build (b : OmnipaxosClusterBuilder) : Except PyError OmnipaxosCluster := do
  let b ← b.serverConfigs.entries.foldlM addNumClients b
  let b ← b.clientConfigs.entries.foldlM addServerAddress b
  match b.initialLeader with
  | none => .error (.valueError "Need to set cluster's initial leader")
  | some initialLeader =>
      -- nodes and addresses in the order of the server ids
      let nodes := sortedKeys b.serverConfigs
      let serverConfigs ← nodes.mapM b.serverConfigOf
      let clusterConfig ← ClusterConfig.init {
        omnipaxosClusterConfig := {
          nodes := nodes
          nodeAddrs := serverConfigs.map fun c => c.1.serverAddress
          initialLeader := initialLeader
          initialFlexibleQuorum := b.initialQuorum }
        serverConfigs := b.serverConfigs
        clientConfigs := b.clientConfigs
        clientImage := b.clientDockerImageName
        serverImage := b.serverDockerImageName }
      return ⟨clusterConfig⟩

end OmnipaxosClusterBuilder

/-! ## The methods that change a cluster -/

namespace OmnipaxosCluster

/-- A method that may write into the cluster and may raise; what it wrote before it
raised stays written. -/
abbrev Method := ExceptT PyError (StateM OmnipaxosCluster)

def getServerConfig (serverId : ℤ) : Method ServerConfig := do
  let cluster ← get
  match cluster.clusterConfig.serverConfigs.get? serverId with
  | none => throw (.valueError s!"Server {serverId} doesn't exist")
  | some serverConfig => return serverConfig

def getClientConfig (clientId : ℤ) : Method ClientConfig := do
  let cluster ← get
  match cluster.clusterConfig.clientConfigs.get? clientId with
  | none => throw (.valueError s!"Client {clientId} doesn't exist")
  | some clientConfig => return clientConfig

def changeClusterConfig (kwargs : ClusterKwargs) : Method Unit := do
  let cluster ← get
  let clusterConfig ← liftExcept (cluster.clusterConfig.updateOmnipaxosConfig kwargs)
  set { cluster with clusterConfig := clusterConfig }

/-- A second `server_id` among the keywords is a `TypeError` of the call itself. -/
def changeServerConfig (serverId : ℤ) (kwargs : ServerKwargs) : Method Unit := do
  if kwargs.serverId.isSome then throw (.typeError "server_id")
  let serverConfig ← getServerConfig serverId
  -- the new configuration is checked on its own, not against the cluster
  let newConfig ← liftExcept (serverConfig.updateOmnipaxosConfig kwargs)
  modify fun cluster => ⟨cluster.clusterConfig.setServerConfig serverId newConfig⟩

/-- A second `client_id`, which names no field of a client, is a `TypeError`, too. -/
def changeClientConfig (clientId : ℤ) (kwargs : ClientKwargs) : Method Unit := do
  if "client_id" ∈ kwargs.unknown then throw (.typeError "client_id")
  let clientConfig ← getClientConfig clientId
  let newConfig ← liftExcept (clientConfig.updateOmnipaxosConfig kwargs)
  modify fun cluster => ⟨cluster.clusterConfig.setClientConfig clientId newConfig⟩

/-! ### Running a method -/

section

variable {α β : Type} (cluster : OmnipaxosCluster)

/-- One part of a method after the other. -/
theorem run_bind (x : Method α) (f : α → Method β) :
    (x >>= f).run.run cluster = match x.run.run cluster with
      | (.error e, cluster') => (.error e, cluster')
      | (.ok a, cluster') => (f a).run.run cluster' := by
  change (match x.run.run cluster with
    | (result, cluster') => (ExceptT.bindCont f result).run cluster') = _
  rcases x.run.run cluster with ⟨_ | _, _⟩
  · rfl
  · rfl

theorem run_get : (get : Method OmnipaxosCluster).run.run cluster = (.ok cluster, cluster) :=
  rfl

/-- An update that raises writes nothing. -/
theorem run_store (update : Except PyError α) (store : α → OmnipaxosCluster → OmnipaxosCluster) :
    (liftExcept update >>= fun a => modify (store a) : Method Unit).run.run cluster =
      match update with
      | .error e => (.error e, cluster)
      | .ok a => (.ok (), store a cluster) := by
  cases update with
  | error e => rfl
  | ok a => rfl

/-- The configuration of a server is looked up, and the cluster stays as it is. -/
theorem run_getServerConfig (serverId : ℤ) :
    (getServerConfig serverId).run.run cluster =
      match cluster.clusterConfig.serverConfigs.get? serverId with
      | none => (.error (.valueError s!"Server {serverId} doesn't exist"), cluster)
      | some serverConfig => (.ok serverConfig, cluster) := by
  rw [getServerConfig, run_bind, run_get]
  dsimp only
  cases cluster.clusterConfig.serverConfigs.get? serverId with
  | none => rfl
  | some _ => rfl

/-- The configuration of a client is looked up, and the cluster stays as it is. -/
theorem run_getClientConfig (clientId : ℤ) :
    (getClientConfig clientId).run.run cluster =
      match cluster.clusterConfig.clientConfigs.get? clientId with
      | none => (.error (.valueError s!"Client {clientId} doesn't exist"), cluster)
      | some clientConfig => (.ok clientConfig, cluster) := by
  rw [getClientConfig, run_bind, run_get]
  dsimp only
  cases cluster.clusterConfig.clientConfigs.get? clientId with
  | none => rfl
  | some _ => rfl

end

end OmnipaxosCluster

/-! ## What `build` establishes -/

/-- The configuration passes its check, and each client refers to a server that exists. -/
structure ClusterConfig.Consistent (c : ClusterConfig) : Prop where
  valid : c.validate = .ok ()
  attached : ∀ client ∈ c.clientConfigs.values, client.serverId ∈ c.serverConfigs.keys

namespace OmnipaxosClusterBuilder

variable {b b' : OmnipaxosClusterBuilder}

theorem serverConfigOf_ok {serverId : ℤ} {serverConfig : ServerConfig}
    (h : b.serverConfigOf serverId = .ok serverConfig) : serverId ∈ b.serverConfigs.keys :=
  Dict.mem_keys_of_get? (orRaise_ok_iff.mp h)

/-- The second loop looks up the server of each client. -/
theorem addServerAddress_loop {entries : List (ℤ × ClientConfig)}
    (hkeys : ∀ e ∈ entries, e.1 ∈ b.clientConfigs.keys)
    (h : entries.foldlM addServerAddress b = .ok b') :
    b'.serverConfigs = b.serverConfigs ∧
      ∀ clientId client, b'.clientConfigs.get? clientId = some client →
        client.serverId ∈ b.serverConfigs.keys ∨
          clientId ∉ entries.map Prod.fst ∧ b.clientConfigs.get? clientId = some client := by
  -- over the clients that are left; `b` is the builder with those before them done
  induction entries generalizing b with
  | nil =>
      obtain rfl := Except.ok.inj h
      exact ⟨rfl, fun _ _ hget => .inr ⟨List.not_mem_nil, hget⟩⟩
  | cons e entries ih =>
      rcases e with ⟨clientId, clientConfig⟩
      rw [List.foldlM_cons] at h
      rcases bind_ok_iff.mp h with ⟨b₁, hfirst, hrest⟩
      rcases bind_ok_iff.mp hfirst with ⟨serverConfig, hserver, hupdate⟩
      rcases bind_ok_iff.mp hupdate with ⟨config, hconfig, hret⟩
      have hb₁ : b₁ = { b with clientConfigs := b.clientConfigs.set clientId config } :=
        (Except.ok.inj hret).symm
      have hmem : clientId ∈ b.clientConfigs.keys := hkeys _ List.mem_cons_self
      have hexists : config.serverId ∈ b.serverConfigs.keys := by
        rw [(ClientConfig.update_ok hconfig).2.1]
        exact serverConfigOf_ok hserver
      have hkeys₁ : ∀ e ∈ entries, e.1 ∈ b₁.clientConfigs.keys := by
        intro e he
        rw [hb₁]
        dsimp only
        rw [Dict.keys_set_of_mem hmem]
        exact hkeys e (List.mem_cons_of_mem _ he)
      have hsame : b₁.serverConfigs = b.serverConfigs := by rw [hb₁]
      rcases ih hkeys₁ hrest with ⟨hservers, hclients⟩
      rw [hsame] at hservers hclients
      refine ⟨hservers, ?_⟩
      intro clientId' client hget
      -- the client of this turn, one of a later turn, or none of the loop
      rcases hclients clientId' client hget with hattached | ⟨hnot, hold⟩
      · exact .inl hattached
      · rw [hb₁] at hold
        dsimp only at hold
        rw [Dict.get?_set_of_mem hmem] at hold
        split at hold
        · rw [← Option.some.inj hold]
          exact .inl hexists
        · next hne =>
            refine .inr ⟨?_, hold⟩
            rw [List.map_cons, List.mem_cons]
            intro hor
            rcases hor with heq | hin
            · exact hne heq
            · exact hnot hin

/-- What `build` returns is consistent. -/
theorem build_consistent {cluster : OmnipaxosCluster} (h : b.build = .ok cluster) :
    cluster.clusterConfig.Consistent := by
  unfold build at h
  rcases bind_ok_iff.mp h with ⟨b₁, _, hrest⟩
  rcases bind_ok_iff.mp hrest with ⟨b₂, hloop, hlast⟩
  split at hlast
  · cases hlast
  · rcases bind_ok_iff.mp hlast with ⟨serverConfigs, _, hmake⟩
    rcases bind_ok_iff.mp hmake with ⟨clusterConfig, hinit, hret⟩
    rcases ClusterConfig.init_ok hinit with ⟨heq, hvalid⟩
    rw [← Except.ok.inj hret]
    refine ⟨by rw [heq]; exact hvalid, ?_⟩
    rw [heq]
    have hkeys : ∀ e ∈ b₁.clientConfigs.entries, e.1 ∈ b₁.clientConfigs.keys :=
      fun e he => List.mem_map_of_mem he
    rcases addServerAddress_loop hkeys hloop with ⟨hservers, hclients⟩
    intro client hclient
    dsimp only at hclient ⊢
    rw [hservers]
    rcases Dict.mem_values_iff.mp hclient with ⟨clientId, hget⟩
    -- the loop goes through all clients, so none is left out
    rcases hclients clientId client hget with hattached | ⟨hnot, hold⟩
    · exact hattached
    · exact absurd (Dict.mem_keys_of_get? hold) hnot

end OmnipaxosClusterBuilder

/-! ## What the changes keep -/

/-- A call of one of the three methods. -/
inductive Call where
  | changeClusterConfig (kwargs : ClusterKwargs)
  | changeServerConfig (serverId : ℤ) (kwargs : ServerKwargs)
  | changeClientConfig (clientId : ℤ) (kwargs : ClientKwargs)
deriving DecidableEq, Repr

namespace Call

def method : Call → OmnipaxosCluster.Method Unit
  | changeClusterConfig kwargs => OmnipaxosCluster.changeClusterConfig kwargs
  | changeServerConfig serverId kwargs => OmnipaxosCluster.changeServerConfig serverId kwargs
  | changeClientConfig clientId kwargs => OmnipaxosCluster.changeClientConfig clientId kwargs

/-- What the call returns or raises, and the cluster after it. -/
def run (call : Call) (cluster : OmnipaxosCluster) : Except PyError Unit × OmnipaxosCluster :=
  call.method.run.run cluster

/-- What a call stores, as a function of the configuration before it: an error, or the
whole new configuration. -/
def updated (c : ClusterConfig) : Call → Except PyError ClusterConfig
  | changeClusterConfig kwargs => c.updateOmnipaxosConfig kwargs
  | changeServerConfig serverId kwargs => do
      raiseIf kwargs.serverId.isSome (.typeError "server_id")
      let serverConfig ← orRaise (c.serverConfigs.get? serverId)
        (.valueError s!"Server {serverId} doesn't exist")
      let newConfig ← serverConfig.updateOmnipaxosConfig kwargs
      return c.setServerConfig serverId newConfig
  | changeClientConfig clientId kwargs => do
      raiseIf ("client_id" ∈ kwargs.unknown) (.typeError "client_id")
      let clientConfig ← orRaise (c.clientConfigs.get? clientId)
        (.valueError s!"Client {clientId} doesn't exist")
      let newConfig ← clientConfig.updateOmnipaxosConfig kwargs
      return c.setClientConfig clientId newConfig

/-- What comes of storing a computed configuration in a cluster. -/
def stored (cluster : OmnipaxosCluster) :
    Except PyError ClusterConfig → Except PyError Unit × OmnipaxosCluster
  | .error e => (.error e, cluster)
  | .ok c => (.ok (), ⟨c⟩)

/-- A call raises before it has written anything, or it writes and returns. -/
theorem run_eq (call : Call) (c : ClusterConfig) : call.run ⟨c⟩ = stored ⟨c⟩ (call.updated c) := by
  cases call with
  | changeClusterConfig kwargs =>
      rw [run, method, OmnipaxosCluster.changeClusterConfig, OmnipaxosCluster.run_bind,
        OmnipaxosCluster.run_get, updated]
      dsimp only
      cases c.updateOmnipaxosConfig kwargs with
      | error e => rfl
      | ok c' => rfl
  | changeServerConfig serverId kwargs =>
      rw [run, method, OmnipaxosCluster.changeServerConfig, updated]
      cases kwargs.serverId with
      -- a second server id is a TypeError of the call itself
      | some sid => rfl
      | none =>
          change (OmnipaxosCluster.getServerConfig serverId >>= _).run.run _ = _
          rw [OmnipaxosCluster.run_bind, OmnipaxosCluster.run_getServerConfig]
          dsimp only
          cases c.serverConfigs.get? serverId with
          | none => rfl
          | some serverConfig =>
              dsimp only
              rw [OmnipaxosCluster.run_store]
              change _ = stored _ (serverConfig.updateOmnipaxosConfig kwargs >>= _)
              cases serverConfig.updateOmnipaxosConfig kwargs with
              | error e => rfl
              | ok newConfig => rfl
  | changeClientConfig clientId kwargs =>
      rw [run, method, OmnipaxosCluster.changeClientConfig, updated]
      -- and so is a second client id, which is no field of a client
      by_cases hclient : "client_id" ∈ kwargs.unknown
      · rw [if_pos hclient, raiseIf, if_pos hclient]
        rfl
      · rw [if_neg hclient, raiseIf, if_neg hclient]
        change (OmnipaxosCluster.getClientConfig clientId >>= _).run.run _ = _
        rw [OmnipaxosCluster.run_bind, OmnipaxosCluster.run_getClientConfig]
        dsimp only
        cases c.clientConfigs.get? clientId with
        | none => rfl
        | some clientConfig =>
            dsimp only
            rw [OmnipaxosCluster.run_store]
            change _ = stored _ (clientConfig.updateOmnipaxosConfig kwargs >>= _)
            cases clientConfig.updateOmnipaxosConfig kwargs with
            | error e => rfl
            | ok newConfig => rfl

/-- A call for a server is accepted just if the server exists and its update is. -/
theorem updated_server_ok_iff {serverId : ℤ} {kwargs : ServerKwargs} {c c' : ClusterConfig} :
    (changeServerConfig serverId kwargs).updated c = .ok c' ↔
      kwargs.serverId = none ∧ ∃ serverConfig, c.serverConfigs.get? serverId = some serverConfig ∧
        ∃ newConfig, serverConfig.updateOmnipaxosConfig kwargs = .ok newConfig ∧
          c.setServerConfig serverId newConfig = c' := by
  rw [updated, seq_ok_iff, raiseIf_ok_iff, Option.not_isSome_iff_eq_none]
  simp only [bind_ok_iff, orRaise_ok_iff, pure_ok_iff]

/-- A call for a client is accepted just if the client exists and its update is. -/
theorem updated_client_ok_iff {clientId : ℤ} {kwargs : ClientKwargs} {c c' : ClusterConfig} :
    (changeClientConfig clientId kwargs).updated c = .ok c' ↔
      ∃ clientConfig, c.clientConfigs.get? clientId = some clientConfig ∧
        ∃ newConfig, clientConfig.updateOmnipaxosConfig kwargs = .ok newConfig ∧
          c.setClientConfig clientId newConfig = c' := by
  rw [updated, seq_ok_iff, raiseIf_ok_iff]
  simp only [bind_ok_iff, orRaise_ok_iff, pure_ok_iff]
  refine and_iff_right_of_imp ?_
  -- an update that is accepted names fields only
  intro h hclient
  rcases h with ⟨clientConfig, _, newConfig, hupdate, _⟩
  rw [(ClientConfig.update_ok hupdate).1] at hclient
  exact List.not_mem_nil hclient

/-- A call that raises must leave the configuration as it was, and one that returns must
leave a consistent one. -/
def Keeps (cluster : OmnipaxosCluster) (call : Call) : Prop :=
  match call.run cluster with
  | (.error _, cluster') => cluster' = cluster
  | (.ok (), cluster') => cluster'.clusterConfig.Consistent

/-- The call sets a client count other than the number of clients that refer to the server,
or it refers a client to another server. -/
def Breaks (c : ClusterConfig) : Call → Prop
  | changeClusterConfig _ => False
  | changeServerConfig serverId kwargs => serverId ∈ c.serverConfigs.keys ∧
      kwargs.serverId = none ∧ kwargs.unknown = [] ∧
      ∃ n ∈ kwargs.numClients, 0 ≤ n ∧ n ≠ serverIdMatches serverId c.clientConfigs
  | changeClientConfig clientId kwargs => kwargs.unknown = [] ∧
      ∃ clientConfig ∈ c.clientConfigs.get? clientId,
        ∃ sid ∈ kwargs.serverId, 0 < sid ∧ sid ≠ clientConfig.serverId

instance (c : ClusterConfig) : (call : Call) → Decidable (call.Breaks c)
  | changeClusterConfig _ => inferInstanceAs (Decidable False)
  | changeServerConfig serverId kwargs => inferInstanceAs (Decidable (serverId ∈ c.serverConfigs.keys ∧
      kwargs.serverId = none ∧ kwargs.unknown = [] ∧
      ∃ n ∈ kwargs.numClients, 0 ≤ n ∧ n ≠ serverIdMatches serverId c.clientConfigs))
  | changeClientConfig clientId kwargs => inferInstanceAs (Decidable (kwargs.unknown = [] ∧
      ∃ clientConfig ∈ c.clientConfigs.get? clientId,
        ∃ sid ∈ kwargs.serverId, 0 < sid ∧ sid ≠ clientConfig.serverId))

/-- A call that raises leaves the configuration as it was. -/
theorem keeps_of_error {call : Call} {c : ClusterConfig} {e : PyError}
    (h : call.updated c = .error e) : call.Keeps ⟨c⟩ := by
  rw [Keeps, run_eq, h]
  rfl

theorem keeps_ok_iff {call : Call} {c c' : ClusterConfig} (h : call.updated c = .ok c') :
    call.Keeps ⟨c⟩ ↔ c'.Consistent := by
  rw [Keeps, run_eq, h]
  rfl

end Call

namespace ClusterConfig

variable {c : ClusterConfig}

/-- A server's new configuration fits in if its client count is right. -/
theorem consistent_setServerConfig_iff (hc : c.Consistent) {serverId : ℤ}
    (hserver : serverId ∈ c.serverConfigs.keys) {newConfig : ServerConfig} :
    (c.setServerConfig serverId newConfig).Consistent ↔
      newConfig.numClients = serverIdMatches serverId c.clientConfigs := by
  have hvalid := validate_ok_iff.mp hc.valid
  have hkeys : (c.setServerConfig serverId newConfig).serverConfigs.keys = c.serverConfigs.keys :=
    Dict.keys_set_of_mem hserver newConfig
  have hget : ∀ k, (c.setServerConfig serverId newConfig).serverConfigs.get? k =
      if k = serverId then some newConfig else c.serverConfigs.get? k :=
    Dict.get?_set_of_mem hserver newConfig
  constructor
  · intro h
    apply (validate_ok_iff.mp h.valid).numClients serverId newConfig
    rw [hget, if_pos rfl]
  · intro h
    refine ⟨validate_ok_iff.mpr ⟨hvalid.quorum, ?_, ?_, ?_, ?_⟩, ?_⟩
    · rw [hkeys]
      exact hvalid.clients
    · intro k config hconfig
      rw [hget] at hconfig
      split at hconfig
      · next hk =>
          rw [← Option.some.inj hconfig, hk]
          exact h
      · exact hvalid.numClients k config hconfig
    · rw [hkeys]
      exact hvalid.initialLeader
    · rw [sortedKeys, hkeys]
      exact hvalid.nodes
    · rw [hkeys]
      exact hc.attached

/-- The clients of a server, after one client's configuration is replaced. -/
theorem serverIdMatches_setClientConfig {clientId : ℤ} {clientConfig : ClientConfig}
    (hget : c.clientConfigs.get? clientId = some clientConfig) (newConfig : ClientConfig) (k : ℤ) :
    serverIdMatches k (c.setClientConfig clientId newConfig).clientConfigs +
        (if clientConfig.serverId = k then 1 else 0) =
      serverIdMatches k c.clientConfigs + (if newConfig.serverId = k then 1 else 0) := by
  have hcount := Dict.countP_values_set (fun c : ClientConfig => decide (c.serverId = k)) hget
    newConfig
  simp only [decide_eq_true_eq] at hcount
  exact hcount

/-- A client's new configuration fits in if it refers to the same server: the server it
leaves would have one client less than it is told. -/
theorem consistent_setClientConfig_iff (hc : c.Consistent) {clientId : ℤ}
    {clientConfig newConfig : ClientConfig}
    (hget : c.clientConfigs.get? clientId = some clientConfig) :
    (c.setClientConfig clientId newConfig).Consistent ↔
      newConfig.serverId = clientConfig.serverId := by
  have hvalid := validate_ok_iff.mp hc.valid
  have hmem := Dict.mem_keys_of_get? hget
  have hattached := hc.attached clientConfig (Dict.mem_values_iff.mpr ⟨clientId, hget⟩)
  have hcount := serverIdMatches_setClientConfig hget newConfig
  constructor
  · intro h
    by_contra hne
    rcases Dict.mem_keys_iff.mp hattached with ⟨serverConfig, hserver⟩
    have hbefore := hvalid.numClients _ _ hserver
    have hafter := (validate_ok_iff.mp h.valid).numClients _ _ hserver
    have hless := hcount clientConfig.serverId
    rw [if_pos rfl, if_neg hne] at hless
    omega
  · intro h
    have hkeys : (c.setClientConfig clientId newConfig).clientConfigs.keys =
        c.clientConfigs.keys := Dict.keys_set_of_mem hmem newConfig
    have hsame : ∀ k, serverIdMatches k (c.setClientConfig clientId newConfig).clientConfigs =
        serverIdMatches k c.clientConfigs := by
      intro k
      have hk := hcount k
      rw [h] at hk
      exact Nat.add_right_cancel hk
    refine ⟨validate_ok_iff.mpr ⟨hvalid.quorum, ?_, ?_, hvalid.initialLeader, hvalid.nodes⟩, ?_⟩
    · rw [hkeys]
      exact hvalid.clients
    · intro k config hconfig
      rw [hsame]
      exact hvalid.numClients k config hconfig
    · intro client hclient
      rcases Dict.mem_values_set_of_mem hmem hclient with hnew | hold
      · rw [hnew, h]
        exact hattached
      · exact hc.attached client hold

end ClusterConfig

namespace Call

variable {c : ClusterConfig}

/-- One call: what it must keep it keeps unless it is one that breaks. -/
theorem keeps_iff_not_breaks (hc : c.Consistent) (call : Call) :
    call.Keeps ⟨c⟩ ↔ ¬ call.Breaks c := by
  cases call with
  | changeClusterConfig kwargs =>
      refine ⟨fun _ => id, fun _ => ?_⟩
      cases hupdated : (changeClusterConfig kwargs).updated c with
      | error e => exact keeps_of_error hupdated
      | ok c' =>
          rw [keeps_ok_iff hupdated]
          rcases ClusterConfig.update_ok hupdated with ⟨hvalid, hservers, hclients⟩
          refine ⟨hvalid, ?_⟩
          rw [hservers, hclients]
          exact hc.attached
  | changeServerConfig serverId kwargs =>
      cases hupdated : (changeServerConfig serverId kwargs).updated c with
      | error e =>
          refine ⟨fun _ hbreaks => ?_, fun _ => keeps_of_error hupdated⟩
          -- a call that breaks is accepted
          rcases hbreaks with ⟨hmem, hkwargs, hunknown, n, hn, hpos, _⟩
          rcases Dict.mem_keys_iff.mp hmem with ⟨serverConfig, hget⟩
          have haccepted : ∃ newConfig,
              serverConfig.updateOmnipaxosConfig kwargs = .ok newConfig := by
            apply ServerConfig.update_accepted hunknown
            · rw [hkwargs]
              exact serverConfig.serverId_pos
            · rw [hn]
              exact hpos
          rcases haccepted with ⟨newConfig, hupdate⟩
          have hok := updated_server_ok_iff.mpr
            ⟨hkwargs, serverConfig, hget, newConfig, hupdate, rfl⟩
          rw [hupdated] at hok
          cases hok
      | ok c' =>
          rcases updated_server_ok_iff.mp hupdated with
            ⟨hkwargs, serverConfig, hget, newConfig, hupdate, hc'⟩
          have hmem := Dict.mem_keys_of_get? hget
          rcases ServerConfig.update_ok hupdate with ⟨hunknown, hnum, hpos⟩
          have hold := (ClusterConfig.validate_ok_iff.mp hc.valid).numClients _ _ hget
          rw [keeps_ok_iff hupdated, ← hc', ClusterConfig.consistent_setServerConfig_iff hc hmem]
          cases hn : kwargs.numClients with
          | none =>
              rw [hn] at hnum
              simp [Breaks, hn, hnum, hold]
          | some n =>
              rw [hn, Option.getD_some] at hnum
              rw [hnum] at hpos
              simp [Breaks, hn, hnum, hmem, hkwargs, hunknown, hpos]
  | changeClientConfig clientId kwargs =>
      cases hupdated : (changeClientConfig clientId kwargs).updated c with
      | error e =>
          refine ⟨fun _ hbreaks => ?_, fun _ => keeps_of_error hupdated⟩
          rcases hbreaks with ⟨hunknown, clientConfig, hget, sid, hsid, hpos, _⟩
          have haccepted : ∃ newConfig,
              clientConfig.updateOmnipaxosConfig kwargs = .ok newConfig := by
            apply ClientConfig.update_accepted hunknown
            rw [hsid]
            exact hpos
          rcases haccepted with ⟨newConfig, hupdate⟩
          have hok := updated_client_ok_iff.mpr ⟨clientConfig, hget, newConfig, hupdate, rfl⟩
          rw [hupdated] at hok
          cases hok
      | ok c' =>
          rcases updated_client_ok_iff.mp hupdated with
            ⟨clientConfig, hget, newConfig, hupdate, hc'⟩
          rcases ClientConfig.update_ok hupdate with ⟨hunknown, hserver, hpos⟩
          rw [keeps_ok_iff hupdated, ← hc', ClusterConfig.consistent_setClientConfig_iff hc hget]
          cases hsid : kwargs.serverId with
          | none =>
              rw [hsid] at hserver
              simp [Breaks, hsid, hserver]
          | some sid =>
              rw [hsid, Option.getD_some] at hserver
              rw [hserver] at hpos
              simp [Breaks, hsid, hserver, hget, hunknown, hpos]

/-- The property holds of each call of the sequence, in the cluster it is made on. A script
may go on after a call that raised. -/
def AtEach (P : OmnipaxosCluster → Call → Prop) : OmnipaxosCluster → List Call → Prop
  | _, [] => True
  | cluster, call :: calls => P cluster call ∧ AtEach P (call.run cluster).2 calls

instance {P : OmnipaxosCluster → Call → Prop} [∀ cluster call, Decidable (P cluster call)] :
    (cluster : OmnipaxosCluster) → (calls : List Call) → Decidable (AtEach P cluster calls)
  | _, [] => inferInstanceAs (Decidable True)
  | cluster, call :: calls =>
      have : Decidable (AtEach P (call.run cluster).2 calls) := instDecidableAtEach _ calls
      inferInstanceAs (Decidable (P cluster call ∧ AtEach P (call.run cluster).2 calls))

theorem consistent_of_keeps (hc : c.Consistent) {call : Call} (h : call.Keeps ⟨c⟩) :
    (call.run ⟨c⟩).2.clusterConfig.Consistent := by
  rw [run_eq]
  cases hupdated : call.updated c with
  | error e => exact hc
  | ok c' => exact (keeps_ok_iff hupdated).mp h

/-- All calls of a sequence keep the rules just if none breaks the configuration it is made on. -/
theorem keeps_at_each_iff (calls : List Call) {cluster : OmnipaxosCluster}
    (hc : cluster.clusterConfig.Consistent) :
    AtEach (fun cluster call => call.Keeps cluster) cluster calls ↔
      AtEach (fun cluster call => ¬ call.Breaks cluster.clusterConfig) cluster calls := by
  induction calls generalizing cluster with
  | nil => exact Iff.rfl
  | cons call calls ih =>
      have hstep := keeps_iff_not_breaks hc call
      constructor
      · intro h
        exact ⟨hstep.mp h.1, (ih (consistent_of_keeps hc h.1)).mp h.2⟩
      · intro h
        have hkeeps := hstep.mpr h.1
        exact ⟨hkeeps, (ih (consistent_of_keeps hc hkeeps)).mpr h.2⟩

end Call

/-- Configurations stay valid just as long as no call sets a wrong client count or moves a
client to another server: `change_cluster_config` checks the whole configuration again, the
other two methods only the part that they replace. -/
theorem configurations_stay_valid_iff {b : OmnipaxosClusterBuilder} {cluster : OmnipaxosCluster}
    (h : b.build = .ok cluster) (calls : List Call) :
    Call.AtEach (fun cluster call => call.Keeps cluster) cluster calls ↔
      Call.AtEach (fun cluster call => ¬ call.Breaks cluster.clusterConfig) cluster calls :=
  Call.keeps_at_each_iff calls (OmnipaxosClusterBuilder.build_consistent h)

/-- Two servers, with a client attached to the first. -/
def twoServers : Except PyError OmnipaxosClusterBuilder := do
  let b := OmnipaxosClusterBuilder.new 1 "user" "server" "client"
  let b ← b.server 1 "us-west2-a" "e2-standard-8" "info"
  let b ← b.server 2 "us-south1-a" "e2-standard-8" "info"
  let b ← b.client 1 "us-west2-a" [⟨10, 5, 0⟩] "e2-standard-4" "info"
  return b.setInitialLeader 1

theorem twoServers_builds {p : OmnipaxosCluster → Bool}
    (h : returns (twoServers >>= OmnipaxosClusterBuilder.build) p = true) :
    ∃ b cluster, twoServers = .ok b ∧ b.build = .ok cluster ∧ p cluster = true := by
  rcases exists_ok_of_returns h with ⟨cluster, hcluster, hp⟩
  rcases bind_ok_iff.mp hcluster with ⟨b, hb, hbuild⟩
  exact ⟨b, cluster, hb, hbuild, hp⟩

/-- None of three calls on it breaks it. -/
theorem configurations_stay_valid_two_servers : ∃ b cluster,
    twoServers = .ok b ∧ b.build = .ok cluster ∧
      Call.AtEach (fun cluster call => call.Keeps cluster) cluster
        [.changeServerConfig 1 { listenPort := some 9000, numClients := some 1 },
          .changeClientConfig 3 {},
          .changeClusterConfig { initialLeader := some 2 }] := by
  have heval : returns (twoServers >>= OmnipaxosClusterBuilder.build) (fun cluster =>
      decide (Call.AtEach (fun cluster call => ¬ call.Breaks cluster.clusterConfig) cluster
        [.changeServerConfig 1 { listenPort := some 9000, numClients := some 1 },
          .changeClientConfig 3 {},
          .changeClusterConfig { initialLeader := some 2 }])) = true := by decide +kernel
  rcases twoServers_builds heval with ⟨b, cluster, hb, hbuild, hcalls⟩
  exact ⟨b, cluster, hb, hbuild,
    (configurations_stay_valid_iff hbuild _).mpr (of_decide_eq_true hcalls)⟩

/-- Server 1 is told to wait for five clients, and there is one. -/
theorem wrong_client_count_accepted : ∃ b cluster,
    twoServers = .ok b ∧ b.build = .ok cluster ∧
      ¬ Call.AtEach (fun cluster call => call.Keeps cluster) cluster
        [.changeServerConfig 1 { numClients := some 5 }] := by
  have heval : returns (twoServers >>= OmnipaxosClusterBuilder.build) (fun cluster =>
      decide ((Call.changeServerConfig 1 { numClients := some 5 }).Breaks cluster.clusterConfig)) =
        true := by decide +kernel
  rcases twoServers_builds heval with ⟨b, cluster, hb, hbuild, hbreaks⟩
  refine ⟨b, cluster, hb, hbuild, ?_⟩
  intro hkeeps
  have hconsistent := OmnipaxosClusterBuilder.build_consistent hbuild
  exact (Call.keeps_iff_not_breaks hconsistent _).mp hkeeps.1 (of_decide_eq_true hbreaks)

end Deployment

end OmnipaxosKv
