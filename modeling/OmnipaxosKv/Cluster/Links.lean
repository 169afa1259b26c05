import OmnipaxosKv.Cluster.Cluster

/-! # The links between servers and clients

In every run each server and each endpoint runs as it would alone, and the messages that
came in at one end of a connection are the ones its reader took out of the other end's
pipe.
-/

namespace OmnipaxosKv

namespace Cluster

open Server Client
open Server.OmniPaxosServer (NodeStep node nodeUpdate nodeGuard Still)

variable {Ω M : Type} {lib : OmniPaxos Ω M} {decided : Ω → List Command} {cfg : Config}
  {t : Transport} {s : State Ω M}

namespace State

/-! ## Frames of the two primitives -/

/-- A step of a server. -/
@[simp] theorem servers_onServer_self (n : NodeId) (l : NodeStep M) (s : State Ω M) :
    (s.onServer lib cfg n l).servers n = nodeUpdate lib (cfg.server n) l (s.servers n) := by
  simp [onServer]

theorem servers_onServer_of_ne {n m : NodeId} (h : m ≠ n) (l : NodeStep M) (s : State Ω M) :
    (s.onServer lib cfg n l).servers m = s.servers m := by
  simp [onServer, Function.update_of_ne h]

/-- A step of an endpoint. -/
@[simp] theorem endpoints_onEndpoint_self (e : EndpointId) (l : EndpointStep) (s : State Ω M) :
    (s.onEndpoint cfg e l).endpoints e = (s.endpoints e).update (cfg.activeServer e) l := by
  simp [onEndpoint]

theorem endpoints_onEndpoint_of_ne {e f : EndpointId} (h : f ≠ e) (l : EndpointStep)
    (s : State Ω M) : (s.onEndpoint cfg e l).endpoints f = s.endpoints f := by
  simp [onEndpoint, Function.update_of_ne h]

@[simp] theorem endpoints_onServer (n : NodeId) (l : NodeStep M) (s : State Ω M) :
    (s.onServer lib cfg n l).endpoints = s.endpoints := rfl

@[simp] theorem servers_onEndpoint (e : EndpointId) (l : EndpointStep) (s : State Ω M) :
    (s.onEndpoint cfg e l).servers = s.servers := rfl

/-- What holds of every server still does when one takes a step after which it holds. -/
theorem forall_onServer {P : NodeId → OmniPaxosServer Ω M → Prop} {n : NodeId} {l : NodeStep M}
    (hn : P n (nodeUpdate lib (cfg.server n) l (s.servers n))) (h : ∀ m, P m (s.servers m)) :
    ∀ m, P m ((s.onServer lib cfg n l).servers m) :=
  (Function.forall_update_iff s.servers P).mpr ⟨hn, fun m _ => h m⟩

theorem forall_onEndpoint {P : EndpointId → Endpoint → Prop} {e : EndpointId} {l : EndpointStep}
    (he : P e ((s.endpoints e).update (cfg.activeServer e) l)) (h : ∀ f, P f (s.endpoints f)) :
    ∀ f, P f ((s.onEndpoint cfg e l).endpoints f) :=
  (Function.forall_update_iff s.endpoints P).mpr ⟨he, fun f _ => h f⟩

/-- Every server is reachable on its own. -/
def NodesReachable (lib : OmniPaxos Ω M) (cfg : Config) (t : Transport) (s : State Ω M) : Prop :=
  ∀ n, (node lib (cfg.server n) t).Reachable (s.servers n)

theorem NodesReachable.onServer (h : s.NodesReachable lib cfg t) {n : NodeId} {l : NodeStep M}
    (hg : (node lib (cfg.server n) t).guard l (s.servers n)) :
    (s.onServer lib cfg n l).NodesReachable lib cfg t :=
  forall_onServer (P := fun m v => (node lib (cfg.server m) t).Reachable v) (.step l (h n) hg) h

end State

open State

/-- Every endpoint keeps what it would keep alone. -/
def EndpointsSound (cfg : Config) (s : State Ω M) : Prop :=
  ∀ e, (s.endpoints e).Sound (cfg.activeServer e)

/-! ## Each party on its own -/

/-- In every action each server stays reachable on its own. -/
theorem nodesReachable_act (h : s.NodesReachable lib cfg t) {a : Action}
    (hg : s.guard lib cfg t a) : (s.act lib cfg a).NodesReachable lib cfg t := by
  cases a with
  | server n l => exact h.onServer hg.2
  | network n l => exact h.onServer hg.2.2
  | shim e l => exact h
  | bench e l => exact h
  | connection e l => exact h
  | register e => exact h.onServer (l := .network .registerClient) ⟨trivial, fun _ => hg.2.2⟩
  | clusterArrive sender receiver =>
      rcases hg with ⟨_, _, hnext, hroom, hlive⟩
      rcases Option.isSome_iff_exists.mp hnext with ⟨msg, hmsg⟩
      simp only [act, hmsg]
      have hforward := h.onServer (n := sender) (l := .peerForward receiver) ⟨hnext, fun hl => hl.elim⟩
      refine hforward.onServer (l := .clusterArrive sender msg) ?_
      -- a server's own queue is not touched by the forward
      have hsame : ∀ n, ((s.onServer lib cfg sender (.peerForward receiver)).servers
          n).network.clusterMessages = (s.servers n).network.clusterMessages ∧
          ((s.onServer lib cfg sender (.peerForward receiver)).servers n).crashed =
            (s.servers n).crashed := by
        intro n
        by_cases hn : n = sender
        · subst hn
          rw [servers_onServer_self]
          exact ⟨rfl, rfl⟩
        · rw [servers_onServer_of_ne hn]
          exact ⟨rfl, rfl⟩
      refine ⟨?_, fun _ => ?_⟩
      · rw [nodeGuard, (hsame receiver).1]
        exact hroom
      · rw [(hsame receiver).2]
        exact hlive
  | clusterLose sender receiver =>
      exact h.onServer (l := .peerForward receiver) ⟨hg.2.2, fun hl => hl.elim⟩
  | clientArrive e =>
      rcases hg with ⟨hid, hnext, hroom, hlive⟩
      rcases Option.isSome_iff_exists.mp hid with ⟨k, hk⟩
      rcases Option.isSome_iff_exists.mp hnext with ⟨msg, hmsg⟩
      simp only [act, hk, hmsg]
      have h' : (s.onEndpoint cfg e .handOn).NodesReachable lib cfg t := h
      exact h'.onServer (l := .clientArrive k msg) ⟨hroom, fun _ => hlive⟩
  | serverArrive e =>
      rcases hg with ⟨hnext, _, _⟩
      cases hk : s.clientId e with
      | none =>
          rw [nextToClient, hk] at hnext
          cases hnext
      | some k =>
          rcases Option.isSome_iff_exists.mp hnext with ⟨msg, hmsg⟩
          simp only [act, hk, hmsg]
          have hforward : (((s.serverOf cfg e).network.toClient k).next?).isSome := by
            simp only [nextToClient, hk] at hnext
            exact hnext
          exact h.onServer (l := .clientForward k) ⟨hforward, fun hl => hl.elim⟩

/-- An action is at most one step of an endpoint. -/
theorem endpoints_act {a : Action} (hg : s.guard lib cfg t a) (e : EndpointId) :
    (s.act lib cfg a).endpoints e = s.endpoints e ∨
      ∃ l, (s.endpoints e).guard (cfg.activeServer e) t l ∧
        (s.act lib cfg a).endpoints e = (s.endpoints e).update (cfg.activeServer e) l := by
  have hone : ∀ {f : EndpointId} {l : EndpointStep},
      (s.endpoints f).guard (cfg.activeServer f) t l →
      (s.onEndpoint cfg f l).endpoints e = s.endpoints e ∨
        ∃ l', (s.endpoints e).guard (cfg.activeServer e) t l' ∧
          (s.onEndpoint cfg f l).endpoints e = (s.endpoints e).update (cfg.activeServer e) l' := by
    intro f l hg
    by_cases hf : e = f
    · subst hf
      exact .inr ⟨l, hg, endpoints_onEndpoint_self e l s⟩
    · exact .inl (endpoints_onEndpoint_of_ne hf l s)
  cases a with
  | server n l => exact .inl rfl
  | network n l => exact .inl rfl
  | shim f l => exact hone (l := .shim l) hg
  | bench f l => exact hone (l := .bench l) hg
  | connection f l => exact hone (l := .connection l) hg
  | register f => exact .inl rfl
  | clusterArrive sender receiver =>
      simp only [act]
      split <;> exact .inl rfl
  | clusterLose sender receiver => exact .inl rfl
  | clientArrive f =>
      rcases hg with ⟨_, hnext, _, _⟩
      simp only [act]
      split
      · exact hone (l := .handOn) hnext
      · exact .inl rfl
  | serverArrive f =>
      simp only [act]
      split
      · next k msg _ _ => exact hone (l := .arrive msg) hg.2.2
      · exact .inl rfl

/-- Every action keeps the endpoints sound. -/
theorem endpointsSound_act (h : EndpointsSound cfg s) {a : Action} (hg : s.guard lib cfg t a) :
    EndpointsSound cfg (s.act lib cfg a) := by
  intro e
  rcases endpoints_act hg e with heq | ⟨l, hl, heq⟩
  · rw [heq]
    exact h e
  · rw [heq]
    exact (h e).update hl

/-! ## Between the parties -/

/-- An endpoint's connection as its server sees it has not changed. -/
structure EndpointStill (activeServer : NodeId) (e e' : Endpoint) : Prop where
  delivered : (e'.pipe activeServer).delivered = (e.pipe activeServer).delivered
  received : e'.network.received = e.network.received

theorem endpointStill_refl (activeServer : NodeId) (e : Endpoint) :
    EndpointStill activeServer e e := ⟨rfl, rfl⟩

structure Linked (cfg : Config) (s : State Ω M) : Prop where
  toServer : ∀ e k, s.clientId e = some k →
    messagesTo k (s.serverOf cfg e).ledger.arrived =
      ((s.endpoints e).pipe (cfg.activeServer e)).delivered
  toClient : ∀ e k, s.clientId e = some k →
    (s.endpoints e).network.received = ((s.serverOf cfg e).network.toClient k).delivered
  fresh : ∀ e, s.clientId e = none →
    ((s.endpoints e).pipe (cfg.activeServer e)).delivered = [] ∧
      (s.endpoints e).network.received = []
  sender : ∀ n k msg, (k, msg) ∈ (s.servers n).ledger.arrived →
    ∃ e, cfg.activeServer e = n ∧ s.clientId e = some k
  registered : ∀ e k, s.clientId e = some k → (s.serverOf cfg e).network.Registered k
  known : ∀ n k, (s.servers n).network.Registered k →
    ∃ e, cfg.activeServer e = n ∧ s.clientId e = some k
  distinct : ∀ e e' k, cfg.activeServer e = cfg.activeServer e' → s.clientId e = some k →
    s.clientId e' = some k → e = e'
  home : ∀ e k, s.clientId e = some k → cfg.activeServer e ∈ cfg.nodes

/-- In a new cluster no one is registered. -/
theorem linked_new (cfg : Config) (ω : NodeId → Ω) : Linked cfg (State.new cfg ω : State Ω M) where
  toServer := fun _ _ h => by cases h
  toClient := fun _ _ h => by cases h
  fresh := by
    intro e _
    simp only [State.new]
    cases cfg.kind e <;> exact ⟨rfl, rfl⟩
  sender := fun _ _ _ h => by cases h
  registered := fun _ _ h => by cases h
  known := by
    intro n k hk
    exact absurd (hk.1.trans hk.2) (by simp [State.new, OmniPaxosServer.new, Server.Network.new])
  distinct := fun _ _ _ _ h => by cases h
  home := fun _ _ h => by cases h

/-- Steps that leave the connections alone as the other side sees them. -/
theorem Linked.frame (h : Linked cfg s) (s' : State Ω M)
    (hservers : ∀ n, (s.servers n).Still (s'.servers n))
    (hendpoints : ∀ e, EndpointStill (cfg.activeServer e) (s.endpoints e) (s'.endpoints e))
    (hid : s'.clientId = s.clientId) : Linked cfg s' where
  toServer := by
    intro e k hk
    rw [hid] at hk
    rw [serverOf, (hservers _).arrived, (hendpoints e).delivered]
    exact h.toServer e k hk
  toClient := by
    intro e k hk
    rw [hid] at hk
    rw [serverOf, (hservers _).delivered, (hendpoints e).received]
    exact h.toClient e k hk
  fresh := by
    intro e he
    rw [hid] at he
    rw [(hendpoints e).delivered, (hendpoints e).received]
    exact h.fresh e he
  sender := by
    intro n k msg hmem
    rw [(hservers n).arrived] at hmem
    rw [hid]
    exact h.sender n k msg hmem
  registered := by
    intro e k hk
    rw [hid] at hk
    have hreg := h.registered e k hk
    rw [Network.Registered, serverOf, (hservers _).maxClientId]
    exact hreg
  known := by
    intro n k hk
    rw [Network.Registered, (hservers n).maxClientId] at hk
    rw [hid]
    exact h.known n k hk
  distinct := by
    rw [hid]
    exact h.distinct
  home := by
    rw [hid]
    exact h.home

theorem Linked.known_of_eq (h : Linked cfg s) {servers : NodeId → OmniPaxosServer Ω M}
    (hmax : ∀ n, (servers n).network.maxClientId = (s.servers n).network.maxClientId) :
    ∀ n k, (servers n).network.Registered k → ∃ e, cfg.activeServer e = n ∧ s.clientId e = some k := by
  intro n k hk
  rw [Server.Network.Registered, hmax] at hk
  exact h.known n k hk

theorem Linked.onServer (h : Linked cfg s) {n : NodeId} {l : NodeStep M}
    (hstill : (s.servers n).Still (nodeUpdate lib (cfg.server n) l (s.servers n))) :
    Linked cfg (s.onServer lib cfg n l) := by
  refine h.frame _ ?_ (fun e => endpointStill_refl _ _) rfl
  exact forall_onServer (P := fun m v => (s.servers m).Still v) hstill
    fun m => OmniPaxosServer.still_refl _

/-- An endpoint that is still keeps the links. -/
theorem Linked.onEndpoint (h : Linked cfg s) {e : EndpointId} {l : EndpointStep}
    (hstill : EndpointStill (cfg.activeServer e) (s.endpoints e)
      ((s.endpoints e).update (cfg.activeServer e) l)) :
    Linked cfg (s.onEndpoint cfg e l) := by
  refine h.frame _ (fun n => OmniPaxosServer.still_refl _) ?_ rfl
  exact forall_onEndpoint (P := fun f => EndpointStill (cfg.activeServer f) (s.endpoints f)) hstill
    fun f => endpointStill_refl _ _

/-- What holds of each party, and between them. -/
structure Coherent (lib : OmniPaxos Ω M) (cfg : Config) (t : Transport) (s : State Ω M) :
    Prop where
  nodes : s.NodesReachable lib cfg t
  endpoints : EndpointsSound cfg s
  linked : Linked cfg s

theorem Coherent.sound (h : Coherent lib cfg t s) (hlib : lib.Lawful decided) (n : NodeId) :
    (s.servers n).Sound decided (cfg.server n) :=
  OmniPaxosServer.sound_node hlib (h.nodes n)

/-- The server reads the registration of an endpoint, under the next id. -/
theorem Coherent.linked_register (h : Coherent lib cfg t s) (hlib : lib.Lawful decided)
    {e : EndpointId} (hhome : cfg.activeServer e ∈ cfg.nodes) (hnone : s.clientId e = none) :
    Linked cfg (s.act lib cfg (.register e)) := by
  have hserver : ∀ n, ((s.act lib cfg (.register e)).servers n).ledger = (s.servers n).ledger ∧
      ((s.act lib cfg (.register e)).servers n).network.toClient =
        (s.servers n).network.toClient :=
    forall_onServer (P := fun n v => v.ledger = (s.servers n).ledger ∧
      v.network.toClient = (s.servers n).network.toClient) ⟨rfl, rfl⟩ fun _ => ⟨rfl, rfl⟩
  have hmax : ∀ n, ((s.act lib cfg (.register e)).servers n).network.maxClientId =
      if n = cfg.activeServer e then (s.servers n).network.maxClientId + 1
      else (s.servers n).network.maxClientId := by
    intro n
    simp only [act]
    by_cases hn : n = cfg.activeServer e
    · subst hn
      rw [servers_onServer_self, if_pos rfl]
      rfl
    · rw [servers_onServer_of_ne hn, if_neg hn]
  have hgrow : ∀ n k, (s.servers n).network.Registered k →
      ((s.act lib cfg (.register e)).servers n).network.Registered k := by
    intro n k hk
    rw [Server.Network.Registered, hmax]
    split
    · exact ⟨hk.1, Nat.le_succ_of_le hk.2⟩
    · exact hk
  have hid : ∀ f k, (s.act lib cfg (.register e)).clientId f = some k →
      (f ≠ e ∧ s.clientId f = some k) ∨
        (f = e ∧ k = (s.serverOf cfg e).network.maxClientId + 1) := by
    intro f k hk
    simp only [act] at hk
    by_cases hf : f = e
    · subst hf
      rw [Function.update_self] at hk
      exact .inr ⟨rfl, (Option.some.inj hk).symm⟩
    · rw [Function.update_of_ne hf] at hk
      exact .inl ⟨hf, hk⟩
  have hkeep : ∀ f k, s.clientId f = some k →
      (s.act lib cfg (.register e)).clientId f = some k := by
    intro f k hk
    have hf : f ≠ e := by
      intro hf
      subst hf
      rw [hnone] at hk
      cases hk
    simp only [act]
    rw [Function.update_of_ne hf]
    exact hk
  -- nobody has used the new id
  have hunused : ∀ n k, n = cfg.activeServer e → k = (s.serverOf cfg e).network.maxClientId + 1 →
      ¬ (s.servers n).network.Registered k := by
    intro n k hn hk hreg
    subst hn hk
    have hle := hreg.2
    rw [serverOf] at hle
    lia
  -- in each part: an endpoint that was registered before, or `e` under its new id
  have hfresh := h.linked.fresh e hnone
  refine ⟨?_, ?_, ?_, ?_, ?_, ?_, ?_, ?_⟩
  · intro f k hk
    rw [serverOf, (hserver _).1]
    rcases hid f k hk with ⟨_, hold⟩ | ⟨rfl, hnew⟩
    · exact h.linked.toServer f k hold
    · refine Eq.trans ?_ hfresh.1.symm
      rw [List.eq_nil_iff_forall_not_mem]
      intro msg hmsg
      rcases h.linked.sender _ k msg (mem_messagesTo.mp hmsg) with ⟨f', hf', hk'⟩
      have hreg := h.linked.registered f' k hk'
      rw [serverOf, hf'] at hreg
      exact hunused _ k rfl hnew hreg
  · intro f k hk
    rw [serverOf, (hserver _).2]
    rcases hid f k hk with ⟨_, hold⟩ | ⟨rfl, hnew⟩
    · exact h.linked.toClient f k hold
    · refine Eq.trans hfresh.2 ?_
      have hcarries := (h.sound hlib (cfg.activeServer f)).carries
      have hacc := hcarries.unregistered k (hunused _ k rfl hnew)
      have hpre := (List.prefix_append _ _).trans (hcarries.streamed k).arriving
      rw [hacc] at hpre
      exact (List.prefix_nil.mp hpre).symm
  · intro f hf
    have hold : s.clientId f = none := by
      by_cases hfe : f = e
      · rw [hfe]
        exact hnone
      · simp only [act] at hf
        rw [Function.update_of_ne hfe] at hf
        exact hf
    exact h.linked.fresh f hold
  · intro n k msg hmem
    rw [(hserver n).1] at hmem
    rcases h.linked.sender n k msg hmem with ⟨f, hf, hk⟩
    exact ⟨f, hf, hkeep f k hk⟩
  · intro f k hk
    rcases hid f k hk with ⟨_, hold⟩ | ⟨rfl, hnew⟩
    · exact hgrow _ k (h.linked.registered f k hold)
    · rw [Server.Network.Registered, serverOf, hmax, if_pos rfl, hnew]
      exact ⟨Nat.succ_pos _, le_refl _⟩
  · intro n k hk
    by_cases hold : (s.servers n).network.Registered k
    · rcases h.linked.known n k hold with ⟨f, hf, hkf⟩
      exact ⟨f, hf, hkeep f k hkf⟩
    · rw [Server.Network.Registered, hmax] at hk
      split at hk
      · next hn =>
          have heq : k = (s.serverOf cfg e).network.maxClientId + 1 := by
            by_contra hne
            refine hold ⟨hk.1, ?_⟩
            have hle := hk.2
            rw [serverOf, ← hn] at hne
            lia
          refine ⟨e, hn.symm, ?_⟩
          simp only [act]
          rw [Function.update_self, heq]
      · exact absurd hk hold
  · intro f f' k hsame hk hk'
    have hclash : ∀ g, s.clientId g = some k → cfg.activeServer g = cfg.activeServer e →
        k ≠ (s.serverOf cfg e).network.maxClientId + 1 := by
      intro g hg hge heq
      have hreg := h.linked.registered g k hg
      rw [serverOf, hge] at hreg
      exact hunused _ k rfl heq hreg
    rcases hid f k hk with ⟨_, hold⟩ | ⟨rfl, hnew⟩
    · rcases hid f' k hk' with ⟨_, hold'⟩ | ⟨rfl, hnew'⟩
      · exact h.linked.distinct f f' k hsame hold hold'
      · exact absurd hnew' (hclash f hold hsame)
    · rcases hid f' k hk' with ⟨_, hold'⟩ | ⟨rfl, _⟩
      · exact absurd hnew (hclash f' hold' hsame.symm)
      · rfl
  · intro f k hk
    rcases hid f k hk with ⟨_, hold⟩ | ⟨rfl, _⟩
    · exact h.linked.home f k hold
    · exact hhome

/-- The reader at the server hands on a message of client `k`. -/
theorem Linked.clientArrive (h : Linked cfg s) {e : EndpointId} {k : ClientId} {msg : ClientMessage}
    (hsound : EndpointsSound cfg s) (hk : s.clientId e = some k)
    (hmsg : s.nextToServer cfg e = some msg) :
    Linked cfg ((s.onEndpoint cfg e .handOn).onServer lib cfg (cfg.activeServer e)
      (.clientArrive k msg)) := by
  -- the message is among what this server has got, and nothing else is
  have harrived : ∀ n, (((s.onEndpoint cfg e .handOn).onServer lib cfg (cfg.activeServer e)
      (.clientArrive k msg)).servers n).ledger.arrived = (s.servers n).ledger.arrived ++
        if n = cfg.activeServer e then [(k, msg)] else [] := by
    intro n
    by_cases hn : n = cfg.activeServer e
    · subst hn
      rw [servers_onServer_self, if_pos rfl]
      simp [nodeUpdate, Ledger.arrived, OmniPaxosServer.ledger]
    · rw [servers_onServer_of_ne hn, if_neg hn, List.append_nil]
      rfl
  have hnetwork : ∀ n, (((s.onEndpoint cfg e .handOn).onServer lib cfg (cfg.activeServer e)
      (.clientArrive k msg)).servers n).network.toClient = (s.servers n).network.toClient ∧
      (((s.onEndpoint cfg e .handOn).onServer lib cfg (cfg.activeServer e)
      (.clientArrive k msg)).servers n).network.maxClientId = (s.servers n).network.maxClientId :=
    forall_onServer (P := fun n v => v.network.toClient = (s.servers n).network.toClient ∧
      v.network.maxClientId = (s.servers n).network.maxClientId) ⟨rfl, rfl⟩ fun _ => ⟨rfl, rfl⟩
  -- an endpoint that hands a message on has received no more
  have hreceived : ∀ f, ((s.onEndpoint cfg e .handOn).endpoints f).network.received =
      (s.endpoints f).network.received := by
    intro f
    by_cases hf : f = e
    · subst hf
      rw [endpoints_onEndpoint_self, Endpoint.received_update (hsound f), List.append_nil]
    · rw [endpoints_onEndpoint_of_ne hf]
  refine ⟨?_, ?_, ?_, ?_, ?_, h.known_of_eq ?_, h.distinct, h.home⟩
  -- what the client delivered has grown by the message, as has what the server got
  · intro f k' hk'
    change s.clientId f = some k' at hk'
    rw [serverOf, harrived, messagesTo_append, endpoints_onServer]
    by_cases hf : f = e
    · subst hf
      obtain rfl : k = k' := Option.some.inj (hk.symm.trans hk')
      rw [if_pos rfl, messagesTo_singleton, if_pos rfl, endpoints_onEndpoint_self,
        Endpoint.delivered_handOn hmsg]
      exact congrArg (· ++ [msg]) (h.toServer f k hk)
    · -- another endpoint of this server has another id
      rw [endpoints_onEndpoint_of_ne hf]
      have hnil : messagesTo k' (if cfg.activeServer f = cfg.activeServer e then [(k, msg)] else [])
          = [] := by
        split
        · next hhome =>
            have hne : k ≠ k' := by
              intro heq
              subst heq
              exact hf (h.distinct f e k hhome hk' hk)
            rw [messagesTo_singleton, if_neg hne]
        · rfl
      rw [hnil, List.append_nil]
      exact h.toServer f k' hk'
  -- nothing has come back
  · intro f k' hk'
    rw [serverOf, (hnetwork _).1, endpoints_onServer, hreceived]
    exact h.toClient f k' hk'
  · intro f hf
    change s.clientId f = none at hf
    have hne : f ≠ e := by
      intro heq
      subst heq
      rw [hk] at hf
      cases hf
    rw [endpoints_onServer, endpoints_onEndpoint_of_ne hne]
    exact h.fresh f hf
  -- the new message is that of a registered client
  · intro n k' msg' hmem
    rw [harrived] at hmem
    rcases List.mem_append.mp hmem with hold | hnew
    · exact h.sender n k' msg' hold
    · split at hnew
      · next hn =>
          obtain ⟨rfl, _⟩ := Prod.mk.inj (List.mem_singleton.mp hnew)
          exact ⟨e, hn.symm, hk⟩
      · cases hnew
  · intro f k' hk'
    have hreg := h.registered f k' hk'
    rw [Server.Network.Registered, serverOf, (hnetwork _).2]
    exact hreg
  · exact fun n => (hnetwork n).2

/-- The reader of an endpoint hands on a message of its server. -/
theorem Linked.serverArrive (h : Linked cfg s) {e : EndpointId} {k : ClientId} {msg : ServerMessage}
    (hsound : EndpointsSound cfg s) (hk : s.clientId e = some k)
    (hmsg : s.nextToClient cfg e = some msg) :
    Linked cfg ((s.onServer lib cfg (cfg.activeServer e) (.clientForward k)).onEndpoint cfg e
      (.arrive msg)) := by
  have hnext : ((s.servers (cfg.activeServer e)).network.toClient k).next? = some msg := by
    simp only [nextToClient, hk] at hmsg
    exact hmsg
  -- only the pipe to the client moves at the server
  have hserver : ∀ n, ((s.onServer lib cfg (cfg.activeServer e) (.clientForward k)).servers
      n).ledger = (s.servers n).ledger ∧
      ((s.onServer lib cfg (cfg.activeServer e) (.clientForward k)).servers n).network.maxClientId
        = (s.servers n).network.maxClientId :=
    forall_onServer (P := fun n v => v.ledger = (s.servers n).ledger ∧
      v.network.maxClientId = (s.servers n).network.maxClientId) ⟨rfl, rfl⟩ fun _ => ⟨rfl, rfl⟩
  have hdelivered : ∀ n k', (((s.onServer lib cfg (cfg.activeServer e) (.clientForward k)).servers
      n).network.toClient k').delivered = ((s.servers n).network.toClient k').delivered ++
        if n = cfg.activeServer e ∧ k' = k then [msg] else [] := by
    intro n k'
    by_cases hn : n = cfg.activeServer e
    · subst hn
      rw [servers_onServer_self]
      simp only [nodeUpdate]
      by_cases hk' : k' = k
      · subst hk'
        rw [Function.update_self, Pipe.delivered_forward hnext, if_pos ⟨trivial, rfl⟩]
      · rw [Function.update_of_ne hk', if_neg (fun hc => hk' hc.2), List.append_nil]
    · rw [servers_onServer_of_ne hn, if_neg (fun hc => hn hc.1), List.append_nil]
  -- and only the endpoint of this client receives the message
  have hendpoint : ∀ f, (((s.onServer lib cfg (cfg.activeServer e) (.clientForward k)).onEndpoint
      cfg e (.arrive msg)).endpoints f).network.received = (s.endpoints f).network.received ++
        (if f = e then [msg] else []) ∧
      ((((s.onServer lib cfg (cfg.activeServer e) (.clientForward k)).onEndpoint cfg e
        (.arrive msg)).endpoints f).pipe (cfg.activeServer f)).delivered =
        ((s.endpoints f).pipe (cfg.activeServer f)).delivered := by
    intro f
    by_cases hf : f = e
    · subst hf
      rw [endpoints_onEndpoint_self, endpoints_onServer, if_pos rfl]
      exact ⟨Endpoint.received_update (hsound f) (.arrive msg),
        Endpoint.delivered_update (hsound f) (by simp)⟩
    · rw [endpoints_onEndpoint_of_ne hf, endpoints_onServer, if_neg hf, List.append_nil]
      exact ⟨rfl, rfl⟩
  refine ⟨?_, ?_, ?_, ?_, ?_, h.known_of_eq ?_, h.distinct, h.home⟩
  · intro f k' hk'
    rw [serverOf, servers_onEndpoint, (hserver _).1, (hendpoint f).2]
    exact h.toServer f k' hk'
  · intro f k' hk'
    change s.clientId f = some k' at hk'
    rw [serverOf, servers_onEndpoint, hdelivered, (hendpoint f).1]
    by_cases hf : f = e
    · subst hf
      obtain rfl : k = k' := Option.some.inj (hk.symm.trans hk')
      rw [if_pos rfl, if_pos ⟨rfl, rfl⟩]
      exact congrArg (· ++ [msg]) (h.toClient f k hk)
    -- the pipe belongs to one client
    · have hother : ¬ (cfg.activeServer f = cfg.activeServer e ∧ k' = k) := by
        intro hc
        rcases hc with ⟨hhome, rfl⟩
        exact hf (h.distinct f e k' hhome hk' hk)
      rw [if_neg hf, if_neg hother, List.append_nil, List.append_nil]
      exact h.toClient f k' hk'
  -- an endpoint that is not registered is another one
  · intro f hf
    change s.clientId f = none at hf
    have hne : f ≠ e := by
      intro heq
      subst heq
      rw [hk] at hf
      cases hf
    rw [(hendpoint f).1, (hendpoint f).2, if_neg hne, List.append_nil]
    exact h.fresh f hf
  · intro n k' msg' hmem
    rw [servers_onEndpoint, (hserver n).1] at hmem
    exact h.sender n k' msg' hmem
  · intro f k' hk'
    have hreg := h.registered f k' hk'
    rw [Server.Network.Registered, serverOf, servers_onEndpoint, (hserver _).2]
    exact hreg
  · intro n
    rw [servers_onEndpoint]
    exact (hserver n).2

/-- Every action keeps the links. -/
theorem Coherent.linked_act (h : Coherent lib cfg t s) (hlib : lib.Lawful decided) {a : Action}
    (hg : s.guard lib cfg t a) : Linked cfg (s.act lib cfg a) := by
  -- all but three steps of a server leave alone what links it to its clients
  have hnode : ∀ {n : NodeId} {l : NodeStep M}, nodeGuard (cfg.server n) t l (s.servers n) →
      l ≠ .network .registerClient → (∀ k msg, l ≠ .clientArrive k msg) →
      (∀ k, l ≠ .clientForward k) → Linked cfg (s.onServer lib cfg n l) := by
    intro n l hg hregister harrive hforward
    exact h.linked.onServer
      (OmniPaxosServer.still_node hlib (h.sound hlib n) hg hregister harrive hforward)
  -- and all but two of an endpoint
  have hendpoint : ∀ {e : EndpointId} {l : EndpointStep}, l ≠ .handOn →
      (∀ msg, l ≠ .arrive msg) → Linked cfg (s.onEndpoint cfg e l) := by
    intro e l hhandOn harrive
    refine h.linked.onEndpoint ⟨Endpoint.delivered_update (h.endpoints e) hhandOn, ?_⟩
    rw [Endpoint.received_update (h.endpoints e)]
    cases l with
    | arrive msg => exact absurd rfl (harrive msg)
    | _ => exact List.append_nil _
  cases a with
  | server n l => exact hnode hg.2.1 (by simp) (by simp) (by simp)
  | network n l => exact hnode hg.2.2.1 (by simpa using hg.2.1) (by simp) (by simp)
  | shim e l =>
      exact (hendpoint (l := .shim l) (by simp) (by simp)).frame _
        (fun _ => OmniPaxosServer.still_refl _) (fun _ => endpointStill_refl _ _) rfl
  | bench e l => exact hendpoint (by simp) (by simp)
  | connection e l => exact hendpoint (by simp) (by simp)
  | register e => exact h.linked_register hlib hg.1 hg.2.1
  | clusterArrive sender receiver =>
      rcases Option.isSome_iff_exists.mp hg.2.2.1 with ⟨msg, hmsg⟩
      have hforward := hnode (n := sender) (l := .peerForward receiver) hg.2.2.1 (by simp) (by simp)
        (by simp)
      simp only [act, hmsg]
      exact hforward.onServer ⟨rfl, fun _ => rfl, rfl⟩
  | clusterLose sender receiver => exact hnode hg.2.2 (by simp) (by simp) (by simp)
  | clientArrive e =>
      rcases Option.isSome_iff_exists.mp hg.1 with ⟨k, hk⟩
      rcases Option.isSome_iff_exists.mp hg.2.1 with ⟨msg, hmsg⟩
      simp only [act, hk, hmsg]
      exact h.linked.clientArrive h.endpoints hk hmsg
  | serverArrive e =>
      rcases Option.isSome_iff_exists.mp hg.1 with ⟨msg, hmsg⟩
      cases hk : s.clientId e with
      | none => simp [nextToClient, hk] at hmsg
      | some k =>
          simp only [act, hk, hmsg]
          exact h.linked.serverArrive h.endpoints hk hmsg

/-- Every reachable state of the cluster is coherent, whatever the library does. -/
theorem coherent_reachable (hlib : lib.Lawful decided)
    (hr : (cluster lib decided cfg t).Reachable s) : Coherent lib cfg t s := by
  refine (cluster lib decided cfg t).invariant (Coherent lib cfg t) ?_ ?_ s hr
  · intro s hs
    rcases hs with ⟨ω, _, rfl⟩
    exact ⟨fun n => .start ⟨ω n, rfl⟩, fun e => Endpoint.sound_new _ _, linked_new cfg ω⟩
  · intro l s _ hg h
    have hact : Coherent lib cfg t (s.act lib cfg l.action) :=
      ⟨nodesReachable_act h.nodes hg, endpointsSound_act h.endpoints hg, h.linked_act hlib hg⟩
    exact ⟨hact.nodes, hact.endpoints, hact.linked.frame _
      (fun _ => OmniPaxosServer.still_refl _) (fun _ => endpointStill_refl _ _) rfl⟩

end Cluster

end OmnipaxosKv
