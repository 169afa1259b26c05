import OmnipaxosKv.Client.Started
import OmnipaxosKv.Cluster.Responses
import OmnipaxosKv.Server.StartSignals

/-! # The start signal comes first

The initial leader starts its clients once, when its takeover succeeds, and every other
server once for the one signal it has from the leader. A client sends nothing before its
start signal, so no response can be queued to it before.
-/

namespace OmnipaxosKv

namespace Cluster

open Server Client
open Server.OmniPaxosServer (NodeStep node nodeUpdate nodeGuard isStartSignal peerStarts)

variable {Ω M : Type} {lib : OmniPaxos Ω M} {decided : Ω → List Command} {cfg : Config}
  {t : Transport} {s : State Ω M}

open State

/-! ## At most one start signal per server -/

/-- One for the initial leader once it has left the bootstrap loop. -/
def owed (cfg : Server.Config) (s : OmniPaxosServer Ω M) : ℕ :=
  if cfg.initialLeader = cfg.serverId ∧ s.phase = .running then 1 else 0

/-- The start signals that the leader's pipe has handed on to a server. -/
def relayed (cfg : Config) (s : State Ω M) (n : NodeId) : ℕ :=
  ((s.servers cfg.initialLeader).network.toPeer n).delivered.countP isStartSignal

/-- A server starts its clients for its own takeover or for a signal of the leader. -/
def Relayed (cfg : Config) (s : State Ω M) : Prop :=
  ∀ n, (s.servers n).ledger.startLoad ≤ owed (cfg.server n) (s.servers n) + relayed cfg s n

/-- The main task starts its clients only for signals it has received, and once for its own
takeover. -/
theorem startLoad_main {cfg : Server.Config} {v : OmniPaxosServer Ω M} (hlib : lib.Lawful decided)
    (h : v.Sound decided cfg) {l : ServerStep} (hg : v.guard cfg l) :
    (v.update lib cfg l).ledger.startLoad + owed cfg v ≤
      v.ledger.startLoad + owed cfg (v.update lib cfg l) := by
  have hstep := OmniPaxosServer.ledgerStep_update hlib h.refines hg
  have hphase : v.phase = .running → (v.update lib cfg l).phase = .running := by
    intro hrunning
    cases hp : (v.update lib cfg l).phase with
    | running => rfl
    | establishing =>
        have hold : v.phase = .establishing := Ledger.phase_step hstep hp
        exact hrunning.symm.trans hold |>.symm
  rcases Ledger.startLoad_step h.orderly hstep with hsame | ⟨hold, hleader, hnew, hload⟩
  · rw [hsame]
    refine Nat.add_le_add_left ?_ _
    unfold owed
    split
    · next hc => rw [if_pos ⟨hc.1, hphase hc.2⟩]
    · exact Nat.zero_le _
  · have hbefore : owed cfg v = 0 := by
      refine if_neg fun hc => ?_
      cases hc.2.symm.trans hold
    have hafter : owed cfg (v.update lib cfg l) = 1 := if_pos ⟨hleader, hnew⟩
    rw [hbefore, hafter, hload]

/-- A step of one server that counts its start signals and hands on none. -/
theorem Relayed.onServer (h : Relayed cfg s) {n : NodeId} {l : NodeStep M}
    (hload : (nodeUpdate lib (cfg.server n) l (s.servers n)).ledger.startLoad +
        owed (cfg.server n) (s.servers n) ≤ (s.servers n).ledger.startLoad +
          owed (cfg.server n) (nodeUpdate lib (cfg.server n) l (s.servers n)))
    (hdelivered : ∀ p, ((s.servers n).network.toPeer p).delivered <+:
      ((nodeUpdate lib (cfg.server n) l (s.servers n)).network.toPeer p).delivered) :
    Relayed cfg (s.onServer lib cfg n l) := by
  intro m
  have hm := h m
  have hrelayed : relayed cfg s m ≤ relayed cfg (s.onServer lib cfg n l) m := by
    unfold relayed
    by_cases hn : cfg.initialLeader = n
    · rw [hn, servers_onServer_self]
      exact (hdelivered m).sublist.countP_le
    · rw [servers_onServer_of_ne hn]
  by_cases hn : m = n
  · subst hn
    rw [servers_onServer_self]
    omega
  · rw [servers_onServer_of_ne hn]
    omega

/-- A message of another server than the leader is no start signal. -/
theorem leader_of_start (hlib : lib.Lawful decided) (hnodes : s.NodesReachable lib cfg t)
    {sender receiver : NodeId} {msg : ClusterMessage M}
    (hmsg : s.nextToPeer sender receiver = some msg) (hne : cfg.initialLeader ≠ sender) :
    [msg].countP isStartSignal = 0 := by
  have hnext : ((s.servers sender).network.toPeer receiver).next? = some msg := hmsg
  have hordered := (OmniPaxosServer.sound_node hlib (hnodes sender)).carries.ordered receiver
  have hsub := (hordered.forward hnext).delivered_sublist
  rw [Pipe.delivered_forward hnext] at hsub
  have hquiet := (OmniPaxosServer.startsPeersOnce_node hlib (hnodes sender)).quiet (.inr hne) receiver
  have hle : [msg].countP isStartSignal ≤ (s.servers sender).peerStarts receiver :=
    ((List.sublist_append_right _ _).trans hsub).countP_le
  omega

/-- A signal that arrives was relayed. -/
theorem relayed_clusterArrive (hlib : lib.Lawful decided) (hnodes : s.NodesReachable lib cfg t)
    (h : Relayed cfg s) {sender receiver : NodeId} {msg : ClusterMessage M}
    (hmsg : s.nextToPeer sender receiver = some msg) :
    Relayed cfg ((s.onServer lib cfg sender (.peerForward receiver)).onServer lib cfg receiver
      (.clusterArrive sender msg)) := by
  have hnext : ((s.servers sender).network.toPeer receiver).next? = some msg := hmsg
  have hforward : ∀ m, ((s.onServer lib cfg sender (.peerForward receiver)).servers m).ledger =
      (s.servers m).ledger :=
    forall_onServer (P := fun m v => v.ledger = (s.servers m).ledger) rfl fun _ => rfl
  -- a start signal adds to the load of the receiver only
  have hload : ∀ m, (((s.onServer lib cfg sender (.peerForward receiver)).onServer lib cfg receiver
      (.clusterArrive sender msg)).servers m).ledger.startLoad = (s.servers m).ledger.startLoad +
        if m = receiver then [msg].countP isStartSignal else 0 := by
    intro m
    rw [← hforward m]
    by_cases hm : m = receiver
    · subst hm
      rw [servers_onServer_self, if_pos rfl]
      simp [nodeUpdate, Ledger.startLoad, OmniPaxosServer.ledger, List.countP_append,
        List.countP_singleton]
      omega
    · rw [servers_onServer_of_ne hm, if_neg hm, Nat.add_zero]
  have hphase : ∀ m, (((s.onServer lib cfg sender (.peerForward receiver)).onServer lib cfg receiver
      (.clusterArrive sender msg)).servers m).phase = (s.servers m).phase := by
    have hold : ∀ m, ((s.onServer lib cfg sender (.peerForward receiver)).servers m).phase =
        (s.servers m).phase := fun m => congrArg Ledger.phase (hforward m)
    exact forall_onServer (P := fun m v => v.phase = (s.servers m).phase) (hold receiver) hold
  -- and it is delivered by the pipe from the sender only
  have hdelivered : ∀ m p, ((((s.onServer lib cfg sender (.peerForward receiver)).onServer lib cfg
      receiver (.clusterArrive sender msg)).servers m).network.toPeer p).delivered =
        ((s.servers m).network.toPeer p).delivered ++
          if m = sender ∧ p = receiver then [msg] else [] := by
    intro m p
    have hsame : ∀ m, (((s.onServer lib cfg sender (.peerForward receiver)).onServer lib cfg
        receiver (.clusterArrive sender msg)).servers m).network.toPeer =
          ((s.onServer lib cfg sender (.peerForward receiver)).servers m).network.toPeer :=
      forall_onServer (P := fun m v => v.network.toPeer =
        ((s.onServer lib cfg sender (.peerForward receiver)).servers m).network.toPeer) rfl
        fun _ => rfl
    rw [hsame]
    by_cases hm : m = sender
    · subst hm
      rw [servers_onServer_self]
      simp only [nodeUpdate]
      by_cases hp : p = receiver
      · subst hp
        rw [Function.update_self, Pipe.delivered_forward hnext, if_pos ⟨trivial, rfl⟩]
      · rw [Function.update_of_ne hp, if_neg (fun hc => hp hc.2), List.append_nil]
    · rw [servers_onServer_of_ne hm, if_neg (fun hc => hm hc.1), List.append_nil]
  intro m
  have hm := h m
  have howed : owed (cfg.server m) (((s.onServer lib cfg sender (.peerForward receiver)).onServer
      lib cfg receiver (.clusterArrive sender msg)).servers m) = owed (cfg.server m) (s.servers m) := by
    rw [owed, hphase, owed]
  rw [hload, howed, relayed, hdelivered, List.countP_append]
  rw [relayed] at hm
  -- the receiver has one more where it is the leader who sent, and nobody else sends any
  by_cases hr : m = receiver
  · subst hr
    by_cases hs : cfg.initialLeader = sender
    · rw [if_pos rfl, if_pos ⟨hs, rfl⟩]
      omega
    · rw [leader_of_start hlib hnodes hmsg hs, if_pos rfl]
      omega
  · rw [if_neg hr]
    omega

/-- Every action keeps this. -/
theorem relayed_act (hlib : lib.Lawful decided) (hc : Coherent lib cfg t s) (h : Relayed cfg s)
    {a : Action} (hg : s.guard lib cfg t a) : Relayed cfg (s.act lib cfg a) := by
  cases a with
  | server n l =>
      have hsound := hc.sound hlib n
      refine h.onServer (startLoad_main hlib hsound hg.2.1) fun p => ?_
      rw [nodeUpdate, (OmniPaxosServer.peers_update hsound.carries l p).1]
  | network n l =>
      refine h.onServer ?_ fun p => ?_
      · rw [nodeUpdate, OmniPaxosServer.ledger_network]
        rfl
      · rw [nodeUpdate, (OmniPaxosServer.peers_network _ l _ p).1]
  | shim e l => exact h
  | bench e l => exact h
  | connection e l => exact h
  -- a client that registers does not move start signals
  | register e => exact h.onServer (l := .network .registerClient) (le_refl _) fun _ => List.prefix_rfl
  | clusterArrive sender receiver =>
      rcases Option.isSome_iff_exists.mp hg.2.2.1 with ⟨msg, hmsg⟩
      simp only [act, hmsg]
      exact relayed_clusterArrive hlib hc.nodes h hmsg
  | clusterLose sender receiver =>
      refine h.onServer (l := .peerForward receiver) (le_refl _) fun p => ?_
      simp only [nodeUpdate]
      -- a message that is lost is delivered by the pipe all the same
      by_cases hp : p = receiver
      · subst hp
        rw [Function.update_self]
        exact List.prefix_append _ _
      · rw [Function.update_of_ne hp]
  | clientArrive e =>
      simp only [act]
      split
      · next k msg _ _ =>
          have h' : Relayed cfg (s.onEndpoint cfg e .handOn) := h
          exact h'.onServer (l := .clientArrive k msg) (le_refl _) fun _ => List.prefix_rfl
      · exact h
  | serverArrive e =>
      simp only [act]
      split
      · next k msg _ _ =>
          exact h.onServer (l := .clientForward k) (le_refl _) fun _ => List.prefix_rfl
      · exact h

/-- In every run a server starts its clients only for its takeover or a signal of the leader. -/
theorem relayed_reachable (hlib : lib.Lawful decided)
    (hr : (cluster lib decided cfg t).Reachable s) : Relayed cfg s := by
  refine (cluster lib decided cfg t).invariant (Relayed cfg) ?_ ?_ s hr
  · intro s hs
    rcases hs with ⟨ω, _, rfl⟩
    exact fun n => Nat.zero_le _
  · intro l s hs hg h
    exact relayed_act hlib (coherent_reachable hlib hs) h hg

/-- No server starts its clients twice. -/
theorem Coherent.startSignals_le (hc : Coherent lib cfg t s) (hlib : lib.Lawful decided)
    (h : Relayed cfg s) (n : NodeId) : (s.servers n).startSignals.length ≤ 1 := by
  have hload : (s.servers n).startSignals.length ≤
      owed (cfg.server n) (s.servers n) + relayed cfg s n :=
    le_trans (Nat.le_add_right _ _) (h n)
  have hleader := hc.sound hlib cfg.initialLeader
  have haccepted : relayed cfg s n ≤ (s.servers cfg.initialLeader).peerStarts n :=
    (hleader.carries.ordered n).delivered_sublist.countP_le
  by_cases hn : cfg.initialLeader = n
  · -- the leader has no pipe to itself
    have hself : (s.servers cfg.initialLeader).peerStarts n = 0 := by
      have hstranger : n ∉ (cfg.server cfg.initialLeader).peers := by
        simp [Server.Config.peers, Server.Config.getPeers, Config.server, hn]
      rw [peerStarts, hleader.carries.strangers n hstranger]
      rfl
    have howed : owed (cfg.server n) (s.servers n) ≤ 1 := by
      unfold owed
      split <;> omega
    omega
  · have howed : owed (cfg.server n) (s.servers n) = 0 := if_neg fun hc => hn hc.1
    have honce := (OmniPaxosServer.startsPeersOnce_node hlib (hc.nodes cfg.initialLeader)).once n
    omega

/-! ## The start signal before any response -/

/-- A client to which a response was sent has received a message: without its start signal
it would have sent no command. -/
theorem Coherent.delivered_of_response (h : Coherent lib cfg t s) (hlib : lib.Lawful decided)
    (hagreed : Agreed decided cfg s) {n : NodeId} (hn : n ∈ cfg.nodes) {k : ClientId}
    {msg : ServerMessage} (hmem : (k, msg) ∈ (s.servers n).network.clientSends)
    (hid : msg.commandId.isSome) : ((s.servers n).network.toClient k).delivered ≠ [] := by
  rcases (h.answersOnce hlib hagreed hn).only k msg hmem hid with ⟨j, c, hj, rfl, rfl, _⟩
  rcases h.submitted_of_mem_log hlib hagreed (List.mem_of_getElem? hj) with ⟨e, he⟩
  have hcommands : (s.endpoints e).commands ≠ [] := by
    intro hnil
    have hcommand := he.command
    rw [hnil] at hcommand
    cases hcommand
  rcases (h.endpoints e).session.started hcommands with ⟨startTime, htaken⟩
  have hreceived : ServerMessage.startSignal startTime ∈ (s.endpoints e).network.received :=
    List.mem_append_left _ htaken
  rw [h.linked.toClient e c.clientId he.client, serverOf, he.home] at hreceived
  exact List.ne_nil_of_mem hreceived

/-- What the queue of a client accepts in one step of the main task. -/
theorem startsFirst_extend {accepted sub : List ServerMessage} (h : StartsFirst accepted)
    (honce : (accepted ++ sub).countP (fun m => m.commandId.isNone) ≤ 1)
    (hnone : accepted = [] → ∀ m ∈ sub, m.commandId = none) : StartsFirst (accepted ++ sub) := by
  rcases h with rfl | ⟨startTime, responses, rfl, hresponses⟩
  · rw [List.nil_append] at honce ⊢
    cases sub with
    | nil => exact .inl rfl
    | cons m rest =>
        have hm := hnone rfl m List.mem_cons_self
        cases m with
        | startSignal startTime =>
            -- a second start signal would be one too many
            refine .inr ⟨startTime, rest, rfl, fun m hm => ?_⟩
            have hone := hnone rfl m (List.mem_cons_of_mem _ hm)
            have hpos : 0 < rest.countP fun m => m.commandId.isNone :=
              List.countP_pos_iff.mpr ⟨m, hm, by rw [hone]; rfl⟩
            rw [List.countP_cons_of_pos rfl] at honce
            omega
        | write id => cases hm
        | read id value => cases hm
  · refine .inr ⟨startTime, responses ++ sub, rfl, fun m hm => ?_⟩
    rcases List.mem_append.mp hm with hold | hnew
    · exact hresponses m hold
    · rw [List.cons_append, List.countP_cons_of_pos rfl, List.countP_append] at honce
      rw [Option.isSome_iff_ne_none]
      intro hid
      have hpos : 0 < sub.countP fun m => m.commandId.isNone :=
        List.countP_pos_iff.mpr ⟨m, hnew, by rw [hid]; rfl⟩
      omega

/-- Every client's queue accepts the start signal first. -/
def Started (s : State Ω M) : Prop :=
  ∀ n k, StartsFirst ((s.servers n).network.toClient k).writer.accepted

/-- Only the main task puts messages into the queues of clients. -/
theorem Started.onServer (h : Started s) {n : NodeId} {l : NodeStep M} (hl : ∀ l', l ≠ .main l') :
    Started (s.onServer lib cfg n l) := by
  refine forall_onServer
    (P := fun _ v => ∀ k, StartsFirst (v.network.toClient k).writer.accepted) ?_ h
  intro k
  rw [accepted_toClient_node hl]
  exact h n k

/-- A step of the main task of a server. -/
theorem Coherent.startsFirst_main {s' : State Ω M} (hc : Coherent lib cfg t s)
    (hc' : Coherent lib cfg t s') (hlib : lib.Lawful decided) (hagreed' : Agreed decided cfg s')
    (hrelayed' : Relayed cfg s') {n : NodeId} (hn : n ∈ cfg.nodes) {l : ServerStep}
    (hg : (s.servers n).guard (cfg.server n) l)
    (hserver : s'.servers n = (s.servers n).update lib (cfg.server n) l) {k : ClientId}
    (h : StartsFirst ((s.servers n).network.toClient k).writer.accepted) :
    StartsFirst ((s'.servers n).network.toClient k).writer.accepted := by
  have hsound := hc.sound hlib n
  have hsound' := hc'.sound hlib n
  rcases OmniPaxosServer.accepted_toClient_update lib hsound.carries l k with
    ⟨delta, sub, hsends, hacc, hsub⟩
  rw [← hserver] at hsends hacc
  rw [hacc]
  refine startsFirst_extend h ?_ ?_
  · have hsent := hsound'.carries.sent k
    have hstarts := hsound'.orderly.starts_le k
    have hle := hc'.startSignals_le hlib hrelayed' n
    rw [← hacc]
    exact le_trans hsent.countP_le (le_trans hstarts hle)
  · intro hnil msg hmsg
    by_contra hid
    -- a response, though nothing has been delivered
    have hmem : (k, msg) ∈ (s'.servers n).network.clientSends := by
      rw [hsends]
      exact List.mem_append_right _ (mem_messagesTo.mp (hsub.subset hmsg))
    refine hc'.delivered_of_response hlib hagreed' hn hmem (Option.isSome_iff_ne_none.mpr hid) ?_
    have hstill := (OmniPaxosServer.still_main hlib hsound hg).delivered k
    have hpre := (List.prefix_append _ _).trans (hsound.carries.streamed k).arriving
    rw [hserver, hstill]
    rw [hnil] at hpre
    exact List.prefix_nil.mp hpre

/-- In every run the start signal is first in the queue of every client. -/
theorem started_reachable (hlib : lib.Lawful decided)
    (hr : (agreeing lib decided cfg t).Reachable s) : Started s := by
  refine (agreeing lib decided cfg t).invariant Started ?_ ?_ s hr
  · intro s hs
    rcases hs with ⟨ω, _, rfl⟩
    exact fun n k => .inl rfl
  · intro l s hs hg h
    have hr' := hs.step l hg
    have hc := coherent_agreeing hlib hs
    have hc' := coherent_agreeing hlib hr'
    have hrelayed' := relayed_reachable hlib (Machine.reachable_of_restrict hr')
    change Started (s.act lib cfg l.action)
    rcases l with ⟨a, entries⟩
    cases a with
    -- the main task may send start signals; no other step sends to clients
    | server n l =>
        intro m k
        by_cases hm : m = n
        · subst hm
          exact hc.startsFirst_main hc' hlib (agreed_reachable hr') hrelayed' hg.1.1 hg.1.2.1
            (servers_onServer_self m (.main l) s) (h m k)
        · have hother : (s.act lib cfg (.server n l)).servers m = s.servers m :=
            servers_onServer_of_ne hm (.main l) s
          rw [hother]
          exact h m k
    | network n l => exact h.onServer (by simp)
    | shim e l => exact h
    | bench e l => exact h
    | connection e l => exact h
    | register e => exact h.onServer (l := .network .registerClient) (by simp)
    | clusterArrive sender receiver =>
        simp only [act]
        split
        · exact h
        · exact (h.onServer (l := .peerForward receiver) (by simp)).onServer (by simp)
    | clusterLose sender receiver => exact h.onServer (l := .peerForward receiver) (by simp)
    | clientArrive e =>
        simp only [act]
        split
        · next k msg _ _ =>
            have h' : Started (s.onEndpoint cfg e .handOn) := h
            exact h'.onServer (by simp)
        · exact h
    | serverArrive e =>
        simp only [act]
        split
        · next k msg _ _ => exact h.onServer (l := .clientForward k) (by simp)
        · exact h

/-! ## The clients -/

/-- The start signal is what every client receives first. -/
theorem Coherent.received_startsFirst (h : Coherent lib cfg t s) (hlib : lib.Lawful decided)
    (hstarted : Started s) (e : EndpointId) : StartsFirst (s.endpoints e).network.received := by
  cases hk : s.clientId e with
  | none => exact .inl (h.linked.fresh e hk).2
  | some k =>
      have hcarries := (h.sound hlib (cfg.activeServer e)).carries
      rw [h.linked.toClient e k hk]
      have hpre := (List.prefix_append _ _).trans (hcarries.streamed k).arriving
      exact (hstarted _ k).mono hpre

/-- No client enters its loop without the start signal. -/
theorem waits_reachable (hlib : lib.Lawful decided)
    (hr : (agreeing lib decided cfg t).Reachable s) : ∀ e, (s.endpoints e).Waits := by
  refine (agreeing lib decided cfg t).invariant (fun s => ∀ e, (s.endpoints e).Waits) ?_ ?_ s hr
  · intro s hs e
    rcases hs with ⟨ω, _, rfl⟩
    exact Endpoint.waits_new _ _
  · intro l s hs hg h e
    have hfirst := (coherent_agreeing hlib hs).received_startsFirst hlib
      (started_reachable hlib hs) e
    change ((s.act lib cfg l.action).endpoints e).Waits
    rcases endpoints_act hg.1 e with heq | ⟨step, hstep, heq⟩
    · rw [heq]
      exact h e
    · rw [heq]
      exact (h e).update hfirst hstep

/-- In every run of the cluster each server sends each client at most one start signal, on
every connection it precedes all responses, and so it is the first message of every client:
no shim discards a response, and no client panics on its first message or for a command id. -/
theorem start_signal_first (lib : OmniPaxos Ω M) (decided : Ω → List Command)
    (hlib : lib.Lawful decided) (cfg : Config) (t : Transport) :
    ∀ s, (agreeing lib decided cfg t).Reachable s →
      (∀ n k, (messagesTo k (s.servers n).network.clientSends).countP
          (fun m => m.commandId.isNone) ≤ 1 ∧
        StartsFirst ((s.servers n).network.toClient k).writer.accepted) ∧
      (∀ e, StartsFirst (s.endpoints e).network.received) ∧
      (∀ e sh, s.endpoints e = .shim sh → sh.phase = .waitingStart →
        sh.network.taken = [] ∧ StartsFirst sh.network.serverMessages) ∧
      ∀ e c, s.endpoints e = .bench c →
        c.phase ≠ .panicked .errorWaitingForStartSignal ∧
        c.phase ≠ .panicked .unimplementedCommandId := by
  intro s hr
  have h := coherent_agreeing hlib hr
  have hrelayed := relayed_reachable hlib (Machine.reachable_of_restrict hr)
  have hstarted := started_reachable hlib hr
  have hwaits := waits_reachable hlib hr
  refine ⟨?_, ?_, ?_, ?_⟩
  · intro n k
    refine ⟨?_, hstarted n k⟩
    exact le_trans ((h.sound hlib n).orderly.starts_le k) (h.startSignals_le hlib hrelayed n)
  · exact h.received_startsFirst hlib hstarted
  · intro e sh he hphase
    have htaken := (hwaits e).shim sh he (.inr hphase)
    have hreceived := h.received_startsFirst hlib hstarted e
    rw [he] at hreceived
    refine ⟨htaken, ?_⟩
    change StartsFirst (sh.network.taken ++ sh.network.serverMessages) at hreceived
    rw [htaken] at hreceived
    exact hreceived
  · intro e c he
    have hc := (hwaits e).bench c he
    exact ⟨hc.started, hc.identified⟩

/-- In `putGetRun` the shim receives its start signal before the two responses. -/
theorem start_signal_first_put_get :
    StartsFirst ((twoNodesMachine.after twoNodesStart putGetRun).endpoints 0).network.received ∧
      ((twoNodesMachine.after twoNodesStart putGetRun).endpoints 0).network.received =
        [.startSignal 2000, .write 0, .read 1 (some "v")] := by
  have h := start_signal_first relayLibrary Relay.log relayLibrary_lawful twoNodes
    smallTransport _ putGetRun_reachable
  constructor
  · exact h.2.1 0
  · decide +kernel

end Cluster

end OmnipaxosKv
