import OmnipaxosKv.Cluster.Links

/-! # Where log entries and responses come from

An entry of the log is a command that one endpoint submitted, and it is there once. A
response that an endpoint receives is that of such an entry, and no other response
carries its id.
-/

namespace OmnipaxosKv

namespace Cluster

open Server Client
open Server.OmniPaxosServer (responses response)

variable {Ω M : Type} {lib : OmniPaxos Ω M} {decided : Ω → List Command} {cfg : Config}
  {t : Transport} {s : State Ω M}

/-- Endpoint `e` issued the command, under its own id there, to the coordinator. -/
structure Submitted (cfg : Config) (s : State Ω M) (e : EndpointId) (c : Command) : Prop where
  home : cfg.activeServer e = c.coordinatorId
  client : s.clientId e = some c.clientId
  command : (s.endpoints e).commands[c.id]? = some c.kvCmd

theorem Coherent.submitter_unique (h : Coherent lib cfg t s) {e e' : EndpointId} {c : Command}
    (he : Submitted cfg s e c) (he' : Submitted cfg s e' c) : e = e' :=
  h.linked.distinct e e' c.clientId (he.home.trans he'.home.symm) he.client he'.client

/-- A command is determined by where it comes from and by its id there. -/
theorem Coherent.command_unique (h : Coherent lib cfg t s) {e : EndpointId} {c c' : Command}
    (hc : Submitted cfg s e c) (hc' : ∃ e', Submitted cfg s e' c')
    (hcoordinator : c'.coordinatorId = c.coordinatorId) (hclient : c'.clientId = c.clientId)
    (hid : c'.id = c.id) : c' = c := by
  rcases hc' with ⟨e', hc'⟩
  have hsame : e' = e := by
    refine h.linked.distinct e' e c.clientId ?_ ?_ hc.client
    · rw [hc'.home, hc.home, hcoordinator]
    · rw [← hclient]
      exact hc'.client
  subst hsame
  have hkv : c'.kvCmd = c.kvCmd := by
    have hget := hc'.command
    rw [hid, hc.command] at hget
    exact (Option.some.inj hget).symm
  cases c
  cases c'
  simp_all

/-! ## What was appended -/

/-- What arrives at a server was issued by the client it comes from. -/
theorem Coherent.mem_numbered_of_arrived (h : Coherent lib cfg t s) {n : NodeId} {k : ClientId}
    {msg : ClientMessage} (hmem : (k, msg) ∈ (s.servers n).ledger.arrived) :
    ∃ e, cfg.activeServer e = n ∧ s.clientId e = some k ∧
      msg ∈ numbered (s.endpoints e).commands := by
  rcases h.linked.sender n k msg hmem with ⟨e, rfl, hk⟩
  refine ⟨e, rfl, hk, ?_⟩
  have hdelivered : msg ∈ ((s.endpoints e).pipe (cfg.activeServer e)).delivered := by
    rw [← h.linked.toServer e k hk]
    exact mem_messagesTo.mpr hmem
  have haccepted := (h.endpoints e).ordered.delivered_sublist.subset hdelivered
  exact (h.endpoints e).session.sent.subset (List.mem_append_left _ haccepted)

/-- What a server appends was submitted to it. -/
theorem Coherent.submitted_of_appended (h : Coherent lib cfg t s) (hlib : lib.Lawful decided)
    {n : NodeId} {c : Command} (hc : c ∈ (s.servers n).appended) :
    c.coordinatorId = n ∧ ∃ e, Submitted cfg s e c := by
  have hown : c.coordinatorId = n := (h.sound hlib n).orderly.own c hc
  refine ⟨hown, ?_⟩
  have harrived : (c.clientId, .append c.id c.kvCmd) ∈ (s.servers n).ledger.arrived :=
    List.mem_append_left _ (List.mem_map.mpr ⟨c, hc, rfl⟩)
  rcases h.mem_numbered_of_arrived harrived with ⟨e, he, hk, hmem⟩
  exact ⟨e, he.trans hown.symm, hk, mem_numbered.mp hmem⟩

/-- Messages are distinct if those of each client are. -/
theorem nodup_of_messagesTo {β : Type} {messages : List (ClientId × β)}
    (h : ∀ k, (messagesTo k messages).Nodup) : messages.Nodup := by
  induction messages with
  | nil => exact List.nodup_nil
  | cons m messages ih =>
      rcases m with ⟨k, m⟩
      have hsplit : ∀ k', messagesTo k' ((k, m) :: messages) =
          messagesTo k' [(k, m)] ++ messagesTo k' messages := fun k' => messagesTo_append k' [_] _
      rw [List.nodup_cons]
      refine ⟨?_, ih ?_⟩
      · intro hmem
        have hnodup := h k
        rw [hsplit, messagesTo_singleton, if_pos rfl, List.singleton_append, List.nodup_cons]
          at hnodup
        exact hnodup.1 (mem_messagesTo.mpr hmem)
      · intro k'
        have hnodup := h k'
        rw [hsplit] at hnodup
        exact (List.nodup_append.mp hnodup).2.1

/-- No client message comes in twice. -/
theorem Coherent.nodup_arrived (h : Coherent lib cfg t s) (n : NodeId) :
    (s.servers n).ledger.arrived.Nodup := by
  refine nodup_of_messagesTo fun k => ?_
  by_cases hne : messagesTo k (s.servers n).ledger.arrived = []
  · rw [hne]
    exact List.nodup_nil
  · rcases List.exists_mem_of_ne_nil _ hne with ⟨msg, hmsg⟩
    rcases h.linked.sender n k msg (mem_messagesTo.mp hmsg) with ⟨e, rfl, hk⟩
    have hdelivered := h.linked.toServer e k hk
    rw [State.serverOf] at hdelivered
    rw [hdelivered]
    have hsent := (List.sublist_append_left _ _).trans (h.endpoints e).session.sent
    exact ((h.endpoints e).ordered.delivered_sublist.trans hsent).nodup (nodup_numbered _)

/-- No command is appended twice, at one server or at two. -/
theorem Coherent.nodup_appended (h : Coherent lib cfg t s) (hlib : lib.Lawful decided) :
    (s.appended cfg).Nodup := by
  rw [State.appended, List.nodup_flatMap]
  refine ⟨?_, ?_⟩
  · intro n _
    have hnodup := (h.nodup_arrived n).sublist (List.sublist_append_left _ _)
    exact hnodup.of_map
  · refine cfg.nodes_nodup.imp ?_
    intro n m hne c hn hm
    exact hne (((h.submitted_of_appended hlib hn).1).symm.trans (h.submitted_of_appended hlib hm).1)

/-! ## The log -/

theorem Agreed.mem_appended (h : Agreed decided cfg s) {c : Command} (hc : c ∈ s.log) :
    ∃ n ∈ cfg.nodes, c ∈ (s.servers n).appended :=
  List.mem_flatMap.mp (h.appended.subset hc)

theorem Coherent.submitted_of_mem_log (h : Coherent lib cfg t s) (hlib : lib.Lawful decided)
    (hagreed : Agreed decided cfg s) {c : Command} (hc : c ∈ s.log) : ∃ e, Submitted cfg s e c := by
  rcases hagreed.mem_appended hc with ⟨n, _, hn⟩
  exact (h.submitted_of_appended hlib hn).2

theorem Coherent.nodup_log (h : Coherent lib cfg t s) (hlib : lib.Lawful decided)
    (hagreed : Agreed decided cfg s) : s.log.Nodup := by
  rcases hagreed.appended with ⟨l, hperm, hsub⟩
  exact hperm.nodup_iff.mp (hsub.nodup (h.nodup_appended hlib))

theorem Coherent.applied_prefix_log (h : Coherent lib cfg t s) (hlib : lib.Lawful decided)
    (hagreed : Agreed decided cfg s) {n : NodeId} (hn : n ∈ cfg.nodes) :
    (s.servers n).applied <+: s.log := by
  rw [(h.sound hlib n).refines.applied]
  exact (List.take_prefix _ _).trans (hagreed.decides n hn)

/-- An applied command stands in the log behind the same commands. -/
theorem prefix_agrees {l l' : List Command} (h : l <+: l') {j : ℕ} {c : Command}
    (hj : l[j]? = some c) : l'[j]? = some c ∧ l.take j = l'.take j := by
  rcases h with ⟨rest, rfl⟩
  have hlt : j < l.length := (List.getElem?_eq_some_iff.mp hj).1
  rw [List.getElem?_append_left hlt, List.take_append_of_le_length (le_of_lt hlt)]
  exact ⟨hj, rfl⟩

/-! ## The responses -/

/-- A response is that to an entry of the log which the server coordinates. -/
theorem mem_responses {node : NodeId} {d : Database} {log : List Command} {k : ClientId}
    {msg : ServerMessage} : (k, msg) ∈ responses node d log ↔
      ∃ (j : ℕ) (c : Command), log[j]? = some c ∧ c.coordinatorId = node ∧ k = c.clientId ∧
        msg = response (d.replayFrom (log.take j)) c := by
  induction log generalizing d with
  | nil => simp [responses]
  | cons c₀ log ih =>
      rw [responses, List.mem_append, ih]
      constructor
      · intro h
        rcases h with h | ⟨j, c, hj, hnode, hk, hmsg⟩
        · split at h
          · next hnode =>
              obtain ⟨rfl, rfl⟩ := Prod.mk.inj (List.mem_singleton.mp h)
              exact ⟨0, c₀, rfl, hnode, rfl, rfl⟩
          · cases h
        · exact ⟨j + 1, c, hj, hnode, hk, hmsg⟩
      · intro h
        rcases h with ⟨j, c, hj, hnode, hk, hmsg⟩
        cases j with
        | zero =>
            obtain rfl : c₀ = c := Option.some.inj hj
            left
            rw [if_pos hnode, hk, hmsg]
            exact List.mem_singleton.mpr rfl
        | succ j => exact .inr ⟨j, c, hj, hnode, hk, hmsg⟩

/-- The ids of the responses to a client are those of its commands, in their order in the log. -/
theorem messagesTo_responses (node : NodeId) (k : ClientId) (d : Database) (log : List Command) :
    (messagesTo k (responses node d log)).filterMap ServerMessage.commandId =
      (log.filter fun c => c.coordinatorId = node ∧ c.clientId = k).map Command.id := by
  induction log generalizing d with
  | nil => rfl
  | cons c log ih =>
      rw [responses, messagesTo_append, List.filterMap_append, ih, List.filter_cons]
      by_cases hnode : c.coordinatorId = node
      · by_cases hk : c.clientId = k
        · simp [hnode, hk, Ledger.isSome_commandId_response]
        · simp [hnode, hk]
      · simp [hnode]

/-- The command ids in a stretch of messages are those of its responses. -/
theorem filterMap_commandId_messagesTo (k : ClientId) (messages : List (ClientId × ServerMessage)) :
    (messagesTo k messages).filterMap ServerMessage.commandId =
      (messagesTo k (messages.filter fun m => m.2.commandId.isSome)).filterMap
        ServerMessage.commandId := by
  induction messages with
  | nil => rfl
  | cons m messages ih =>
      have hsplit : ∀ l, messagesTo k (m :: l) = messagesTo k [m] ++ messagesTo k l :=
        fun l => messagesTo_append k [m] l
      rw [hsplit, List.filterMap_append, ih, List.filter_cons]
      cases hid : m.2.commandId with
      | none =>
          rcases m with ⟨k', m⟩
          simp only [Option.isSome_none, Bool.false_eq_true, if_false, messagesTo_singleton]
          split
          · simpa using hid
          · rfl
      | some i =>
          rw [if_pos Option.isSome_some, hsplit (messages.filter _), List.filterMap_append]

/-- A client receives what its server sends it, in this order. -/
theorem Coherent.received_sublist (h : Coherent lib cfg t s) (hlib : lib.Lawful decided)
    {e : EndpointId} {k : ClientId} (hk : s.clientId e = some k) :
    (s.endpoints e).network.received.Sublist
      (messagesTo k (s.serverOf cfg e).network.clientSends) := by
  have hcarries := (h.sound hlib (cfg.activeServer e)).carries
  rw [h.linked.toClient e k hk]
  have hpre := (List.prefix_append _ _).trans (hcarries.streamed k).arriving
  exact hpre.sublist.trans (hcarries.sent k)

/-- Only registered clients receive anything. -/
theorem Coherent.registered_of_received (h : Coherent lib cfg t s) {e : EndpointId}
    {msg : ServerMessage} (hmem : msg ∈ (s.endpoints e).network.received) :
    ∃ k, s.clientId e = some k := by
  cases hk : s.clientId e with
  | none =>
      rw [(h.linked.fresh e hk).2] at hmem
      cases hmem
  | some k => exact ⟨k, rfl⟩

/-- A response is the result of a command that its receiver submitted and that the server
has applied. -/
theorem Coherent.applied_of_received (h : Coherent lib cfg t s) (hlib : lib.Lawful decided)
    (hagreed : Agreed decided cfg s) {e : EndpointId} {msg : ServerMessage}
    (hmem : msg ∈ (s.endpoints e).network.received) (hid : msg.commandId.isSome) :
    ∃ (j : ℕ) (c : Command), (s.serverOf cfg e).applied[j]? = some c ∧ Submitted cfg s e c ∧
      msg = response (Database.replay ((s.serverOf cfg e).applied.take j)) c := by
  rcases h.registered_of_received hmem with ⟨k, hk⟩
  have hsound := h.sound hlib (cfg.activeServer e)
  have hsend := mem_messagesTo.mp ((h.received_sublist hlib hk).subset hmem)
  have hresp : (k, msg) ∈ responses (cfg.activeServer e) Database.new (s.serverOf cfg e).applied := by
    have hanswers := hsound.orderly.answers
    have hfilter : (k, msg) ∈ (s.serverOf cfg e).network.clientSends.filter
        (fun m => m.2.commandId.isSome) := List.mem_filter.mpr ⟨hsend, hid⟩
    exact hanswers ▸ hfilter
  rcases mem_responses.mp hresp with ⟨j, c, hj, hnode, hkc, hmsg⟩
  have hpre := h.applied_prefix_log hlib hagreed (h.linked.home e k hk)
  have hclient : s.clientId e = some c.clientId := by rw [hk, hkc]
  -- the submitter of the entry and the receiver are the same
  have hlog := List.mem_of_getElem? (prefix_agrees hpre hj).1
  rcases h.submitted_of_mem_log hlib hagreed hlog with ⟨e', he'⟩
  have hsame : e' = e := h.linked.distinct e' e c.clientId (he'.home.trans hnode) he'.client hclient
  subst hsame
  exact ⟨j, c, hj, he', hmsg⟩

/-- A response is the result of a log entry that its receiver submitted. -/
theorem Coherent.entry_of_received (h : Coherent lib cfg t s) (hlib : lib.Lawful decided)
    (hagreed : Agreed decided cfg s) {e : EndpointId} {msg : ServerMessage}
    (hmem : msg ∈ (s.endpoints e).network.received) (hid : msg.commandId.isSome) :
    ∃ (j : ℕ) (c : Command), s.log[j]? = some c ∧ Submitted cfg s e c ∧
      msg = response (Database.replay (s.log.take j)) c := by
  rcases h.registered_of_received hmem with ⟨k, hk⟩
  rcases h.applied_of_received hlib hagreed hmem hid with ⟨j, c, hj, hc, hmsg⟩
  have hpre := h.applied_prefix_log hlib hagreed (h.linked.home e k hk)
  rcases prefix_agrees hpre hj with ⟨hlog, htake⟩
  refine ⟨j, c, hlog, hc, ?_⟩
  rw [hmsg]
  exact congrArg (fun l => response (Database.replay l) c) htake

/-- A server answers no two commands of one client under the same id. -/
theorem Coherent.nodup_sent (h : Coherent lib cfg t s) (hlib : lib.Lawful decided)
    (hagreed : Agreed decided cfg s) {n : NodeId} (hn : n ∈ cfg.nodes) (k : ClientId) :
    ((messagesTo k (s.servers n).network.clientSends).filterMap ServerMessage.commandId).Nodup := by
  have hanswers : (s.servers n).network.clientSends.filter (fun m => m.2.commandId.isSome) =
      responses n Database.new (s.servers n).applied := (h.sound hlib n).orderly.answers
  rw [filterMap_commandId_messagesTo, hanswers, messagesTo_responses]
  have hpre := h.applied_prefix_log hlib hagreed hn
  have happlied := hpre.sublist.nodup (h.nodup_log hlib hagreed)
  refine (happlied.filter _).map_on ?_
  intro c hc c' hc' hid
  simp only [List.mem_filter, decide_eq_true_eq] at hc hc'
  rcases h.submitted_of_mem_log hlib hagreed (hpre.subset hc.1) with ⟨e, he⟩
  have he' := h.submitted_of_mem_log hlib hagreed (hpre.subset hc'.1)
  exact (h.command_unique he he' (hc'.2.1.trans hc.2.1.symm) (hc'.2.2.trans hc.2.2.symm)
    hid.symm).symm

/-- No two responses that an endpoint receives carry the same id. -/
theorem Coherent.nodup_received (h : Coherent lib cfg t s) (hlib : lib.Lawful decided)
    (hagreed : Agreed decided cfg s) (e : EndpointId) :
    ((s.endpoints e).network.received.filterMap ServerMessage.commandId).Nodup := by
  cases hk : s.clientId e with
  | none =>
      rw [(h.linked.fresh e hk).2]
      exact List.nodup_nil
  | some k =>
      have hsub := (h.received_sublist hlib hk).filterMap ServerMessage.commandId
      exact hsub.nodup (h.nodup_sent hlib hagreed (h.linked.home e k hk) k)

/-! ## Runs in which the library keeps its promises -/

/-- In every run of such a library the servers agree. -/
theorem agreed_reachable (hr : (agreeing lib decided cfg t).Reachable s) :
    Agreed decided cfg s := by
  cases hr with
  | start hs =>
      rcases hs with ⟨ω, hω, rfl⟩
      refine ⟨?_, List.nil_subperm⟩
      intro n _
      rw [show decided ((State.new cfg ω : State Ω M).servers n).omnipaxos = [] from hω n]
      exact List.nil_prefix
  | step l _ hg => exact hg.2

theorem coherent_agreeing (hlib : lib.Lawful decided)
    (hr : (agreeing lib decided cfg t).Reachable s) : Coherent lib cfg t s :=
  coherent_reachable hlib (Machine.reachable_of_restrict hr)

end Cluster

end OmnipaxosKv
