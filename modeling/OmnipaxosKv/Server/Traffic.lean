import OmnipaxosKv.Server.Server

/-! # What the connections of a server carry

Facts about the tables and pipes of one server that hold whatever its main task sends
and whatever its connections do.
-/

namespace OmnipaxosKv

namespace Server

/-- The messages of one client among those of all. -/
def messagesTo {β : Type} (k : ClientId) (messages : List (ClientId × β)) : List β :=
  (messages.filter (·.1 = k)).map Prod.snd

/-- The messages to a client, part by part. -/
@[simp] theorem messagesTo_append {β : Type} (k : ClientId) (ms ms' : List (ClientId × β)) :
    messagesTo k (ms ++ ms') = messagesTo k ms ++ messagesTo k ms' := by
  simp [messagesTo]

@[simp] theorem messagesTo_singleton {β : Type} (k k' : ClientId) (m : β) :
    messagesTo k [(k', m)] = if k' = k then [m] else [] := by
  by_cases h : k' = k <;> simp [messagesTo, h]

/-- A message to a client is among all messages, under its id. -/
@[simp] theorem mem_messagesTo {β : Type} {k : ClientId} {m : β} {messages : List (ClientId × β)} :
    m ∈ messagesTo k messages ↔ (k, m) ∈ messages := by
  simp [messagesTo]

/-- What holds of every pipe of a table still does when one pipe is replaced. -/
theorem forall_update {κ π : Type} [DecidableEq κ] {P : π → Prop} {pipes : κ → π}
    (h : ∀ k, P (pipes k)) {k : κ} {pipe : π} (hpipe : P pipe) :
    ∀ k', P (Function.update pipes k pipe k') :=
  (Function.forall_update_iff pipes fun _ => P).mpr ⟨hpipe, fun k' _ => h k'⟩

namespace Network

variable {M : Type}

/-! ## Predicates that sends keep -/

/-- Sending to a client or a library message to a peer keeps `P`. -/
structure SendClosed (P : Network M → Prop) : Prop where
  toClient : ∀ k msg n, P n → P (n.sendToClient k msg)
  toCluster : ∀ p m n, P n → P (n.sendToCluster p (.omniPaxosMessage m))

/-- The id was given to some client. -/
def Registered (n : Network M) (k : ClientId) : Prop := 1 ≤ k ∧ k ≤ n.maxClientId

structure Carries (cfg : Config) (n : Network M) : Prop where
  aligned : n.Aligned
  peers : n.peers = cfg.peers
  /-- what a client's queue accepted was sent to that client, in this order -/
  sent : ∀ k, (n.toClient k).writer.accepted.Sublist (messagesTo k n.clientSends)
  streamed : ∀ k, (n.toClient k).Streamed
  ordered : ∀ p, (n.toPeer p).Ordered
  strangers : ∀ p, p ∉ cfg.peers → (n.toPeer p).writer.accepted = []
  entries : ∀ k, k ∈ n.clientConnections → n.Registered k
  arriving : ∀ k, NewConnection.toClient ⟨k⟩ ∈ n.handshakes ++ n.connectionSource → n.Registered k
  unregistered : ∀ k, ¬ n.Registered k → (n.toClient k).writer.accepted = []

section

variable {cfg : Config} {n : Network M}

/-- A new network carries nothing. -/
theorem carries_new (cfg : Config) : (new cfg : Network M).Carries cfg where
  aligned := aligned_new cfg
  peers := rfl
  sent := fun _ => List.Sublist.refl _
  streamed := fun _ => Pipe.streamed_new
  ordered := fun _ => Pipe.ordered_new
  strangers := fun _ _ => rfl
  entries := fun _ hk => absurd hk (Finmap.notMem_empty)
  arriving := fun _ hk => absurd hk (List.not_mem_nil)
  unregistered := fun _ _ => rfl

/-- What was received does not matter. -/
theorem Carries.inboxes (h : n.Carries cfg) (cluster : List (NodeId × ClusterMessage M))
    (clients : List (ClientId × ClientMessage)) :
    ({ n with clusterMessages := cluster, clientMessages := clients } : Network M).Carries cfg where
  aligned := ⟨h.aligned.slots, h.aligned.entries⟩
  peers := h.peers
  sent := h.sent
  streamed := h.streamed
  ordered := h.ordered
  strangers := h.strangers
  entries := h.entries
  arriving := h.arriving
  unregistered := h.unregistered

/-- A message to a client is accepted into its queue, or dropped and its entry removed. -/
theorem Carries.sendToClient (h : n.Carries cfg) (k : ClientId) (msg : ServerMessage) :
    (n.sendToClient k msg).Carries cfg := by
  have haligned := h.aligned.sendToClient k msg
  rcases sendToClient_cases h.aligned k msg with ⟨hmem, pipe, hpipe, heq⟩ | ⟨_, heq⟩
  · -- the message enters the queue of the registered client `k`
    rw [heq] at haligned ⊢
    refine ⟨haligned, h.peers, ?_, ?_, h.ordered, h.strangers, h.entries, h.arriving, ?_⟩
    · intro k'
      dsimp only
      rw [messagesTo_append, messagesTo_singleton]
      by_cases hk : k' = k
      · subst hk
        rw [Function.update_self, Pipe.accepted_send hpipe, if_pos rfl]
        exact (h.sent k').append (List.Sublist.refl [msg])
      · rw [Function.update_of_ne hk, if_neg (Ne.symm hk), List.append_nil]
        exact h.sent k'
    · exact forall_update h.streamed ((h.streamed k).send hpipe)
    · intro k' hk'
      have hne : k' ≠ k := by
        intro hk
        subst hk
        exact hk' (h.entries k' hmem)
      dsimp only
      rw [Function.update_of_ne hne]
      exact h.unregistered k' hk'
  · rw [heq] at haligned ⊢
    refine ⟨haligned, h.peers, ?_, h.streamed, h.ordered, h.strangers, ?_, h.arriving,
      h.unregistered⟩
    · intro k'
      rw [messagesTo_append]
      exact (h.sent k').trans (List.sublist_append_left _ _)
    · intro k' hk'
      exact h.entries k' (Finmap.mem_erase.mp hk').2

/-- A message to a peer is accepted into its queue, or dropped and its slot emptied. -/
theorem Carries.sendToCluster (h : n.Carries cfg) (p : NodeId) (msg : ClusterMessage M) :
    (n.sendToCluster p msg).Carries cfg := by
  have haligned := h.aligned.sendToCluster p msg
  by_cases hp : p ∈ cfg.peers
  · rcases sendToCluster_cases h.aligned p msg with ⟨pipe, hpipe, heq⟩ | ⟨slots, b, heq⟩
    · rw [heq] at haligned ⊢
      refine ⟨haligned, h.peers, h.sent, h.streamed, ?_, ?_, h.entries, h.arriving,
        h.unregistered⟩
      · exact forall_update h.ordered ((h.ordered p).send hpipe)
      · intro p' hp'
        have hne : p' ≠ p := by
          intro heq'
          subst heq'
          exact hp' hp
        dsimp only
        rw [Function.update_of_ne hne]
        exact h.strangers p' hp'
    · rw [heq] at haligned ⊢
      exact ⟨haligned, h.peers, h.sent, h.streamed, h.ordered, h.strangers, h.entries, h.arriving,
        h.unregistered⟩
  · -- a receiver outside the configuration has no index
    have hidx : n.clusterIdToIdx p = none := by
      rw [clusterIdToIdx, List.idxOf?_eq_none_iff, h.peers]
      exact hp
    have heq : n.sendToCluster p msg = n := by simp [Network.sendToCluster, hidx]
    rw [heq]
    exact h

theorem sendClosed_carries (cfg : Config) : SendClosed (M := M) (Carries cfg) where
  toClient := fun k msg _ h => h.sendToClient k msg
  toCluster := fun p m _ h => h.sendToCluster p (.omniPaxosMessage m)

/-- The connection to one client may go on. -/
theorem Carries.toClient_update (h : n.Carries cfg) {k : ClientId} {p : Pipe ServerMessage}
    (hstreamed : p.Streamed) (hacc : p.writer.accepted = (n.toClient k).writer.accepted) :
    ({ n with toClient := Function.update n.toClient k p } : Network M).Carries cfg := by
  have haccepted : ∀ k', (Function.update n.toClient k p k').writer.accepted =
      (n.toClient k').writer.accepted := by
    intro k'
    by_cases hk : k' = k
    · subst hk
      rw [Function.update_self, hacc]
    · rw [Function.update_of_ne hk]
  refine ⟨⟨h.aligned.slots, h.aligned.entries⟩, h.peers, ?_, ?_, h.ordered, h.strangers, h.entries,
    h.arriving, ?_⟩
  · intro k'
    dsimp only
    rw [haccepted]
    exact h.sent k'
  · exact forall_update h.streamed hstreamed
  · intro k' hk'
    dsimp only
    rw [haccepted]
    exact h.unregistered k' hk'

/-- The pipe to one peer may be replaced by one in order that accepted the same. -/
theorem Carries.toPeer_update (h : n.Carries cfg) {p : NodeId} {pipe : Pipe (ClusterMessage M)}
    (hordered : pipe.Ordered) (hacc : pipe.writer.accepted = (n.toPeer p).writer.accepted) :
    ({ n with toPeer := Function.update n.toPeer p pipe } : Network M).Carries cfg := by
  refine ⟨⟨h.aligned.slots, h.aligned.entries⟩, h.peers, h.sent, h.streamed, ?_, ?_, h.entries,
    h.arriving, h.unregistered⟩
  · exact forall_update h.ordered hordered
  · intro p' hp'
    dsimp only
    by_cases hp : p' = p
    · subst hp
      rw [Function.update_self, hacc]
      exact h.strangers p' hp'
    · rw [Function.update_of_ne hp]
      exact h.strangers p' hp'

/-- A client that is in the table was there, or is the one inserted. -/
theorem mem_insertConnection {c : NewConnection} {k : ClientId}
    (hk : k ∈ (insertConnection c n).clientConnections) :
    k ∈ n.clientConnections ∨ c = .toClient ⟨k⟩ := by
  cases c with
  | toPeer connection =>
      left
      unfold insertConnection at hk
      dsimp only at hk
      split at hk
      · exact hk
      · split at hk
        · exact hk
        · exact hk
  | toClient connection =>
      rcases Finmap.mem_insert.mp hk with rfl | hold
      · exact .inr rfl
      · exact .inl hold

/-- A connection taken out of the channel carries nothing yet. -/
theorem Carries.recvConnection (h : n.Carries cfg) (numClients : ℕ) :
    (n.recvConnection numClients).Carries cfg := by
  unfold Network.recvConnection
  split
  · exact h
  · next c rest hcons =>
      have htaken : ({ n with connectionSource := rest, received := n.received ++ [c] } :
          Network M).Aligned := ⟨h.aligned.slots, h.aligned.entries⟩
      have hins := htaken.insertConnection c
      have hmem := fun k => mem_insertConnection (c := c) (k := k)
        (n := { n with connectionSource := rest, received := n.received ++ [c] })
      have hentries : ∀ k, k ∈ (insertConnection c { n with
          connectionSource := rest, received := n.received ++ [c] }).clientConnections →
          n.Registered k := by
        intro k hk
        rcases hmem k hk with hold | rfl
        · exact h.entries k hold
        · refine h.arriving k ?_
          rw [hcons]
          simp
      rcases insertConnection_frame c { n with
        connectionSource := rest, received := n.received ++ [c] } with ⟨slots, entries, b, heq⟩
      simp only [heq] at hins hentries ⊢
      have harriving : ∀ k, NewConnection.toClient ⟨k⟩ ∈ n.handshakes ++ rest → n.Registered k := by
        intro k hk
        refine h.arriving k ?_
        rw [hcons]
        rcases List.mem_append.mp hk with hk | hk
        · exact List.mem_append_left _ hk
        · exact List.mem_append_right _ (List.mem_cons_of_mem _ hk)
      split
      · refine ⟨⟨hins.slots, hins.entries⟩, h.peers, h.sent, h.streamed, h.ordered, h.strangers,
          hentries, ?_, h.unregistered⟩
        intro k hk
        rw [List.append_nil] at hk
        exact harriving k (List.mem_append_left _ hk)
      · exact ⟨⟨hins.slots, hins.entries⟩, h.peers, h.sent, h.streamed, h.ordered, h.strangers,
          hentries, harriving, h.unregistered⟩

/-- Handing a connection over changes nothing about what the network carries. -/
theorem Carries.handOver (h : n.Carries cfg) (i : ℕ) : (n.handOver i).Carries cfg := by
  unfold Network.handOver
  split
  · exact h
  · next c hc =>
      have hsub : ∀ k, NewConnection.toClient ⟨k⟩ ∈ n.handshakes.eraseIdx i →
          NewConnection.toClient ⟨k⟩ ∈ n.handshakes :=
        fun _ hk => (List.eraseIdx_sublist _ _).subset hk
      dsimp only
      split
      · refine ⟨⟨h.aligned.slots, h.aligned.entries⟩, h.peers, h.sent, h.streamed, h.ordered,
          h.strangers, h.entries, ?_, h.unregistered⟩
        intro k hk
        refine h.arriving k ?_
        rcases List.mem_append.mp hk with hk | hk
        · exact List.mem_append_left _ (hsub k hk)
        · rcases List.mem_append.mp hk with hk | hk
          · exact List.mem_append_right _ hk
          · rw [List.mem_singleton] at hk
            rw [hk]
            exact List.mem_append_left _ (List.mem_of_getElem? hc)
      · refine ⟨⟨h.aligned.slots, h.aligned.entries⟩, h.peers, h.sent, h.streamed, h.ordered,
          h.strangers, h.entries, ?_, h.unregistered⟩
        intro k hk
        refine h.arriving k ?_
        rcases List.mem_append.mp hk with hk | hk
        · exact List.mem_append_left _ (hsub k hk)
        · exact List.mem_append_right _ hk

/-- A new id: every smaller one stays registered. -/
theorem Carries.registerClient (h : n.Carries cfg) : n.registerClient.Carries cfg := by
  have hgrow : ∀ k, n.Registered k → n.registerClient.Registered k :=
    fun k hk => ⟨hk.1, Nat.le_succ_of_le hk.2⟩
  refine ⟨⟨h.aligned.slots, h.aligned.entries⟩, h.peers, h.sent, h.streamed, h.ordered, h.strangers,
    ?_, ?_, ?_⟩
  · intro k hk
    exact hgrow k (h.entries k hk)
  · intro k hk
    simp only [Network.registerClient, List.mem_append, List.mem_singleton] at hk
    rcases hk with (hk | hk) | hk
    · exact hgrow k (h.arriving k (List.mem_append_left _ hk))
    · obtain rfl : k = n.maxClientId + 1 := by simpa using hk
      exact ⟨Nat.succ_pos _, le_refl _⟩
    · exact hgrow k (h.arriving k (List.mem_append_right _ hk))
  · intro k hk
    exact h.unregistered k (fun hreg => hk (hgrow k hreg))

/-- Every step of the network keeps what it carries. -/
theorem Carries.update (h : n.Carries cfg) {t : Transport} {l : NetworkStep} (hg : n.guard t l) :
    (n.update cfg.numClients l).Carries cfg := by
  cases l with
  | connectPeer p =>
      refine ⟨⟨h.aligned.slots, h.aligned.entries⟩, h.peers, h.sent, h.streamed, h.ordered,
        h.strangers, h.entries, ?_, h.unregistered⟩
      intro k hk
      refine h.arriving k ?_
      simpa [Network.update, connectPeer] using hk
  | registerClient => exact h.registerClient
  | handOver i => exact h.handOver i
  | recvConnection => exact h.recvConnection _
  | toPeer p l => exact h.toPeer_update ((h.ordered p).update l) (Pipe.accepted_update l _)
  | toClient k l =>
      exact h.toClient_update ((h.streamed k).update rfl hg) (Pipe.accepted_update l _)

end

end Network

end Server

end OmnipaxosKv
