import OmnipaxosKv.Lib.Machine
import OmnipaxosKv.Server.Bootstrap
import OmnipaxosKv.Server.Server

/-! # Replica refinement

The database of a server is the fold of `Database::handle_command` over the decided
commands below its cursor, whatever happens to its connections and clients. The
network is an arbitrary environment here.
-/

namespace OmnipaxosKv

namespace Server

namespace OmniPaxosServer

variable {Ω M : Type}

/-! ## What the handlers do -/

/-- The responses of coordinator `node` to a log applied to `d`. -/
def responses (node : NodeId) : Database → List Command → List (ClientId × ServerMessage)
  | _, [] => []
  | d, c :: log =>
      (if c.coordinatorId = node then [(c.clientId, response d c)] else []) ++
        responses node (d.handleCommand c.kvCmd).1 log

theorem responses_append (node : NodeId) (d : Database) (log log' : List Command) :
    responses node d (log ++ log') = responses node d log ++ responses node (d.replayFrom log) log' := by
  induction log generalizing d with
  | nil => rfl
  | cons c log ih => simp [responses, ih, Database.replayFrom]

/-- The messages are sent to clients one by one. -/
def sendAll (messages : List (ClientId × ServerMessage)) (n : Network M) : Network M :=
  messages.foldl (fun n m => n.sendToClient m.1 m.2) n

/-- The commands are replayed on the database, and their responses sent. -/
theorem updateDatabaseAndRespond_eq (cfg : Config) (commands : List Command)
    (s : OmniPaxosServer Ω M) :
    updateDatabaseAndRespond cfg commands s = { s with
      database := s.database.replayFrom commands
      applied := s.applied ++ commands
      network := sendAll (responses cfg.serverId s.database commands) s.network } := by
  unfold updateDatabaseAndRespond
  induction commands generalizing s with
  | nil => simp [Database.replayFrom, responses, sendAll]
  | cons c commands ih =>
      rw [List.foldl_cons, ih]
      by_cases hc : c.coordinatorId = cfg.serverId
      · simp [applyCommand, hc, responses, sendAll, Database.replayFrom]
      · simp [applyCommand, hc, responses, sendAll, Database.replayFrom]

theorem decidedCommands_map (commands : List Command) :
    decidedCommands (commands.map .decided) = some commands := by
  induction commands with
  | nil => rfl
  | cons c commands ih => simp [decidedCommands, ih]

section

variable {lib : OmniPaxos Ω M} {decided : Ω → List Command} {s : OmniPaxosServer Ω M}

/-- `handle_decided_entries` applies the decided commands behind the cursor. -/
theorem handleDecidedEntries_eq (cfg : Config) (hlib : lib.Lawful decided)
    (hs : s.currentDecidedIdx ≤ (decided s.omnipaxos).length) :
    handleDecidedEntries lib cfg s =
      updateDatabaseAndRespond cfg ((decided s.omnipaxos).drop s.currentDecidedIdx)
        { s with currentDecidedIdx := (decided s.omnipaxos).length } := by
  unfold handleDecidedEntries
  rw [hlib.getDecidedIdx_eq]
  by_cases hlt : s.currentDecidedIdx < (decided s.omnipaxos).length
  · simp only [hlt, if_true, hlib.readDecidedSuffix_eq _ _ hlt, decidedCommands_map]
  · have heq : s.currentDecidedIdx = (decided s.omnipaxos).length := by omega
    have hdrop : (decided s.omnipaxos).drop s.currentDecidedIdx = [] :=
      List.drop_eq_nil_of_le (by omega)
    rw [if_neg hlt, hdrop]
    simp [updateDatabaseAndRespond, ← heq]

/-- The cursor, the applied commands and the database agree with the decided log. -/
structure Refines (decided : Ω → List Command) (s : OmniPaxosServer Ω M) : Prop where
  cursor : s.currentDecidedIdx ≤ (decided s.omnipaxos).length
  applied : s.applied = (decided s.omnipaxos).take s.currentDecidedIdx
  database : s.database = Database.replay s.applied

/-- What no step may do to the parts that `Refines` speaks of: the decided log grows,
the rest stays. -/
theorem Refines.grow (h : s.Refines decided) (s' : OmniPaxosServer Ω M)
    (hlog : decided s.omnipaxos <+: decided s'.omnipaxos)
    (hidx : s'.currentDecidedIdx = s.currentDecidedIdx) (happ : s'.applied = s.applied)
    (hdb : s'.database = s.database) : s'.Refines decided := by
  refine ⟨hidx ▸ h.cursor.trans hlog.length_le, ?_, by rw [hdb, happ, h.database]⟩
  obtain ⟨rest, hrest⟩ := hlog
  rw [happ, hidx, ← hrest, h.applied, List.take_append_of_le_length h.cursor]

/-- After it the cursor is at the end of the decided log. -/
theorem Refines.handleDecidedEntries (cfg : Config) (hlib : lib.Lawful decided) (h : s.Refines decided) :
    (handleDecidedEntries lib cfg s).Refines decided ∧
      (OmniPaxosServer.handleDecidedEntries lib cfg s).omnipaxos = s.omnipaxos ∧
      (OmniPaxosServer.handleDecidedEntries lib cfg s).currentDecidedIdx =
        (decided s.omnipaxos).length := by
  rw [handleDecidedEntries_eq cfg hlib h.cursor, updateDatabaseAndRespond_eq]
  refine ⟨⟨le_refl _, ?_, ?_⟩, rfl, rfl⟩
  · simp [h.applied]
  · simp [h.database, Database.replay]

theorem Refines.sendOutgoingMsgs (hlib : lib.Lawful decided) (h : s.Refines decided) :
    (sendOutgoingMsgs lib s).Refines decided :=
  h.grow _ (hlib.takeOutgoingMessages_grows _) rfl rfl rfl

/-- A message of the library may decide entries, which are applied at once; a start signal applies
nothing. -/
theorem Refines.handleClusterMessage (cfg : Config) (hlib : lib.Lawful decided) (h : s.Refines decided)
    (message : ClusterMessage M) : (handleClusterMessage lib cfg message s).Refines decided := by
  cases message with
  | omniPaxosMessage m =>
      have hin : ({ s with omnipaxos := lib.handleIncoming s.omnipaxos m } :
          OmniPaxosServer Ω M).Refines decided :=
        h.grow _ (hlib.handleIncoming_grows _ _) rfl rfl rfl
      exact (hin.handleDecidedEntries cfg hlib).1
  | leaderStartSignal startTime => exact h.grow _ (List.prefix_refl _) rfl rfl rfl

/-- An `append` applies nothing by itself. -/
theorem Refines.appendToLog (cfg : Config) (hlib : lib.Lawful decided) (h : s.Refines decided) (client : ClientId)
    (commandId : CommandId) (kvCommand : KVCommand) :
    (appendToLog lib cfg client commandId kvCommand s).Refines decided := by
  unfold OmniPaxosServer.appendToLog
  dsimp only
  split
  · next ω happend => exact h.grow _ (hlib.append_grows _ _ _ happend) rfl rfl rfl
  · exact h.grow _ (List.prefix_refl _) rfl rfl rfl

/-- Every step of the main task keeps the replica in agreement with the decided log. -/
theorem Refines.update (cfg : Config) (hlib : lib.Lawful decided) (h : s.Refines decided) (l : ServerStep) :
    (s.update lib cfg l).Refines decided := by
  -- the library may decide entries while it tries to become leader, but none is applied
  have hattempt : (takeover.attempt lib s).Refines decided :=
    Refines.sendOutgoingMsgs hlib
      (h.grow ({ s with omnipaxos := lib.tryBecomeLeader s.omnipaxos })
        (hlib.tryBecomeLeader_grows _) rfl rfl rfl)
  cases l with
  | takeover now =>
      simp only [OmniPaxosServer.update, takeover]
      split
      · split
        · exact h.grow _ (List.prefix_refl _) rfl rfl rfl
        · exact hattempt
      · exact hattempt
  | tick =>
      exact Refines.sendOutgoingMsgs hlib
        (h.grow ({ s with omnipaxos := lib.tick s.omnipaxos })
          (hlib.tick_grows _) rfl rfl rfl)
  | recvCluster count => exact h.grow _ (List.prefix_refl _) rfl rfl rfl
  | nextClusterMessage =>
      simp only [OmniPaxosServer.update, nextClusterMessage]
      split
      · next received sender message rest _ _ =>
          -- the message may apply entries; the end of the batch touches neither database nor cursor
          have hmsg := Refines.handleClusterMessage cfg hlib
            (h.grow ({ s with
                clusterMsgBuf := rest
                task := .clusterBatch (received || isStartSignal message) })
              (List.prefix_refl _) rfl rfl rfl) message
          split
          · exact hmsg
          · split
            · exact (hmsg.sendOutgoingMsgs hlib).grow _ (List.prefix_refl _) rfl rfl rfl
            · exact hmsg
      · exact h
  | recvClient count => exact h.grow _ (List.prefix_refl _) rfl rfl rfl
  | nextClientMessage =>
      simp only [OmniPaxosServer.update, nextClientMessage]
      split
      · next client commandId kvCommand rest _ =>
          have happ := Refines.appendToLog cfg hlib
            (h.grow ({ s with clientMsgBuf := rest }) (List.prefix_refl _) rfl rfl rfl)
            client commandId kvCommand
          split
          · exact happ
          · split
            · exact (happ.sendOutgoingMsgs hlib).grow _ (List.prefix_refl _) rfl rfl rfl
            · exact happ
      · exact h
  | crash => exact h.grow _ (List.prefix_refl _) rfl rfl rfl

/-- The cursor only moves forward. -/
theorem currentDecidedIdx_le_update (cfg : Config) (hlib : lib.Lawful decided) (h : s.Refines decided)
    (l : ServerStep) : s.currentDecidedIdx ≤ (s.update lib cfg l).currentDecidedIdx := by
  cases l with
  | takeover now =>
      simp only [OmniPaxosServer.update, takeover]
      split
      · split <;> exact le_refl _
      · exact le_refl _
  | nextClusterMessage =>
      simp only [OmniPaxosServer.update, nextClusterMessage]
      split
      · next received sender message rest _ _ =>
          -- the cursor moves with the decided entries only, and they only grow
          have hin : ∀ s' : OmniPaxosServer Ω M, s'.Refines decided →
              s'.currentDecidedIdx ≤ (handleClusterMessage lib cfg message s').currentDecidedIdx := by
            intro s' hs'
            cases message with
            | omniPaxosMessage m =>
                have hgrow : ({ s' with omnipaxos := lib.handleIncoming s'.omnipaxos m } :
                    OmniPaxosServer Ω M).Refines decided :=
                  hs'.grow _ (hlib.handleIncoming_grows _ _) rfl rfl rfl
                exact hgrow.cursor.trans_eq (hgrow.handleDecidedEntries cfg hlib).2.2.symm
            | leaderStartSignal startTime => exact le_refl _
          have hstep := hin { s with
              clusterMsgBuf := rest
              task := .clusterBatch (received || isStartSignal message) }
            (h.grow _ (List.prefix_refl _) rfl rfl rfl)
          split
          · exact hstep
          · split <;> exact hstep
      · exact le_refl _
  | nextClientMessage =>
      simp only [OmniPaxosServer.update, nextClientMessage]
      -- an `append` does not move it
      have happ : ∀ (client : ClientId) (commandId : CommandId) (kvCommand : KVCommand)
          (s' : OmniPaxosServer Ω M), (appendToLog lib cfg client commandId kvCommand
            s').currentDecidedIdx = s'.currentDecidedIdx := by
        intro client commandId kvCommand s'
        unfold appendToLog
        dsimp only
        split <;> rfl
      split
      · next client commandId kvCommand rest _ =>
          have hidx := happ client commandId kvCommand { s with clientMsgBuf := rest }
          split
          · exact hidx.ge
          · split
            · exact hidx.ge
            · exact hidx.ge
      · exact le_refl _
  | _ => exact le_refl _

end

/-! ## Runs -/

inductive ReplicaStep (M : Type) where
  | main (l : ServerStep)
  /-- connections, tasks and peers do anything to the network -/
  | environment (network : Network M)

/-- A server from `OmniPaxosServer::new` on, among arbitrary connections. -/
def replica (lib : OmniPaxos Ω M) (cfg : Config) :
    Machine (OmniPaxosServer Ω M) (ReplicaStep M) where
  init := fun s => ∃ ω, s = new cfg ω
  guard
    | .main l, s => s.guard cfg l
    | .environment _, _ => True
  update
    | .main l, s => s.update lib cfg l
    | .environment network, s => { s with network := network }

instance (lib : OmniPaxos Ω M) (cfg : Config) (l : ReplicaStep M) (s : OmniPaxosServer Ω M) :
    Decidable ((replica lib cfg).guard l s) := by
  cases l <;> unfold replica <;> infer_instance

section

variable {lib : OmniPaxos Ω M} {decided : Ω → List Command} {cfg : Config}
  {s : OmniPaxosServer Ω M}

/-- In every run the replica refines the decided log. -/
theorem refines_reachable (hlib : lib.Lawful decided) (hr : (replica lib cfg).Reachable s) :
    s.Refines decided := by
  refine (replica lib cfg).invariant (Refines decided) ?_ ?_ s hr
  · rintro _ ⟨ω, rfl⟩
    exact ⟨Nat.zero_le _, rfl, rfl⟩
  · rintro (l | network) s _ _ h
    · exact h.update cfg hlib l
    · exact h.grow _ (List.prefix_refl _) rfl rfl rfl

/-- In every reachable state the cursor is within the decided log, the commands below it
have been applied once each and in order, and the database is their fold. The cursor
never goes back; handling a library message takes it to the end of the decided log;
servers with equal cursors in one growing log hold equal databases. -/
theorem replica_refines_decided_log (lib : OmniPaxos Ω M) (decided : Ω → List Command)
    (hlib : lib.Lawful decided) :
    (∀ cfg s, (replica lib cfg).Reachable s →
      s.currentDecidedIdx ≤ lib.getDecidedIdx s.omnipaxos ∧
      s.applied = (decided s.omnipaxos).take s.currentDecidedIdx ∧
      s.database = Database.replay ((decided s.omnipaxos).take s.currentDecidedIdx)) ∧
    (∀ cfg l s, (replica lib cfg).Reachable s → (replica lib cfg).guard l s →
      s.currentDecidedIdx ≤ ((replica lib cfg).update l s).currentDecidedIdx) ∧
    (∀ cfg s, (replica lib cfg).Reachable s → ∀ m rest task,
      let handled := handleClusterMessage lib cfg (.omniPaxosMessage m)
        { s with clusterMsgBuf := rest, task := task }
      handled.currentDecidedIdx = lib.getDecidedIdx handled.omnipaxos) ∧
    (∀ cfg₁ cfg₂ s₁ s₂ log, (replica lib cfg₁).Reachable s₁ → (replica lib cfg₂).Reachable s₂ →
      decided s₁.omnipaxos <+: log → decided s₂.omnipaxos <+: log →
      s₁.currentDecidedIdx = s₂.currentDecidedIdx → s₁.database = s₂.database) := by
  refine ⟨?_, ?_, ?_, ?_⟩
  · intro cfg s hr
    have h := refines_reachable hlib hr
    exact ⟨hlib.getDecidedIdx_eq _ ▸ h.cursor, h.applied, h.applied ▸ h.database⟩
  · rintro cfg (l | network) s hr _
    · exact currentDecidedIdx_le_update cfg hlib (refines_reachable hlib hr) l
    · exact le_refl _
  · intro cfg s hr m rest task
    have h : ({ s with
        clusterMsgBuf := rest, task := task, omnipaxos := lib.handleIncoming s.omnipaxos m } :
        OmniPaxosServer Ω M).Refines decided :=
      (refines_reachable hlib hr).grow _ (hlib.handleIncoming_grows _ m) rfl rfl rfl
    obtain ⟨_, hω, hidx⟩ := h.handleDecidedEntries cfg hlib
    dsimp only
    rw [hlib.getDecidedIdx_eq]
    change (handleDecidedEntries lib cfg _).currentDecidedIdx =
      (decided (handleDecidedEntries lib cfg _).omnipaxos).length
    rw [hidx, hω]
  · rintro cfg₁ cfg₂ s₁ s₂ log hr₁ hr₂ ⟨rest₁, hlog₁⟩ ⟨rest₂, hlog₂⟩ hidx
    have h₁ := refines_reachable hlib hr₁
    have h₂ := refines_reachable hlib hr₂
    -- both apply the same entries of the one log
    have hlog : ∀ (log' rest : List Command) (i : ℕ), log' ++ rest = log → i ≤ log'.length →
        log'.take i = log.take i := by
      intro log' rest i hrest hi
      rw [← hrest, List.take_append_of_le_length hi]
    rw [h₁.database, h₂.database, h₁.applied, h₂.applied, hlog _ _ _ hlog₁ h₁.cursor,
      hlog _ _ _ hlog₂ h₂.cursor, hidx]

end

/-- Server 1 is told of a decided command while it establishes the leader. -/
theorem replica_applies_decided_put :
    let s := (replica soloLibrary Network.oneClientConfig).after
      (new Network.oneClientConfig [])
      [.environment { Network.new Network.oneClientConfig with
          initializing := false
          clusterMessages := [(2, .omniPaxosMessage ⟨1, 2, 0, .put "k" "v"⟩)] },
        .main (.recvCluster 1), .main .nextClusterMessage]
    s.currentDecidedIdx = 1 ∧ s.database = Database.replay [⟨1, 2, 0, .put "k" "v"⟩] := by
  have hr := (replica soloLibrary Network.oneClientConfig).reachable_after
    [.environment { Network.new Network.oneClientConfig with
          initializing := false
          clusterMessages := [(2, .omniPaxosMessage ⟨1, 2, 0, .put "k" "v"⟩)] },
        .main (.recvCluster 1), .main .nextClusterMessage]
    (.start ⟨[], rfl⟩) (by decide)
  have h := (replica_refines_decided_log soloLibrary id soloLibrary_lawful).1 _ _ hr
  refine ⟨by decide, ?_⟩
  exact h.2.2

end OmniPaxosServer

end Server

end OmnipaxosKv
