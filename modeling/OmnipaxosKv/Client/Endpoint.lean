import OmnipaxosKv.Client.Client
import OmnipaxosKv.Client.Tickets

/-! # What connects to a server

A shim or a benchmark client, with the tasks behind its connection. What the server sends
it is arbitrary here.
-/

namespace OmnipaxosKv

namespace Client

/-- A running `api_shim` or `client`. -/
inductive Endpoint where
  | shim (s : Shim)
  | bench (c : Benchmark.Client)

/-- Which of the two programs is started. -/
inductive EndpointKind where
  | shim
  | bench (intervals : List Benchmark.RequestInterval)
deriving DecidableEq, Repr

/-- The steps of its task, of its connection, and of the server's reader and writer. -/
inductive EndpointStep where
  | shim (l : ShimStep)
  | bench (l : Benchmark.ClientStep)
  | connection (l : PipeStep)
  | handOn
  | arrive (msg : ServerMessage)
deriving DecidableEq, Repr

namespace Network

/-- All messages that the reader task put into `server_messages`. -/
def received (n : Network) : List ServerMessage := n.taken ++ n.serverMessages

def withPipe (activeServer : NodeId) (p : Pipe ClientMessage) (n : Network) : Network :=
  { n with toServer := Function.update n.toServer activeServer p }

def arrive (msg : ServerMessage) (n : Network) : Network :=
  { n with serverMessages := n.serverMessages ++ [msg] }

/-- Taking a message receives none. -/
@[simp] theorem received_recv (n : Network) : n.recv.received = n.received := by
  simp only [received, recv, List.append_assoc]
  cases n.serverMessages <;> rfl

end Network

namespace Endpoint

def new (activeServer : NodeId) : EndpointKind → Endpoint
  | .shim => .shim (Shim.new activeServer)
  | .bench intervals => .bench (Benchmark.Client.new activeServer intervals)

def network : Endpoint → Network
  | .shim s => s.network
  | .bench c => c.network

def withNetwork (n : Network) : Endpoint → Endpoint
  | .shim s => .shim { s with network := n }
  | .bench c => .bench { c with network := n }

@[simp] theorem network_withNetwork (n : Network) (e : Endpoint) :
    (e.withNetwork n).network = n := by
  cases e <;> rfl

/-- The commands it has issued; a command's id is its position. -/
def commands : Endpoint → List KVCommand
  | .shim s => s.commands
  | .bench c => c.commands

/-- The message of the `network.send` its task is in. -/
def sending : Endpoint → Option ClientMessage
  | .shim s => s.sending
  | .bench c => c.message

/-- `Network::new` has returned. -/
def Connected : Endpoint → Prop
  | .shim s => s.phase ≠ .connecting
  | .bench c => c.phase ≠ .connecting

instance (e : Endpoint) : Decidable e.Connected := by
  cases e <;> unfold Connected <;> infer_instance

def pipe (activeServer : NodeId) (e : Endpoint) : Pipe ClientMessage :=
  e.network.toServer activeServer

def guard (activeServer : NodeId) (t : Transport) : EndpointStep → Endpoint → Prop
  | .shim l, .shim s => s.guard activeServer l
  | .bench l, .bench c => c.guard activeServer l
  | .connection l, e => (e.pipe activeServer).guard serverTask t l
  | .handOn, e => (e.pipe activeServer).next?.isSome
  | .arrive _, e => e.network.serverMessages.length < networkBatchSize
  | _, _ => False

instance (activeServer : NodeId) (t : Transport) (l : EndpointStep) (e : Endpoint) :
    Decidable (guard activeServer t l e) := by
  cases l <;> cases e <;> unfold guard <;> infer_instance

def update (activeServer : NodeId) : EndpointStep → Endpoint → Endpoint
  | .shim l, .shim s => .shim (s.update activeServer l)
  | .bench l, .bench c => .bench (c.update activeServer l)
  | .connection l, e => e.withNetwork (e.network.withPipe activeServer
      ((e.pipe activeServer).update serverTask l))
  | .handOn, e => e.withNetwork (e.network.withPipe activeServer (e.pipe activeServer).forward)
  | .arrive msg, e => e.withNetwork (e.network.arrive msg)
  | _, e => e

def endpoint (activeServer : NodeId) (t : Transport) (kind : EndpointKind) :
    Machine Endpoint EndpointStep where
  init := fun e => e = new activeServer kind
  guard := guard activeServer t
  update := update activeServer

/-! ## What every step keeps -/

structure Sound (activeServer : NodeId) (e : Endpoint) : Prop where
  session : Session activeServer e.network e.commands e.sending
  ordered : (e.pipe activeServer).Ordered
  shim : ∀ s, e = .shim s → s.Pending activeServer ∧ s.Tickets
  bench : ∀ c, e = .bench c → c.Conversing activeServer

section

variable {activeServer : NodeId} {t : Transport} {kind : EndpointKind} {e : Endpoint}

/-- The invariants of the shim make its endpoint sound. -/
theorem sound_shim {s : Shim} (hp : s.Pending activeServer) (ht : s.Tickets)
    (ho : (s.network.toServer activeServer).Ordered) : (Endpoint.shim s).Sound activeServer where
  session := hp.session
  ordered := ho
  shim := by
    intro s' hs
    obtain rfl := Endpoint.shim.inj hs
    exact ⟨hp, ht⟩
  bench := fun _ hc => by cases hc

/-- The invariants of the benchmark client make its endpoint sound. -/
theorem sound_bench {c : Benchmark.Client} (hc : c.Conversing activeServer)
    (ho : (c.network.toServer activeServer).Ordered) : (Endpoint.bench c).Sound activeServer where
  session := hc.session
  ordered := ho
  shim := fun _ hs => by cases hs
  bench := by
    intro c' hc'
    obtain rfl := Endpoint.bench.inj hc'
    exact hc

/-- Both programs start sound. -/
theorem sound_new (activeServer : NodeId) (kind : EndpointKind) :
    (new activeServer kind).Sound activeServer := by
  cases kind with
  | shim =>
      exact sound_shim (Shim.pending_new activeServer) (Shim.tickets_new activeServer)
        Pipe.ordered_new
  | bench intervals =>
      exact sound_bench (Benchmark.Client.conversing_new activeServer intervals) Pipe.ordered_new

/-- What a `network.send` does to the pipe and to what was received. -/
theorem send_frame {n n' : Network} {msg : ClientMessage} (ha : n.Aligned)
    (hs : n.send activeServer msg = some n') :
    n'.received = n.received ∧
      ((n'.toServer activeServer) = n.toServer activeServer ∨
        (n.toServer activeServer).send msg = some (n'.toServer activeServer)) := by
  rcases Network.send_cases ha hs with ⟨_, pipe, hpipe, rfl⟩ | ⟨_, slots, rfl, _⟩
  · refine ⟨rfl, .inr ?_⟩
    dsimp only
    rw [Function.update_self, hpipe]
  · exact ⟨rfl, .inl rfl⟩

/-- The task of an endpoint leaves alone what was received and what the reader at the
server has handed on, and sends at most one message. -/
structure TaskFrame (activeServer : NodeId) (n n' : Network) : Prop where
  received : n'.received = n.received
  pipe : n'.toServer activeServer = n.toServer activeServer ∨
    (∃ msg, (n.toServer activeServer).send msg = some (n'.toServer activeServer)) ∨
    n'.toServer activeServer = (n.toServer activeServer).close

theorem taskFrame_refl (activeServer : NodeId) (n : Network) : TaskFrame activeServer n n :=
  ⟨rfl, .inl rfl⟩

theorem taskFrame_recv (activeServer : NodeId) (n : Network) : TaskFrame activeServer n n.recv :=
  ⟨n.received_recv, .inl rfl⟩

/-- Every step of the shim is within the frame. -/
theorem taskFrame_shim {s : Shim} (hp : s.Pending activeServer) (l : ShimStep) :
    TaskFrame activeServer s.network (s.update activeServer l).network := by
  cases l with
  | enqueue r =>
      simp only [Shim.update, Shim.enqueue]
      repeat' split
      all_goals exact taskFrame_refl _ _
  | answer r =>
      simp only [Shim.update, Shim.answer]
      split <;> exact taskFrame_refl _ _
  | recvStart => exact taskFrame_recv _ _
  | takeCommand =>
      simp only [Shim.update, Shim.takeCommand]
      split <;> exact taskFrame_refl _ _
  | resolveSend =>
      simp only [Shim.update, Shim.resolveSend]
      split
      · exact taskFrame_refl _ _
      · next msg _ =>
          split
          · exact taskFrame_refl _ _
          · next n hn =>
              rcases send_frame hp.session.aligned hn with ⟨hreceived, hpipe⟩
              exact ⟨hreceived, hpipe.imp_right fun h => .inl ⟨msg, h⟩⟩
  | recvServer =>
      simp only [Shim.update, Shim.recvServer]
      split
      · exact taskFrame_refl _ _
      · next msg _ _ =>
          have hnetwork : (Shim.handleServerMessage msg
              { s with network := s.network.recv }).network = s.network.recv := by
            unfold Shim.handleServerMessage
            repeat' split
            all_goals rfl
          rw [hnetwork]
          exact taskFrame_recv _ _
  | _ => exact ⟨rfl, .inl rfl⟩

/-- A shutdown after a step within the frame is within it. -/
theorem taskFrame_shutdown {n n' : Network} (h : TaskFrame activeServer n n')
    (hp : n'.toServer activeServer = n.toServer activeServer) :
    TaskFrame activeServer n n'.shutdown := by
  refine ⟨h.received, ?_⟩
  simp only [Network.shutdown, hp]
  split
  · exact .inr (.inr rfl)
  · exact .inl rfl

/-- Every step of the benchmark client is within the frame. -/
theorem taskFrame_bench {c : Benchmark.Client} (hc : c.Conversing activeServer)
    (l : Benchmark.ClientStep) :
    TaskFrame activeServer c.network (c.update activeServer l).network := by
  -- the only step that closes the connection is the end of the loop
  have hbreak : ∀ c' : Benchmark.Client, TaskFrame activeServer c.network c'.network →
      c'.network.toServer activeServer = c.network.toServer activeServer →
      TaskFrame activeServer c.network c'.breakIfFinished.network := by
    intro c' h hp
    unfold Benchmark.Client.breakIfFinished
    split
    · exact taskFrame_shutdown h hp
    · exact h
  cases l with
  | recvStart =>
      simp only [Benchmark.Client.update, Benchmark.Client.recvStart]
      repeat' split
      all_goals exact taskFrame_recv _ _
  | recvServer now =>
      simp only [Benchmark.Client.update, Benchmark.Client.recvServer]
      split
      · exact taskFrame_refl _ _
      · next msg _ _ =>
          -- the handler itself leaves the network alone
          have hnetwork : (Benchmark.Client.handleServerMessage now msg
              { c with network := c.network.recv }).network = c.network.recv := by
            unfold Benchmark.Client.handleServerMessage
            repeat' split
            all_goals rfl
          have hrecv : TaskFrame activeServer c.network (Benchmark.Client.handleServerMessage now
              msg { c with network := c.network.recv }).network := by
            rw [hnetwork]
            exact taskFrame_recv _ _
          split
          · exact hbreak _ hrecv (by rw [hnetwork]; rfl)
          · exact hrecv
  | resolveSend now =>
      simp only [Benchmark.Client.update, Benchmark.Client.resolveSend]
      split
      · exact taskFrame_refl _ _
      · split
        · exact taskFrame_refl _ _
        · next n hn =>
            rcases send_frame hc.session.aligned hn with ⟨hreceived, hpipe⟩
            exact ⟨hreceived, hpipe.imp_right fun h => .inl ⟨_, h⟩⟩
  | intervalTick =>
      simp only [Benchmark.Client.update, Benchmark.Client.intervalTick]
      split
      · split
        · exact taskFrame_refl _ _
        · exact taskFrame_refl _ _
      · exact hbreak _ (taskFrame_refl _ _) rfl
  | _ => exact ⟨rfl, .inl rfl⟩

/-- Within the frame the connection keeps its order. -/
theorem TaskFrame.ordered {n n' : Network} (h : TaskFrame activeServer n n')
    (ho : (n.toServer activeServer).Ordered) : (n'.toServer activeServer).Ordered := by
  rcases h.pipe with heq | ⟨msg, hsend⟩ | heq
  · rw [heq]
    exact ho
  · exact ho.send hsend
  · rw [heq]
    exact ho.close

/-- Within the frame nothing is delivered. -/
theorem TaskFrame.delivered {n n' : Network} (h : TaskFrame activeServer n n') :
    (n'.toServer activeServer).delivered = (n.toServer activeServer).delivered := by
  rcases h.pipe with heq | ⟨msg, hsend⟩ | heq
  · rw [heq]
  · exact Pipe.delivered_send hsend
  · rw [heq]
    rfl

/-- Steps of the connection keep the session. -/
theorem Sound.withNetwork (h : e.Sound activeServer) {n : Network}
    (hslots : n.serverConnections = e.network.serverConnections)
    (hacc : (n.toServer activeServer).writer.accepted = (e.pipe activeServer).writer.accepted)
    (htaken : n.taken = e.network.taken) (ho : (n.toServer activeServer).Ordered) :
    (e.withNetwork n).Sound activeServer := by
  cases e with
  | shim s =>
      rcases h.shim s rfl with ⟨hp, ht⟩
      have hsession := hp.session.frame hslots hacc htaken
      have hsub : s.network.taken ⊆ n.taken := by
        rw [htaken]
        exact List.Subset.refl _
      exact sound_shim (hp.withNetwork n hsession hsub) (ht.withNetwork n _ _ hsub) ho
  | bench c =>
      have hc := h.bench c rfl
      refine sound_bench (hc.frame _ (hc.session.frame hslots hacc htaken) rfl rfl rfl rfl ?_) ho
      intro hphase
      have hstarted := hc.started hphase
      dsimp only
      rw [htaken]
      exact hstarted

/-- Every step of the task, its connection and the server keeps the endpoint sound. -/
theorem Sound.update (h : e.Sound activeServer) {l : EndpointStep} (hg : e.guard activeServer t l) :
    (e.update activeServer l).Sound activeServer := by
  cases l with
  | shim l =>
      cases e with
      | shim s =>
          rcases h.shim s rfl with ⟨hp, ht⟩
          exact sound_shim (hp.update hg) (ht.update hp hg) ((taskFrame_shim hp l).ordered h.ordered)
      | bench c => exact absurd hg id
  | bench l =>
      cases e with
      | shim s => exact absurd hg id
      | bench c =>
          have hc := h.bench c rfl
          exact sound_bench (hc.update hg) ((taskFrame_bench hc l).ordered h.ordered)
  | connection l =>
      refine h.withNetwork rfl ?_ rfl ?_
      · simp only [Network.withPipe, Function.update_self]
        exact Pipe.accepted_update l _
      · simp only [Network.withPipe, Function.update_self]
        exact h.ordered.update l
  | handOn =>
      rcases Option.isSome_iff_exists.mp hg with ⟨m, hm⟩
      refine h.withNetwork rfl ?_ rfl ?_
      · simp only [Network.withPipe, Function.update_self]
        rfl
      · simp only [Network.withPipe, Function.update_self]
        exact h.ordered.forward hm
  | arrive msg => exact h.withNetwork rfl rfl rfl h.ordered

/-- Only arrivals add to what was received. -/
theorem received_update (h : e.Sound activeServer) (l : EndpointStep) :
    (e.update activeServer l).network.received = e.network.received ++
      (match l with | .arrive msg => [msg] | _ => []) := by
  cases l with
  | shim l =>
      cases e with
      | shim s =>
          rw [List.append_nil]
          exact (taskFrame_shim (h.shim s rfl).1 l).received
      | bench c => simp [update]
  | bench l =>
      cases e with
      | shim s => simp [update]
      | bench c =>
          rw [List.append_nil]
          exact (taskFrame_bench (h.bench c rfl) l).received
  | connection l =>
      rw [List.append_nil, update, network_withNetwork]
      rfl
  | handOn =>
      rw [List.append_nil, update, network_withNetwork]
      rfl
  | arrive msg =>
      rw [update, network_withNetwork]
      simp [Network.received, Network.arrive]

/-- Only the reader at the server adds to what was handed on. -/
theorem delivered_update (h : e.Sound activeServer) {l : EndpointStep} (hl : l ≠ .handOn) :
    ((e.update activeServer l).pipe activeServer).delivered = (e.pipe activeServer).delivered := by
  cases l with
  | shim l =>
      cases e with
      | shim s => exact (taskFrame_shim (h.shim s rfl).1 l).delivered
      | bench c => rfl
  | bench l =>
      cases e with
      | shim s => rfl
      | bench c => exact (taskFrame_bench (h.bench c rfl) l).delivered
  | connection l =>
      rw [update, pipe, network_withNetwork, Network.withPipe]
      dsimp only
      rw [Function.update_self]
      exact Pipe.delivered_update l _
  | handOn => exact absurd rfl hl
  | arrive msg =>
      rw [update, pipe, network_withNetwork]
      rfl

/-- The message that the server hands on is delivered. -/
theorem delivered_handOn {msg : ClientMessage} (hm : (e.pipe activeServer).next? = some msg) :
    ((e.update activeServer .handOn).pipe activeServer).delivered =
      (e.pipe activeServer).delivered ++ [msg] := by
  rw [update, pipe, network_withNetwork, Network.withPipe]
  dsimp only
  rw [Function.update_self]
  exact Pipe.delivered_forward hm

/-- Requests of a shim are final in the sense of `Request.Final`. -/
theorem final_update {sh : Shim} (h : (Endpoint.shim sh).Sound activeServer) {l : EndpointStep}
    (hg : (Endpoint.shim sh).guard activeServer t l) {r : RequestId} {q : Request}
    (hq : sh.requests[r]? = some q) :
    ∃ sh' q', (Endpoint.shim sh).update activeServer l = .shim sh' ∧
      sh'.requests[r]? = some q' ∧ q.Final q' := by
  cases l with
  | shim l =>
      rcases (h.shim sh rfl).2.final hg hq with ⟨q', hq', hfinal⟩
      exact ⟨_, q', rfl, hq', hfinal⟩
  | bench l => exact absurd hg id
  | connection l => exact ⟨_, q, rfl, hq, final_refl q⟩
  | handOn => exact ⟨_, q, rfl, hq, final_refl q⟩
  | arrive msg => exact ⟨_, q, rfl, hq, final_refl q⟩

end

end Endpoint

end Client

end OmnipaxosKv
