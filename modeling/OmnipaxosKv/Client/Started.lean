import OmnipaxosKv.Client.Endpoint

/-! # Waiting for the start signal

Both programs wait for a start signal before anything else: `Client::run` panics on
another first message, the shim discards what comes before. Neither happens where
the server sends its start signal first.
-/

namespace OmnipaxosKv

namespace Client

/-- Nothing yet, or a start signal and after it responses only. -/
def StartsFirst (messages : List ServerMessage) : Prop :=
  messages = [] ∨ ∃ startTime responses, messages = .startSignal startTime :: responses ∧
    ∀ m ∈ responses, m.commandId.isSome

/-- What holds of the messages holds of the first of them. -/
theorem StartsFirst.mono {ms ms' : List ServerMessage} (h : StartsFirst ms')
    (hpre : ms <+: ms') : StartsFirst ms := by
  rcases h with rfl | ⟨startTime, responses, rfl, hresponses⟩
  · exact .inl (List.prefix_nil.mp hpre)
  · cases ms with
    | nil => exact .inl rfl
    | cons m ms =>
        rw [List.cons_prefix_cons] at hpre
        rcases hpre with ⟨rfl, hpre⟩
        exact .inr ⟨startTime, ms, rfl, fun m hm => hresponses m (hpre.subset hm)⟩

/-- Before the main loop of the shim no message has been taken. -/
def Shim.Waits (s : Shim) : Prop :=
  s.phase = .connecting ∨ s.phase = .waitingStart → s.network.taken = []

theorem Shim.waits_of_looping {s : Shim} (h : s.phase = .looping) : s.Waits := by
  intro hp
  rw [h] at hp
  rcases hp with hp | hp
  · cases hp
  · cases hp

/-- The shim enters its loop with the start signal. -/
theorem Shim.waits_update {activeServer : NodeId} {s : Shim} {l : ShimStep} (h : s.Waits)
    (hfirst : StartsFirst s.network.received) (hg : s.guard activeServer l) :
    (s.update activeServer l).Waits := by
  cases l with
  | invoke op => exact h
  | enqueue r =>
      simp only [Shim.update, Shim.enqueue]
      split
      · exact h
      · split
        · exact h
        · exact h
  | answer r =>
      simp only [Shim.update, Shim.answer]
      split
      · exact h
      · exact h
  | disconnect r => exact h
  | connected => exact fun _ => h (.inl hg)
  | connectFailed =>
      intro hp
      rcases hp with hp | hp
      · cases hp
      · cases hp
  | recvStart =>
      -- the first message is the start signal, and the loop begins
      rcases hg with ⟨hphase, hsome⟩
      rw [Network.received, h (.inr hphase), List.nil_append] at hfirst
      rcases hfirst with hnil | ⟨startTime, responses, hcons, _⟩
      · simp [hnil] at hsome
      · intro hp
        simp [Shim.update, Shim.recvStart, hcons] at hp
  | takeCommand =>
      refine waits_of_looping ?_
      simp only [Shim.update, Shim.takeCommand]
      split
      · exact hg.1
      · exact hg.1
  | resolveSend =>
      refine waits_of_looping ?_
      simp only [Shim.update, Shim.resolveSend]
      repeat' split
      all_goals exact hg.1
  | recvServer =>
      refine waits_of_looping ?_
      simp only [Shim.update, Shim.recvServer, Shim.handleServerMessage]
      repeat' split
      all_goals exact hg.1

end Client

namespace Benchmark

open OmnipaxosKv.Client (StartsFirst)

/-- Before its main loop the client has taken no message, and it has met no message that
`Client::run` or `ServerMessage::command_id` panics on. -/
structure Client.Waits (c : Client) : Prop where
  taken : c.phase = .connecting ∨ c.phase = .waitingStart → c.network.taken = []
  started : c.phase ≠ .panicked .errorWaitingForStartSignal
  identified : c.phase ≠ .panicked .unimplementedCommandId

/-- A phase of its own from which nothing of `Waits` follows. -/
theorem Client.waits_of_phase {c : Client} (phase : ClientPhase) (h : c.phase = phase)
    (hphase : phase = .running ∨ phase = .finished ∨ phase = .panicked .requestInterval ∨
      phase = .panicked .requestDataIndex ∨ phase = .panicked .connection) : c.Waits := by
  rcases hphase with rfl | rfl | rfl | rfl | rfl <;> constructor <;> simp [h]

/-- A response has a command id, and a start signal is not asked for one. -/
theorem Client.phase_handleServerMessage (now : Timestamp) (msg : ServerMessage) (c : Client) :
    (handleServerMessage now msg c).phase = c.phase ∨
      (handleServerMessage now msg c).phase = .panicked .requestDataIndex := by
  cases msg with
  | startSignal startTime => exact .inl rfl
  | write id =>
      simp only [handleServerMessage, ServerMessage.commandId]
      split
      · exact .inr rfl
      · exact .inl rfl
  | read id value =>
      simp only [handleServerMessage, ServerMessage.commandId]
      split
      · exact .inr rfl
      · exact .inl rfl

theorem Client.phase_breakIfFinished (c : Client) :
    c.breakIfFinished.phase = c.phase ∨ c.breakIfFinished.phase = .finished := by
  unfold breakIfFinished
  split
  · exact .inr rfl
  · exact .inl rfl

/-- The client enters its loop with the start signal, and panics at no message. -/
theorem Client.waits_update {activeServer : NodeId} {c : Client} {l : ClientStep} (h : c.Waits)
    (hfirst : StartsFirst c.network.received) (hg : c.guard activeServer l) :
    (c.update activeServer l).Waits := by
  cases l with
  | connected => exact ⟨fun _ => h.taken (.inl hg), by simp [Client.update, Client.connected],
      by simp [Client.update, Client.connected]⟩
  | connectFailed => exact waits_of_phase (.panicked .connection) rfl (by simp)
  | recvStart =>
      -- the first message is the start signal
      rcases hg with ⟨hphase, hsome⟩
      rw [OmnipaxosKv.Client.Network.received, h.taken (.inr hphase), List.nil_append] at hfirst
      rcases hfirst with hnil | ⟨startTime, responses, hcons, _⟩
      · simp [hnil] at hsome
      · simp only [Client.update, Client.recvStart, hcons]
        split
        · exact waits_of_phase .finished rfl (by simp)
        · split
          · exact waits_of_phase .running rfl (by simp)
          · exact waits_of_phase (.panicked .requestInterval) rfl (by simp)
  | recvServer now =>
      rcases hg with ⟨hphase, _⟩
      simp only [Client.update, Client.recvServer]
      split
      · exact h
      · next msg _ _ =>
          have hmsg := phase_handleServerMessage now msg { c with network := c.network.recv }
          split
          · next hrunning =>
              rcases phase_breakIfFinished (handleServerMessage now msg
                { c with network := c.network.recv }) with hp | hp
              · exact waits_of_phase _ (hp.trans hrunning) (by simp)
              · exact waits_of_phase _ hp (by simp)
          · rcases hmsg with hp | hp
            · exact waits_of_phase _ (hp.trans hphase) (by simp)
            · exact waits_of_phase _ hp (by simp)
  | requestTick isWrite => exact waits_of_phase _ hg.1 (by simp)
  | resolveSend now =>
      rcases hg with ⟨hphase, _⟩
      refine waits_of_phase .running ?_ (by simp)
      simp only [Client.update, Client.resolveSend]
      repeat' split
      all_goals exact hphase
  | intervalTick =>
      rcases hg with ⟨hphase, _⟩
      simp only [Client.update, Client.intervalTick]
      split
      · split
        · exact waits_of_phase _ hphase (by simp)
        · exact waits_of_phase (.panicked .requestInterval) rfl (by simp)
      · rcases phase_breakIfFinished
          { c with finalRequestCount := some c.clientData.requestCount } with hp | hp
        · exact waits_of_phase _ (hp.trans hphase) (by simp)
        · exact waits_of_phase _ hp (by simp)

end Benchmark

namespace Client

namespace Endpoint

structure Waits (e : Endpoint) : Prop where
  shim : ∀ s, e = .shim s → s.Waits
  bench : ∀ c, e = .bench c → c.Waits

theorem waits_shim {s : Shim} (h : s.Waits) : (Endpoint.shim s).Waits where
  shim := fun _ hs => Endpoint.shim.inj hs ▸ h
  bench := fun _ hc => by cases hc

theorem waits_bench {c : Benchmark.Client} (h : c.Waits) : (Endpoint.bench c).Waits where
  shim := fun _ hs => by cases hs
  bench := fun _ hc => Endpoint.bench.inj hc ▸ h

/-- Neither program has taken a message at its start. -/
theorem waits_new (activeServer : NodeId) (kind : EndpointKind) :
    (new activeServer kind).Waits := by
  cases kind with
  | shim => exact waits_shim fun _ => rfl
  | bench intervals =>
      exact waits_bench ⟨fun _ => rfl, by simp [Benchmark.Client.new],
        by simp [Benchmark.Client.new]⟩

/-- Only what was taken matters of the network. -/
theorem Waits.withNetwork {e : Endpoint} (h : e.Waits) {n : Network}
    (htaken : n.taken = e.network.taken) : (e.withNetwork n).Waits := by
  cases e with
  | shim s => exact waits_shim fun hp => htaken.trans (h.shim s rfl hp)
  | bench c =>
      have hc := h.bench c rfl
      exact waits_bench ⟨fun hp => htaken.trans (hc.taken hp), hc.started, hc.identified⟩

/-- Every step of an endpoint whose server sends the start signal first keeps this. -/
theorem Waits.update {activeServer : NodeId} {t : Transport} {e : Endpoint} {l : EndpointStep}
    (h : e.Waits) (hfirst : StartsFirst e.network.received) (hg : e.guard activeServer t l) :
    (e.update activeServer l).Waits := by
  cases l with
  | shim l =>
      cases e with
      | shim s => exact waits_shim (Shim.waits_update (h.shim s rfl) hfirst hg)
      | bench c => exact absurd hg id
  | bench l =>
      cases e with
      | shim s => exact absurd hg id
      | bench c => exact waits_bench (Benchmark.Client.waits_update (h.bench c rfl) hfirst hg)
  | connection l => exact h.withNetwork rfl
  | handOn => exact h.withNetwork rfl
  | arrive msg => exact h.withNetwork rfl

end Endpoint

end Client

end OmnipaxosKv
