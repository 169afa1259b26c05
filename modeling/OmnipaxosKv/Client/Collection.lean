import Mathlib.Data.List.Perm.Subperm
import Mathlib.Data.List.Range
import OmnipaxosKv.Client.Endpoint

/-! # What the benchmark client has collected when it ends

`Client::run` leaves its main loop once `run_finished` holds. That compares the number of
requests, not of responses, with `final_request_count`, and so holds as soon as the last
interval has expired: what has not been answered by then is not waited for.
`collects_every_response_iff` says when the collected data is complete all the same.
-/

namespace OmnipaxosKv

namespace Benchmark

open OmnipaxosKv.Client (Network Session Endpoint EndpointStep EndpointKind)

/-- Every row of the collected data has its response. -/
def ClientData.Complete (d : ClientData) : Prop :=
  d.responseCount = d.requestCount ∧ ∀ row ∈ d.requestData, row.responseTime.isSome

instance (d : ClientData) : Decidable d.Complete := inferInstanceAs (Decidable (_ ∧ _))

/-- The ids of the responses among some messages. -/
def responseIds (messages : List ServerMessage) : List CommandId :=
  messages.filterMap ServerMessage.commandId

@[simp] theorem responseIds_append (ms ms' : List ServerMessage) :
    responseIds (ms ++ ms') = responseIds ms ++ responseIds ms' :=
  List.filterMap_append

/-- A server answers requests that were issued, each at most once. -/
def Answering : EndpointStep → Endpoint → Prop
  | .arrive msg, e => ∀ id ∈ msg.commandId,
      id < e.commands.length ∧ id ∉ responseIds e.network.received
  | _, _ => True

instance : (l : EndpointStep) → (e : Endpoint) → Decidable (Answering l e)
  | .arrive msg, e => inferInstanceAs (Decidable (∀ id ∈ msg.commandId,
      id < e.commands.length ∧ id ∉ responseIds e.network.received))
  | .shim _, _ | .bench _, _ | .connection _, _ | .handOn, _ => .isTrue trivial

/-- A benchmark client whose server answers each request at most once. -/
def benchmark (activeServer : NodeId) (t : Transport) (intervals : List RequestInterval) :
    Machine Endpoint EndpointStep :=
  (Endpoint.endpoint activeServer t (.bench intervals)).restrict Answering

/-! ## What the rows say -/

namespace ClientData

variable {d d' : ClientData} {now : Timestamp}

/-- The rows that have a response are those of `ids`, each of which was recorded once. -/
structure Records (d : ClientData) (ids : List CommandId) : Prop where
  row : ∀ (i : ℕ) (row : RequestData), d.requestData[i]? = some row →
    (row.responseTime.isSome ↔ i ∈ ids)
  issued : ∀ id ∈ ids, id < d.requestCount
  count : d.responseCount = ids.length

theorem records_new : ClientData.new.Records [] where
  row := by simp [ClientData.new]
  issued := by simp
  count := rfl

/-- A new row has no response yet. -/
theorem Records.newRequest {ids : List CommandId} (h : d.Records ids) (isWrite : Bool) :
    (d.newRequest now isWrite).Records ids where
  row := by
    intro i row hrow
    simp only [ClientData.newRequest] at hrow
    by_cases hi : i < d.requestData.length
    · rw [List.getElem?_append_left hi] at hrow
      exact h.row i row hrow
    · -- the new row is not answered yet
      have hnot : i ∉ ids := fun hmem => hi (h.issued i hmem)
      have hmem := List.mem_of_getElem? hrow
      rw [List.getElem?_append_right (by omega), List.getElem?_singleton] at hrow
      split at hrow
      · rw [← Option.some.inj hrow]
        simp [hnot]
      · cases hrow
  issued := by
    intro id hid
    have hlt := h.issued id hid
    simp only [ClientData.requestCount, ClientData.newRequest, List.length_append] at hlt ⊢
    exact Nat.lt_add_right 1 hlt
  count := h.count

/-- A response is recorded in the row of its id. -/
theorem Records.newResponse {ids : List CommandId} {id : CommandId} (h : d.Records ids)
    (hd : d.newResponse now id = some d') : d'.Records (ids ++ [id]) := by
  unfold ClientData.newResponse at hd
  split at hd
  · next hlt =>
      rw [← Option.some.inj hd]
      refine ⟨?_, ?_, ?_⟩
      · intro i row hrow
        simp only [List.getElem?_modify] at hrow
        rcases Option.map_eq_some_iff.mp hrow with ⟨old, hold, rfl⟩
        rw [List.mem_append, List.mem_singleton, ← h.row i old hold]
        -- the row of the response, or another one
        by_cases hi : id = i
        · simp [hi]
        · simp [hi, Ne.symm hi]
      · intro id' hid'
        simp only [ClientData.requestCount, List.length_modify]
        rcases List.mem_append.mp hid' with hold | hnew
        · exact h.issued id' hold
        · rw [List.mem_singleton.mp hnew]
          exact hlt
      · simp [h.count]
  · cases hd

/-- The data is complete iff every id was recorded. -/
theorem Records.complete_iff {ids : List CommandId} (h : d.Records ids) (hnodup : ids.Nodup) :
    d.Complete ↔ ∀ id < d.requestCount, id ∈ ids := by
  constructor
  · intro hall id hid
    have hget := List.getElem?_eq_getElem (l := d.requestData) hid
    exact (h.row id _ hget).mp (hall.2 _ (List.getElem_mem hid))
  · intro hall
    constructor
    -- distinct ids below the count are all of them once every row is answered
    · have hperm : ids.Perm (List.range d.requestCount) := by
        refine (List.perm_ext_iff_of_nodup hnodup List.nodup_range).mpr fun id => ?_
        rw [List.mem_range]
        exact ⟨h.issued id, hall id⟩
      rw [h.count, hperm.length_eq, List.length_range]
    · intro row hrow
      rcases List.mem_iff_getElem?.mp hrow with ⟨i, hi⟩
      exact (h.row i row hi).mpr (hall i (List.getElem?_eq_some_iff.mp hi).1)

end ClientData

/-! ## What the client keeps -/

namespace Client

/-- The ids of the responses that the client has handled. -/
def handled (c : Client) : List CommandId := responseIds c.network.taken

structure Collecting (c : Client) : Prop where
  issued : ∀ id ∈ responseIds c.network.received, id < c.commands.length
  nodup : (responseIds c.network.received).Nodup
  records : c.clientData.Records c.handled
  waiting : c.phase = .connecting ∨ c.phase = .waitingStart → c.commands = []

section

variable {activeServer : NodeId} {t : Transport} {c : Client}

/-- A new client has recorded nothing and handled nothing. -/
theorem collecting_new (activeServer : NodeId) (intervals : List RequestInterval) :
    (new activeServer intervals).Collecting where
  issued := by
    intro id hid
    cases hid
  nodup := List.nodup_nil
  records := ClientData.records_new
  waiting := fun _ => rfl

/-- Steps that handle no response. -/
theorem Collecting.frame (h : c.Collecting) (c' : Client)
    (hreceived : c'.network.received = c.network.received) (hhandled : c'.handled = c.handled)
    (hdata : c'.clientData = c.clientData) (hcommands : c'.commands = c.commands)
    (hwaiting : c'.phase = .connecting ∨ c'.phase = .waitingStart → c.commands = []) :
    c'.Collecting where
  issued := by
    rw [hreceived, hcommands]
    exact h.issued
  nodup := hreceived ▸ h.nodup
  records := by
    rw [hdata, hhandled]
    exact h.records
  waiting := fun hp => hcommands.trans (hwaiting hp)

theorem Collecting.handled_nodup (h : c.Collecting) : c.handled.Nodup := by
  have hsub : c.handled.Sublist (responseIds c.network.received) :=
    (List.sublist_append_left _ _).filterMap _
  exact hsub.nodup h.nodup

/-- A phase after the start. -/
theorem not_waiting {p : ClientPhase} {P : Prop} (hp : p ≠ .connecting ∧ p ≠ .waitingStart) :
    p = .connecting ∨ p = .waitingStart → P := by
  intro h
  rcases h with h | h
  · exact absurd h hp.1
  · exact absurd h hp.2

theorem Collecting.breakIfFinished (h : c.Collecting) : c.breakIfFinished.Collecting := by
  unfold Client.breakIfFinished
  split
  · exact h.frame _ rfl rfl rfl rfl (not_waiting (by simp))
  · exact h

/-- The first message of `server_messages` is handled next. -/
theorem handled_recv {msg : ServerMessage} {rest : List ServerMessage}
    (hcons : c.network.serverMessages = msg :: rest) :
    responseIds c.network.recv.taken = c.handled ++ responseIds [msg] := by
  rw [handled, ← responseIds_append]
  simp [Network.recv, hcons]

/-- Before the start nothing has been issued, and so nothing is answered. -/
theorem Collecting.recvStart (h : c.Collecting) (hphase : c.phase = .waitingStart) :
    c.recvStart.Collecting := by
  have hnil : c.commands = [] := h.waiting (.inr hphase)
  have hids : responseIds c.network.received = [] := by
    rw [List.eq_nil_iff_forall_not_mem]
    intro id hid
    have hlt := h.issued id hid
    rw [hnil] at hlt
    exact Nat.not_lt_zero id hlt
  have hnone : ∀ n : Network, n.received = c.network.received → responseIds n.taken = [] := by
    intro n hn
    rw [← hn, Network.received, responseIds_append, List.append_eq_nil_iff] at hids
    exact hids.1
  have hrecv : ∀ c' : Client, c'.network = c.network.recv → c'.clientData = c.clientData →
      c'.commands = c.commands → c'.Collecting := by
    intro c' hnetwork hdata hcommands
    refine h.frame c' ?_ ?_ hdata hcommands fun _ => hnil
    · rw [hnetwork, Network.received_recv]
    · rw [handled, handled, hnetwork, hnone _ (Network.received_recv _), hnone _ rfl]
  unfold Client.recvStart
  split
  · split
    · exact hrecv _ rfl rfl rfl
    · split
      · exact hrecv _ rfl rfl rfl
      · exact hrecv _ rfl rfl rfl
  · exact hrecv _ rfl rfl rfl

/-- A response is recorded in the row of its request. -/
theorem Collecting.recvServer (h : c.Collecting) (hconv : c.Conversing activeServer)
    (hsending : c.sending = none) (now : Timestamp) : (c.recvServer now).Collecting := by
  unfold Client.recvServer
  split
  · exact h
  · next msg rest hcons =>
      have hmsg : (handleServerMessage now msg { c with network := c.network.recv }).Collecting := by
        have hhandled := handled_recv hcons
        unfold handleServerMessage
        split
        · refine h.frame _ (Network.received_recv _) ?_ rfl rfl h.waiting
          rw [handled, hhandled]
          exact List.append_nil _
        · next hnot =>
            -- the request of the response has its row
            cases hid : msg.commandId with
            | none =>
                cases msg with
                | startSignal startTime => exact absurd rfl (hnot startTime)
                | write id => cases hid
                | read id value => cases hid
            | some id =>
                have hids : responseIds [msg] = [id] := by simp [responseIds, hid]
                have hmem : id ∈ responseIds c.network.received := by
                  rw [Network.received, responseIds_append, hcons]
                  refine List.mem_append_right _ ?_
                  exact List.mem_filterMap.mpr ⟨msg, List.mem_cons_self, hid⟩
                have hrow : id < c.clientData.requestCount := by
                  have hlt := h.issued id hmem
                  have hnext := hconv.next
                  rw [hsending, Option.toList_none, List.length_nil, Nat.add_zero] at hnext
                  rw [hconv.rows, hnext]
                  exact hlt
                dsimp only
                split
                -- the index is in range, so this panic does not happen
                · next hpanic =>
                    simp only [ClientData.newResponse] at hpanic
                    split at hpanic
                    · cases hpanic
                    · next hrange => exact absurd hrow hrange
                · next d hd =>
                    refine ⟨?_, ?_, ?_, h.waiting⟩
                    · rw [Network.received_recv]
                      exact h.issued
                    · rw [Network.received_recv]
                      exact h.nodup
                    · rw [handled, hhandled, hids]
                      exact h.records.newResponse hd
      dsimp only
      split
      · exact hmsg.breakIfFinished
      · exact hmsg

/-- Every step of the client records what it handles. -/
theorem Collecting.update (h : c.Collecting) (hconv : c.Conversing activeServer) {l : ClientStep}
    (hg : c.guard activeServer l) : (c.update activeServer l).Collecting := by
  cases l with
  | connected => exact h.frame _ rfl rfl rfl rfl fun _ => h.waiting (.inl hg)
  | connectFailed => exact h.frame _ rfl rfl rfl rfl (not_waiting (by simp [Client.update, panic]))
  | recvStart => exact h.recvStart hg.1
  | recvServer now => exact h.recvServer hconv hg.2.1 now
  -- a command more: the ids that were issued stay below
  | requestTick isWrite =>
      refine ⟨?_, h.nodup, h.records, not_waiting ?_⟩
      · intro id hid
        have hlt := h.issued id hid
        simp only [Client.update, requestTick, List.length_append, List.length_singleton]
        exact Nat.lt_succ_of_lt hlt
      · simp [Client.update, requestTick, hg.1]
  | resolveSend now =>
      simp only [Client.update, Client.resolveSend]
      split
      · exact h
      · next isWrite _ =>
          split
          · exact h
          · next n hn =>
              -- a send touches only the pipe to the server, or empties its slot
              have hframe : n.received = c.network.received ∧ n.taken = c.network.taken := by
                rcases Network.send_cases hconv.session.aligned hn with
                  ⟨_, _, _, rfl⟩ | ⟨_, _, rfl, _⟩
                · exact ⟨rfl, rfl⟩
                · exact ⟨rfl, rfl⟩
              refine ⟨?_, ?_, ?_, h.waiting⟩
              · rw [hframe.1]
                exact h.issued
              · rw [hframe.1]
                exact h.nodup
              · rw [handled, hframe.2]
                exact h.records.newRequest isWrite
  | intervalTick =>
      simp only [Client.update, Client.intervalTick]
      split
      · split
        · exact h.frame _ rfl rfl rfl rfl h.waiting
        · exact h.frame _ rfl rfl rfl rfl (not_waiting (by simp [panic]))
      · have hfinal : ({ c with
            finalRequestCount := some c.clientData.requestCount } : Client).Collecting :=
          h.frame _ rfl rfl rfl rfl h.waiting
        exact hfinal.breakIfFinished

/-- The loop goes on only while the last interval has not expired. -/
def Unexpired (c : Client) : Prop := c.phase ≠ .finished → c.finalRequestCount = none

theorem unexpired_breakIfFinished (h : c.Unexpired) : c.breakIfFinished.Unexpired := by
  unfold Client.breakIfFinished
  split
  · exact fun hp => absurd rfl hp
  · exact h

theorem finalRequestCount_handleServerMessage (now : Timestamp) (msg : ServerMessage) (c : Client) :
    (handleServerMessage now msg c).finalRequestCount = c.finalRequestCount := by
  unfold handleServerMessage
  repeat' split
  all_goals rfl

/-- Once the last interval has expired `run_finished` holds, whatever was answered. -/
theorem phase_intervalTick (hnil : c.intervals = []) :
    (c.update activeServer .intervalTick).phase = .finished := by
  simp [Client.update, intervalTick, hnil, Client.breakIfFinished, runFinished]

/-- Every step that stays in the loop leaves the last interval unexpired. -/
theorem unexpired_update (h : c.Unexpired) {l : ClientStep} (hg : c.guard activeServer l) :
    (c.update activeServer l).Unexpired := by
  -- in any phase but the last there is no final count yet
  have hopen : ∀ p, c.phase = p → p ≠ .finished → c.finalRequestCount = none := by
    intro p hp hne
    exact h fun hend => hne (hp.symm.trans hend)
  cases l with
  | connected => exact fun _ => hopen _ hg (by simp)
  | connectFailed => exact fun _ => hopen _ hg (by simp)
  | recvStart =>
      have hnone := hopen _ hg.1 (by simp)
      simp only [Client.update, Client.recvStart]
      repeat' split
      all_goals exact fun _ => hnone
  | recvServer now =>
      simp only [Client.update, Client.recvServer]
      split
      · exact h
      · next msg _ _ =>
          have hmsg : (handleServerMessage now msg
              { c with network := c.network.recv }).Unexpired := by
            intro _
            rw [finalRequestCount_handleServerMessage]
            exact hopen _ hg.1 (by simp)
          split
          · exact unexpired_breakIfFinished hmsg
          · exact hmsg
  | requestTick isWrite => exact h
  | resolveSend now =>
      simp only [Client.update, Client.resolveSend]
      split
      · exact h
      · split
        · exact h
        · exact h
  | intervalTick =>
      intro hp
      cases hnil : c.intervals with
      -- the tick without an interval is what ends the loop
      | nil => exact absurd (phase_intervalTick hnil) hp
      | cons i rest =>
          have hnone := hopen _ hg.1 (by simp)
          simp only [Client.update, intervalTick, hnil]
          split
          · exact hnone
          · exact hnone

/-- The main loop ends with the last interval and nowhere else. -/
theorem exit_cases (h : c.Unexpired) {l : ClientStep} (hrun : c.phase = .running)
    (hg : c.guard activeServer l) (hexit : (c.update activeServer l).phase = .finished) :
    l = .intervalTick ∧ c.intervals = [] := by
  have hnone : c.finalRequestCount = none := h (by simp [hrun])
  -- without a final count the check at the end of an arm does not end the loop
  have hgoes : ∀ c' : Client, c'.phase ≠ .finished → c'.finalRequestCount = none →
      c'.breakIfFinished.phase ≠ .finished := by
    intro c' hp hcount
    simp [Client.breakIfFinished, runFinished, hcount, hp]
  cases l with
  | connected => cases hexit
  | connectFailed => cases hexit
  | recvStart => cases hrun.symm.trans hg.1
  | recvServer now =>
      exfalso
      simp only [Client.update, Client.recvServer] at hexit
      split at hexit
      · cases hrun.symm.trans hexit
      · next msg _ _ =>
          split at hexit
          · next hstill =>
              refine hgoes _ ?_ ?_ hexit
              · rw [hstill]
                simp
              · rw [finalRequestCount_handleServerMessage]
                exact hnone
          -- a panic is no regular end
          · next hpanic =>
              have hphase : (handleServerMessage now msg
                  { c with network := c.network.recv }).phase ≠ .finished := by
                unfold handleServerMessage
                repeat' split
                all_goals simp [panic, hrun]
              exact hphase hexit
  | requestTick isWrite => cases hrun.symm.trans hexit
  | resolveSend now =>
      exfalso
      simp only [Client.update, Client.resolveSend] at hexit
      split at hexit
      · cases hrun.symm.trans hexit
      · split at hexit
        · cases hrun.symm.trans hexit
        · cases hrun.symm.trans hexit
  | intervalTick =>
      refine ⟨rfl, ?_⟩
      cases hnil : c.intervals with
      | nil => rfl
      | cons i rest =>
          simp only [Client.update, intervalTick, hnil] at hexit
          split at hexit
          · cases hrun.symm.trans hexit
          · cases hexit

end

end Client

/-! ## Runs -/

section

variable {activeServer : NodeId} {t : Transport} {intervals : List RequestInterval} {e : Endpoint}
  {c : Client}

/-- The endpoint is a benchmark client that keeps the invariants. -/
def BenchCollecting (activeServer : NodeId) (e : Endpoint) : Prop :=
  e.Sound activeServer ∧ ∃ c, e = .bench c ∧ c.Collecting ∧ c.Unexpired

/-- Every step of the client, its connection and its server keeps the invariants. -/
theorem benchCollecting_update (h : BenchCollecting activeServer e) {l : EndpointStep}
    (hg : e.guard activeServer t l) (ha : Answering l e) :
    BenchCollecting activeServer (e.update activeServer l) := by
  rcases h with ⟨hsound, c, rfl, hc, hopen⟩
  refine ⟨hsound.update hg, ?_⟩
  cases l with
  | shim l => exact absurd hg id
  | bench l =>
      exact ⟨_, rfl, hc.update (hsound.bench c rfl) hg, Client.unexpired_update hopen hg⟩
  | connection l => exact ⟨_, rfl, hc.frame _ rfl rfl rfl rfl hc.waiting, hopen⟩
  | handOn => exact ⟨_, rfl, hc.frame _ rfl rfl rfl rfl hc.waiting, hopen⟩
  | arrive msg =>
      refine ⟨_, rfl, ?_, hopen⟩
      have hids : responseIds (c.network.arrive msg).received =
          responseIds c.network.received ++ msg.commandId.toList := by
        rw [show (c.network.arrive msg).received = c.network.received ++ [msg] by
          simp [Network.received, Network.arrive], responseIds_append]
        cases hid : msg.commandId <;> simp [responseIds, hid]
      refine ⟨?_, ?_, hc.records, hc.waiting⟩
      · intro id hid
        change id ∈ responseIds (c.network.arrive msg).received at hid
        rw [hids, List.mem_append, Option.mem_toList] at hid
        rcases hid with hold | hnew
        · exact hc.issued id hold
        · exact (ha id hnew).1
      · change (responseIds (c.network.arrive msg).received).Nodup
        rw [hids]
        refine List.Nodup.append hc.nodup ?_ ?_
        · cases msg.commandId <;> simp
        · intro id hold hnew
          exact (ha id (Option.mem_toList.mp hnew)).2 hold

/-- The benchmark client keeps the invariants in every reachable state. -/
theorem benchCollecting_reachable
    (hr : (benchmark activeServer t intervals).Reachable e) : BenchCollecting activeServer e := by
  refine (benchmark activeServer t intervals).invariant (BenchCollecting activeServer) ?_ ?_ e hr
  · intro e he
    rw [show e = Endpoint.new activeServer (.bench intervals) from he]
    exact ⟨Endpoint.sound_new _ _, _, rfl, Client.collecting_new activeServer intervals,
      fun _ => rfl⟩
  · intro l e _ hg h
    exact benchCollecting_update h hg.1 hg.2

/-- Between two commands, the data is complete iff every command has been answered. -/
theorem complete_iff_answered (hr : (benchmark activeServer t intervals).Reachable (.bench c))
    (hsending : c.sending = none) : c.clientData.Complete ↔
      ∀ id < c.commands.length, ∃ msg ∈ c.network.taken, msg.commandId = some id := by
  rcases benchCollecting_reachable hr with ⟨hsound, c', heq, hcollecting, _⟩
  obtain rfl : c = c' := Endpoint.bench.inj heq
  have hconv := hsound.bench c rfl
  have hcount : c.clientData.requestCount = c.commands.length := by
    have hnext := hconv.next
    rw [hsending, Option.toList_none, List.length_nil, Nat.add_zero] at hnext
    rw [hconv.rows, hnext]
  rw [hcollecting.records.complete_iff hcollecting.handled_nodup, hcount]
  simp only [Client.handled, responseIds, List.mem_filterMap]

/-- Whenever the main loop ends, the collected data has a response for each request iff the
response to each command was handled before. -/
theorem collects_every_response_iff
    (hr : (benchmark activeServer t intervals).Reachable (.bench c)) {l : ClientStep}
    (hrun : c.phase = .running) (hg : c.guard activeServer l)
    (hexit : (c.update activeServer l).phase = .finished) :
    (c.update activeServer l).clientData.Complete ↔
      ∀ id < c.commands.length, ∃ msg ∈ c.network.taken, msg.commandId = some id := by
  rcases benchCollecting_reachable hr with ⟨_, c', heq, _, hopen⟩
  obtain rfl : c = c' := Endpoint.bench.inj heq
  rcases Client.exit_cases hopen hrun hg hexit with ⟨rfl, hnil⟩
  have hdata : (c.update activeServer .intervalTick).clientData = c.clientData := by
    simp only [Client.update, Client.intervalTick, hnil, Client.breakIfFinished]
    split
    · rfl
    · rfl
  rw [hdata]
  exact complete_iff_answered hr hg.2

end

/-! ## One request -/

/-- The client issues one request; its response comes in if `answered`. -/
def oneRequestRun (answered : Bool) : List EndpointStep :=
  [.bench .connected, .arrive (.startSignal 0), .bench .recvStart, .bench (.requestTick true),
    .bench (.resolveSend 5)] ++
  if answered then [.arrive (.write 0), .bench (.recvServer 7)] else []

def oneInterval : Machine Endpoint EndpointStep := benchmark 1 smallTransport [⟨1, 1⟩]

instance (l : EndpointStep) (e : Endpoint) : Decidable (oneInterval.guard l e) :=
  inferInstanceAs (Decidable (e.guard 1 smallTransport l ∧ Answering l e))

/-- The client when its only interval expires. -/
def oneRequest (answered : Bool) : Client :=
  match oneInterval.after (Endpoint.new 1 (.bench [⟨1, 1⟩])) (oneRequestRun answered) with
  | .bench c => c
  | .shim _ => Client.new 1 []

/-- The client gets there. -/
theorem oneRequest_reachable (answered : Bool) :
    oneInterval.Reachable (.bench (oneRequest answered)) := by
  have hvalid : oneInterval.Valid (Endpoint.new 1 (.bench [⟨1, 1⟩])) (oneRequestRun answered) := by
    cases answered <;> decide +kernel
  have hr := oneInterval.reachable_after (oneRequestRun answered) (.start rfl) hvalid
  rcases benchCollecting_reachable hr with ⟨_, c, heq, _⟩
  rw [oneRequest, heq]
  rw [heq] at hr
  exact hr

/-- The data of the client is complete when the response came in, and only then. -/
theorem collects_every_response_one_request :
    ((oneRequest true).update 1 .intervalTick).clientData.Complete ∧
      ¬ ((oneRequest false).update 1 .intervalTick).clientData.Complete := by
  constructor
  · exact (collects_every_response_iff (oneRequest_reachable true) (by decide +kernel)
      (by decide +kernel) (by decide +kernel)).mpr (by decide +kernel)
  · refine mt (collects_every_response_iff (oneRequest_reachable false) (by decide +kernel)
      (by decide +kernel) (by decide +kernel)).mp ?_
    decide +kernel

/-- The only interval expires before the response comes in: the loop ends without it. -/
theorem request_left_unanswered :
    ∃ c, oneInterval.Reachable (.bench c) ∧ c.phase = .running ∧ c.guard 1 .intervalTick ∧
      (c.update 1 .intervalTick).phase = .finished ∧
      ¬ (c.update 1 .intervalTick).clientData.Complete :=
  ⟨oneRequest false, oneRequest_reachable false, by decide +kernel, by decide +kernel,
    by decide +kernel, by decide +kernel⟩

end Benchmark

end OmnipaxosKv
