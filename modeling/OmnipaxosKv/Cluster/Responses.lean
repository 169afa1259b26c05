import OmnipaxosKv.Cluster.Provenance

/-! # Responses find their requests

The coordinator of a command, and no other server, answers it, once and to the client
that submitted it. A shim therefore finds the request of every response it receives in
the right table, still unanswered.
-/

namespace OmnipaxosKv

namespace Cluster

open Server Client
open Server.OmniPaxosServer (responses response)

variable {Ω M : Type} {lib : OmniPaxos Ω M} {decided : Ω → List Command} {cfg : Config}
  {t : Transport} {s : State Ω M}

/-- A `Read` for a `Get`, a `Write` for a `Put` or a `Delete`, under the client's id. -/
def answerTo (d : Database) (c : Command) : ServerMessage :=
  match c.kvCmd with
  | .get key => .read c.id (d.db.lookup key)
  | .put _ _ | .delete _ => .write c.id

theorem response_eq_answerTo (d : Database) (c : Command) : response d c = answerTo d c := by
  unfold response answerTo Database.handleCommand
  cases c.kvCmd <;> rfl

/-- Server `n` answers the commands that it has applied and coordinates, each once, at its
place in the log, to the one client that submitted it, and answers nothing else. -/
structure AnswersOnce (cfg : Config) (s : State Ω M) (n : NodeId) : Prop where
  applies : (s.servers n).applied <+: s.log
  answers : (s.servers n).network.clientSends.filter (fun m => m.2.commandId.isSome) =
    responses n Database.new (s.servers n).applied
  once : ∀ c ∈ (s.servers n).applied, c.coordinatorId = n →
    ((s.servers n).network.clientSends.countP fun m =>
      m.1 = c.clientId ∧ m.2.commandId = some c.id) = 1
  only : ∀ k msg, (k, msg) ∈ (s.servers n).network.clientSends → msg.commandId.isSome →
    ∃ (j : ℕ) (c : Command), s.log[j]? = some c ∧ c.coordinatorId = n ∧ k = c.clientId ∧
      msg = answerTo (Database.replay (s.log.take j)) c
  submitted : ∀ c ∈ (s.servers n).applied, c.coordinatorId = n → ∃! e, Submitted cfg s e c

/-- The log entry of a request of a shim. -/
def EntryOf (cfg : Config) (s : State Ω M) (ticket : Ticket) (c : Command) : Prop :=
  Submitted cfg s ticket.1 c ∧
    ∃ sh, s.endpoints ticket.1 = .shim sh ∧ sh.issued[c.id]? = some (ticket.2, c.kvCmd)

/-- The result of a command, as the shim passes it to the handler. -/
def replyTo (d : Database) : KVCommand → Reply
  | .get key => .value (d.db.lookup key)
  | .put _ _ | .delete _ => .written

/-- The tables of a shim are disjoint and below the next id, a response that is about to be
handled finds its request in the right one and unanswered, and what completed a request is
the result of its own command. -/
structure Matches (cfg : Config) (s : State Ω M) (e : EndpointId) (sh : Shim) : Prop where
  disjoint : ∀ i, i ∈ sh.pendingPut → i ∉ sh.pendingGet
  below : ∀ i, i ∈ sh.pendingPut ∨ i ∈ sh.pendingGet → i < sh.nextRequestId
  write : ∀ i, .write i ∈ sh.network.serverMessages → ∃ r key value q,
    sh.pendingPut.lookup i = some r ∧ sh.issued[i]? = some (r, .put key value) ∧
      sh.requests[r]? = some q ∧ q.op = .put key value ∧ q.reply = .empty
  read : ∀ i v, .read i v ∈ sh.network.serverMessages → ∃ r key q,
    sh.pendingGet.lookup i = some r ∧ sh.issued[i]? = some (r, .get key) ∧
      sh.requests[r]? = some q ∧ q.op = .get key ∧ q.reply = .empty
  completed : ∀ r q x, sh.requests[r]? = some q → q.reply = .completed x →
    ∃ (j : ℕ) (c : Command), s.log[j]? = some c ∧ EntryOf cfg s (e, r) c ∧
      q.op.kvCommand = c.kvCmd ∧ x = replyTo (Database.replay (s.log.take j)) c.kvCmd

/-! ## The servers -/

/-- The responses to a command are counted among those to its client. -/
theorem countP_commandId (k : ClientId) (i : CommandId) (messages : List (ClientId × ServerMessage)) :
    (messages.countP fun m => m.1 = k ∧ m.2.commandId = some i) =
      ((messagesTo k messages).filterMap ServerMessage.commandId).count i := by
  induction messages with
  | nil => rfl
  | cons m messages ih =>
      rcases m with ⟨k', m⟩
      have hsplit : messagesTo k ((k', m) :: messages) =
          messagesTo k [(k', m)] ++ messagesTo k messages := messagesTo_append k [_] _
      rw [hsplit, List.filterMap_append, List.count_append, ← ih, List.countP_cons,
        messagesTo_singleton, Nat.add_comm]
      by_cases hk : k' = k
      · cases hid : m.commandId with
        | none => simp [hk, hid]
        | some i' => by_cases hi : i' = i <;> simp [hk, hid, hi]
      · simp [hk]

/-- Every server answers so, once its log agrees with the others. -/
theorem Coherent.answersOnce (h : Coherent lib cfg t s) (hlib : lib.Lawful decided)
    (hagreed : Agreed decided cfg s) {n : NodeId} (hn : n ∈ cfg.nodes) : AnswersOnce cfg s n := by
  have hpre := h.applied_prefix_log hlib hagreed hn
  have hanswers : (s.servers n).network.clientSends.filter (fun m => m.2.commandId.isSome) =
      responses n Database.new (s.servers n).applied := (h.sound hlib n).orderly.answers
  refine ⟨hpre, hanswers, ?_, ?_, ?_⟩
  · intro c hc hcoordinator
    rw [countP_commandId]
    refine List.count_eq_one_of_mem (h.nodup_sent hlib hagreed hn c.clientId) ?_
    rw [filterMap_commandId_messagesTo, hanswers, messagesTo_responses]
    refine List.mem_map.mpr ⟨c, ?_, rfl⟩
    simp [List.mem_filter, hc, hcoordinator]
  · intro k msg hmem hid
    have hfilter : (k, msg) ∈ (s.servers n).network.clientSends.filter
        (fun m => m.2.commandId.isSome) := List.mem_filter.mpr ⟨hmem, hid⟩
    rw [hanswers] at hfilter
    rcases mem_responses.mp hfilter with ⟨j, c, hj, hnode, hk, hmsg⟩
    rcases prefix_agrees hpre hj with ⟨hlog, htake⟩
    refine ⟨j, c, hlog, hnode, hk, ?_⟩
    rw [hmsg, response_eq_answerTo, htake]
    rfl
  · intro c hc _
    rcases h.submitted_of_mem_log hlib hagreed (hpre.subset hc) with ⟨e, he⟩
    exact ⟨e, he, fun e' he' => h.submitter_unique he' he⟩

/-! ## The shims -/

section

variable {e : EndpointId} {sh : Shim}

/-- A response in the queue of a shim was not handled before. -/
theorem Coherent.not_taken (h : Coherent lib cfg t s) (hlib : lib.Lawful decided)
    (hagreed : Agreed decided cfg s) (he : s.endpoints e = .shim sh) {msg msg' : ServerMessage}
    {i : CommandId} (hmsg : msg ∈ sh.network.serverMessages) (hid : msg.commandId = some i)
    (hid' : msg'.commandId = some i) : msg' ∉ sh.network.taken := by
  intro htaken
  have hnodup := h.nodup_received hlib hagreed e
  rw [he, Client.Network.received, List.filterMap_append, List.nodup_append] at hnodup
  exact hnodup.2.2 i (List.mem_filterMap.mpr ⟨msg', htaken, hid'⟩) i
    (List.mem_filterMap.mpr ⟨msg, hmsg, hid⟩) rfl

/-- The request of a response: it was issued under the response's id. -/
theorem Coherent.issued_of_received (h : Coherent lib cfg t s) (hlib : lib.Lawful decided)
    (hagreed : Agreed decided cfg s) (he : s.endpoints e = .shim sh) {msg : ServerMessage}
    (hmem : msg ∈ sh.network.received) {i : CommandId} (hid : msg.commandId = some i) :
    ∃ (j : ℕ) (c : Command) (r : RequestId), s.log[j]? = some c ∧ EntryOf cfg s (e, r) c ∧
      c.id = i ∧ sh.issued[i]? = some (r, c.kvCmd) ∧
      msg = answerTo (Database.replay (s.log.take j)) c := by
  have hreceived : msg ∈ (s.endpoints e).network.received := by
    rw [he]
    exact hmem
  rcases h.entry_of_received hlib hagreed hreceived (by rw [hid]; rfl) with ⟨j, c, hj, hc, hmsg⟩
  have hci : c.id = i := by
    rw [hmsg, Ledger.isSome_commandId_response] at hid
    exact Option.some.inj hid
  have hcommand := hc.command
  rw [he] at hcommand
  change (sh.issued.map Prod.snd)[c.id]? = some c.kvCmd at hcommand
  rw [List.getElem?_map] at hcommand
  rcases Option.map_eq_some_iff.mp hcommand with ⟨⟨r, kv⟩, hr, hkv⟩
  have hissued : sh.issued[c.id]? = some (r, c.kvCmd) := by
    rw [hr, ← hkv]
  refine ⟨j, c, r, hj, ⟨hc, sh, he, hissued⟩, hci, ?_, ?_⟩
  · rw [← hci]
    exact hissued
  · rw [hmsg, response_eq_answerTo]

/-- Every shim matches its responses to its requests. -/
theorem Coherent.matches (h : Coherent lib cfg t s) (hlib : lib.Lawful decided)
    (hagreed : Agreed decided cfg s) (he : s.endpoints e = .shim sh) : Matches cfg s e sh := by
  rcases (h.endpoints e).shim sh he with ⟨hp, ht⟩
  have hqueue : ∀ msg ∈ sh.network.serverMessages, msg ∈ sh.network.received :=
    fun msg hmsg => List.mem_append_right _ hmsg
  have hissued : ∀ i r, sh.pendingPut.lookup i = some r ∨ sh.pendingGet.lookup i = some r →
      i < sh.nextRequestId := by
    intro i r hi
    rw [hp.next]
    rcases hi with hi | hi
    · rcases hp.put i r hi with ⟨key, value, hc⟩
      exact (List.getElem?_eq_some_iff.mp hc).1
    · rcases hp.get i r hi with ⟨key, hc⟩
      exact (List.getElem?_eq_some_iff.mp hc).1
  refine ⟨?_, ?_, ?_, ?_, ?_⟩
  · intro i hput hget
    rcases Finmap.mem_iff.mp hput with ⟨r, hr⟩
    rcases Finmap.mem_iff.mp hget with ⟨r', hr'⟩
    rcases hp.put i r hr with ⟨key, value, hc⟩
    rcases hp.get i r' hr' with ⟨key', hc'⟩
    cases hc.symm.trans hc'
  · intro i hi
    rcases hi with hi | hi
    · rcases Finmap.mem_iff.mp hi with ⟨r, hr⟩
      exact hissued i r (.inl hr)
    · rcases Finmap.mem_iff.mp hi with ⟨r, hr⟩
      exact hissued i r (.inr hr)
  · intro i hmsg
    rcases h.issued_of_received hlib hagreed he (hqueue _ hmsg) rfl with
      ⟨j, c, r, _, _, _, hr, hanswer⟩
    rcases ht.issued i r c.kvCmd hr with ⟨q, hq, hop, _, _⟩
    cases hop' : q.op with
    | put key value =>
        rw [hop'] at hop
        have hput : sh.issued[i]? = some (r, .put key value) := by
          rw [hr, ← hop]
          rfl
        have hpending : sh.pendingPut.lookup i = some r :=
          (hp.putOrTaken i r key value hput).resolve_right
            (h.not_taken hlib hagreed he hmsg rfl rfl)
        rcases ht.unanswered i r (.inl hpending) with ⟨q', hq', hempty⟩
        obtain rfl : q' = q := Option.some.inj (hq'.symm.trans hq)
        exact ⟨r, key, value, q', hpending, hput, hq, hop', hempty⟩
    | get key =>
        -- a `Get` is answered by a `Read`
        rw [hop'] at hop
        rw [answerTo, ← hop] at hanswer
        cases hanswer
  · intro i v hmsg
    rcases h.issued_of_received hlib hagreed he (hqueue _ hmsg) rfl with
      ⟨j, c, r, _, _, _, hr, hanswer⟩
    rcases ht.issued i r c.kvCmd hr with ⟨q, hq, hop, _, _⟩
    cases hop' : q.op with
    | put key value =>
        rw [hop'] at hop
        rw [answerTo, ← hop] at hanswer
        cases hanswer
    | get key =>
        rw [hop'] at hop
        have hget : sh.issued[i]? = some (r, .get key) := by
          rw [hr, ← hop]
          rfl
        have hpending : sh.pendingGet.lookup i = some r := by
          refine (hp.getOrTaken i r key hget).resolve_right ?_
          intro htaken
          rcases htaken with ⟨value, htaken⟩
          exact h.not_taken hlib hagreed he hmsg rfl rfl htaken
        rcases ht.unanswered i r (.inr hpending) with ⟨q', hq', hempty⟩
        obtain rfl : q' = q := Option.some.inj (hq'.symm.trans hq)
        exact ⟨r, key, q', hpending, hget, hq, hop', hempty⟩
  · intro r q x hq hx
    rcases ht.completed r q x hq hx with ⟨i, kv, hi, hc⟩
    rcases ht.issued i r kv hi with ⟨q', hq', hop, _, _⟩
    obtain rfl : q' = q := Option.some.inj (hq'.symm.trans hq)
    -- the message that completed it is the answer to its own entry
    cases x with
    | written =>
        rcases hc with ⟨htaken, key, value, rfl⟩
        rcases h.issued_of_received hlib hagreed he (List.mem_append_left _ htaken) rfl with
          ⟨j, c, r', hj, hentry, _, hr', hanswer⟩
        obtain ⟨rfl, hkv⟩ := Prod.mk.inj (Option.some.inj (hi.symm.trans hr'))
        refine ⟨j, c, hj, hentry, hop.trans hkv, ?_⟩
        rw [← hkv]
        rfl
    | value v =>
        rcases hc with ⟨htaken, key, rfl⟩
        rcases h.issued_of_received hlib hagreed he (List.mem_append_left _ htaken) rfl with
          ⟨j, c, r', hj, hentry, _, hr', hanswer⟩
        obtain ⟨rfl, hkv⟩ := Prod.mk.inj (Option.some.inj (hi.symm.trans hr'))
        refine ⟨j, c, hj, hentry, hop.trans hkv, ?_⟩
        rw [answerTo, ← hkv] at hanswer
        rw [← hkv]
        exact congrArg Reply.value (ServerMessage.read.inj hanswer).2

end

/-- A reply, once there, is there for good. -/
theorem Coherent.final_act (h : Coherent lib cfg t s) {a : Action} (hg : s.guard lib cfg t a)
    {e : EndpointId} {sh : Shim} (he : s.endpoints e = .shim sh) {r : RequestId} {q : Request}
    (hq : sh.requests[r]? = some q) :
    ∃ sh' q', (s.act lib cfg a).endpoints e = .shim sh' ∧ sh'.requests[r]? = some q' ∧
      q.Final q' := by
  have hsound := h.endpoints e
  rcases endpoints_act hg e with heq | ⟨l, hl, heq⟩
  · exact ⟨sh, q, heq.trans he, hq, final_refl q⟩
  · rw [he] at hl heq hsound
    rcases Endpoint.final_update hsound hl hq with ⟨sh', q', heq', hq', hfinal⟩
    exact ⟨sh', q', heq.trans heq', hq', hfinal⟩

/-- In every run of the cluster, every server answers the commands it has applied and
coordinates, exactly once and to their submitters, and every shim finds the request of each
response, which completes it with its own result and at most once. -/
theorem responses_exactly_once (lib : OmniPaxos Ω M) (decided : Ω → List Command)
    (hlib : lib.Lawful decided) (cfg : Config) (t : Transport) :
    ∀ s, (agreeing lib decided cfg t).Reachable s →
      (∀ n ∈ cfg.nodes, AnswersOnce cfg s n) ∧
      (∀ e sh, s.endpoints e = .shim sh → Matches cfg s e sh) ∧
      ∀ l, (agreeing lib decided cfg t).guard l s →
        ∀ (e : EndpointId) (sh : Shim) (r : RequestId) (q : Request) (x : Reply),
          s.endpoints e = .shim sh → sh.requests[r]? = some q → q.reply = .completed x →
          ∃ (sh' : Shim) (q' : Request),
            ((agreeing lib decided cfg t).update l s).endpoints e = .shim sh' ∧
              sh'.requests[r]? = some q' ∧ q'.reply = .completed x := by
  intro s hr
  have h := coherent_agreeing hlib hr
  have hagreed := agreed_reachable hr
  refine ⟨?_, ?_, ?_⟩
  · intro n hn
    exact h.answersOnce hlib hagreed hn
  · intro e sh he
    exact h.matches hlib hagreed he
  · intro l hg e sh r q x he hq hx
    rcases h.final_act hg.1 he hq with ⟨sh', q', he', hq', hfinal⟩
    exact ⟨sh', q', he', hq', hfinal.reply x hx⟩

/-- The two requests of `putGetRun` are answered by server 1. -/
theorem responses_exactly_once_put_get :
    AnswersOnce twoNodes (twoNodesMachine.after twoNodesStart putGetRun) 1 ∧
      ((twoNodesMachine.after twoNodesStart putGetRun).servers 1).applied =
        [⟨1, 1, 0, .put "k" "v"⟩, ⟨1, 1, 1, .get "k"⟩] := by
  have h := responses_exactly_once relayLibrary Relay.log relayLibrary_lawful twoNodes
    smallTransport _ putGetRun_reachable
  exact ⟨h.1 1 (by decide), by decide +kernel⟩

end Cluster

end OmnipaxosKv
