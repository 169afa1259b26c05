import OmnipaxosKv.Cluster.History
import OmnipaxosKv.Cluster.Responses

/-! # The HTTP interface is linearizable

The log is the order. An answer comes after its entry is in the log, an entry comes after
its request was received, and the log only grows: so a request that was answered before
another was received is before it in the log.
-/

namespace OmnipaxosKv

/-- The map that a database holds. -/
def Database.values (d : Database) : String → Option String := fun key => d.db.lookup key

namespace Cluster

open Server Client Linearizability

variable {Ω M : Type} {lib : OmniPaxos Ω M} {decided : Ω → List Command} {cfg : Config}
  {t : Transport} {s : State Ω M}

open State

/-! ## The object -/

/-- A map from keys to values with the answers of the HTTP interface. -/
def kvMap : Object (String → Option String) HttpOp Status where
  init := fun _ => none
  apply values
    | .put key value => (Function.update values key (some value), .noContent)
    | .get key => (values, match values key with
      | some value => .ok value
      | none => .notFound)

/-- The requests that change the map. -/
def IsPut (op : HttpOp) : Prop := ∃ key value, op = .put key value

instance : DecidablePred IsPut
  | .put key value => .isTrue ⟨key, value, rfl⟩
  | .get _ => .isFalse fun h => by
      rcases h with ⟨_, _, heq⟩
      cases heq

/-- A command does to the map what the request does. -/
theorem values_handleCommand (d : Database) (op : HttpOp) :
    (d.handleCommand op.kvCommand).1.values = (kvMap.apply d.values op).1 := by
  cases op with
  | put key value =>
      funext key'
      simp only [Database.handleCommand, HttpOp.kvCommand, Database.values, kvMap]
      by_cases hkey : key' = key
      · rw [hkey, Finmap.lookup_insert, Function.update_self]
      · rw [Finmap.lookup_insert_of_ne _ hkey, Function.update_of_ne hkey]
        rfl
  | get key => rfl

/-- The answer that a handler gives for the result of the database. -/
theorem status_replyTo (d : Database) (op : HttpOp) :
    op.status (.completed (replyTo d op.kvCommand)) = (kvMap.apply d.values op).2 := by
  cases op with
  | put key value => rfl
  | get key =>
      simp only [HttpOp.kvCommand, replyTo, kvMap, Database.values]
      cases d.db.lookup key <;> rfl

/-- A log does to the map what the requests of its entries do. -/
theorem values_replayFrom (d : Database) (log : List Command) (ops : List HttpOp)
    (h : log.map Command.kvCmd = ops.map HttpOp.kvCommand) :
    (d.replayFrom log).values = kvMap.after d.values ops := by
  induction log generalizing d ops with
  | nil =>
      obtain rfl : ops = [] := by simpa using h.symm
      rfl
  | cons c log ih =>
      cases ops with
      | nil => cases h
      | cons op ops =>
          obtain ⟨hop, hrest⟩ := List.cons.inj h
          have hfirst : (d.handleCommand c.kvCmd).1.values = (kvMap.apply d.values op).1 := by
            rw [hop, values_handleCommand]
          have hstep := ih (d.handleCommand c.kvCmd).1 ops hrest
          rw [hfirst] at hstep
          exact hstep

/-! ## Entries and requests -/

/-- A client keeps its id. -/
theorem clientId_act {a : Action} (hg : s.guard lib cfg t a) {e : EndpointId} {k : ClientId}
    (hk : s.clientId e = some k) : (s.act lib cfg a).clientId e = some k := by
  cases a with
  | register f =>
      have hne : e ≠ f := by
        intro heq
        subst heq
        cases hk.symm.trans hg.2.1
      simp only [act]
      rw [Function.update_of_ne hne]
      exact hk
  | clusterArrive sender receiver =>
      simp only [act]
      split <;> exact hk
  | clientArrive f =>
      simp only [act]
      split <;> exact hk
  | serverArrive f =>
      simp only [act]
      split <;> exact hk
  | _ => exact hk

/-- A command remains the entry of its request. -/
theorem entryOf_act {a : Action} (hg : s.guard lib cfg t a) {ticket : Ticket} {c : Command}
    (h : EntryOf cfg s ticket c) : EntryOf cfg (s.act lib cfg a) ticket c := by
  rcases h with ⟨hsubmitted, sh, he, hissued⟩
  have hgrow : ∃ sh', (s.act lib cfg a).endpoints ticket.1 = .shim sh' ∧
      sh.issued <+: sh'.issued := by
    rcases endpoints_cases hg ticket.1 with ⟨l, sh₀, _, he₀, _, heq⟩ | ⟨l, b, _, hb, _⟩ | ⟨_, n, heq⟩
    · obtain rfl : sh₀ = sh := Endpoint.shim.inj (he₀.symm.trans he)
      exact ⟨_, heq, Shim.issued_prefix_update _ l sh₀⟩
    · cases hb.symm.trans he
    · rw [he] at heq
      exact ⟨_, heq, List.prefix_rfl⟩
  rcases hgrow with ⟨sh', he', rest, hrest⟩
  have hissued' : sh'.issued[c.id]? = some (ticket.2, c.kvCmd) := by
    rw [← hrest, List.getElem?_append_left (List.getElem?_eq_some_iff.mp hissued).1]
    exact hissued
  refine ⟨⟨hsubmitted.home, clientId_act hg hsubmitted.client, ?_⟩, sh', he', hissued'⟩
  rw [he']
  change (sh'.issued.map Prod.snd)[c.id]? = some c.kvCmd
  rw [List.getElem?_map, hissued']
  rfl

/-- An entry belongs to one request. -/
theorem Coherent.ticket_unique (h : Coherent lib cfg t s) {ticket ticket' : Ticket} {c : Command}
    (hc : EntryOf cfg s ticket c) (hc' : EntryOf cfg s ticket' c) : ticket = ticket' := by
  have hendpoint := h.submitter_unique hc.1 hc'.1
  rcases hc.2 with ⟨sh, he, hissued⟩
  rcases hc'.2 with ⟨sh', he', hissued'⟩
  rw [← hendpoint] at he'
  obtain rfl : sh = sh' := Endpoint.shim.inj (he.symm.trans he')
  exact Prod.ext hendpoint (Prod.mk.inj (Option.some.inj (hissued.symm.trans hissued'))).1

/-- A request has one entry. -/
theorem Coherent.entry_unique (h : Coherent lib cfg t s) {ticket : Ticket} {c c' : Command}
    (hc : EntryOf cfg s ticket c) (hc' : EntryOf cfg s ticket c') : c = c' := by
  rcases hc.2 with ⟨sh, he, hissued⟩
  rcases hc'.2 with ⟨sh', he', hissued'⟩
  obtain rfl : sh = sh' := Endpoint.shim.inj (he.symm.trans he')
  have htickets := ((h.endpoints ticket.1).shim sh he).2
  have hid : c.id = c'.id := by
    by_contra hne
    exact htickets.request_ne hissued hissued' hne rfl
  refine h.command_unique hc'.1 ⟨ticket.1, hc.1⟩ ?_ ?_ hid
  · rw [← hc.1.home, ← hc'.1.home]
  · exact Option.some.inj (hc.1.client.symm.trans hc'.1.client)

/-- The request of an entry was received. -/
theorem Coherent.request_of_entry (h : Coherent lib cfg t s) {ticket : Ticket} {c : Command}
    (hc : EntryOf cfg s ticket c) : ∃ sh q, s.endpoints ticket.1 = .shim sh ∧
      sh.requests[ticket.2]? = some q ∧ q.op.kvCommand = c.kvCmd ∧ ticket.2 ∈ sh.enqueued := by
  rcases hc.2 with ⟨sh, he, hissued⟩
  rcases ((h.endpoints ticket.1).shim sh he).2.issued c.id ticket.2 c.kvCmd hissued with
    ⟨q, hq, hop, _, _⟩
  refine ⟨sh, q, he, hq, hop, List.mem_append_right _ ?_⟩
  exact List.mem_map.mpr ⟨_, List.mem_of_getElem? hissued, rfl⟩

/-- A command of a shim is the entry of one of its requests. -/
theorem Submitted.entryOf {e : EndpointId} {c : Command} {sh : Shim} (hc : Submitted cfg s e c)
    (he : s.endpoints e = .shim sh) : ∃ r, EntryOf cfg s (e, r) c := by
  have hcommand := hc.command
  rw [he] at hcommand
  change (sh.issued.map Prod.snd)[c.id]? = some c.kvCmd at hcommand
  rw [List.getElem?_map] at hcommand
  rcases Option.map_eq_some_iff.mp hcommand with ⟨⟨r, kv⟩, hr, rfl⟩
  exact ⟨r, hc, sh, he, hr⟩

/-- Each entry of the log is that of a request, where all endpoints are shims. -/
theorem Coherent.entryOf_mem_log (h : Coherent lib cfg t s) (hlib : lib.Lawful decided)
    (hagreed : Agreed decided cfg s) (hshims : ∀ e, ∃ sh, s.endpoints e = .shim sh) {c : Command}
    (hc : c ∈ s.log) : ∃ ticket, EntryOf cfg s ticket c := by
  rcases h.submitted_of_mem_log hlib hagreed hc with ⟨e, he⟩
  rcases hshims e with ⟨sh, hsh⟩
  rcases he.entryOf hsh with ⟨r, hentry⟩
  exact ⟨(e, r), hentry⟩

/-- A shim was a shim before. -/
theorem shim_of_act {a : Action} (hg : s.guard lib cfg t a) {e : EndpointId} {sh' : Shim}
    (he : (s.act lib cfg a).endpoints e = .shim sh') : ∃ sh, s.endpoints e = .shim sh := by
  rcases endpoints_cases hg e with ⟨_, sh, _, hold, _⟩ | ⟨_, _, _, _, heq⟩ | ⟨_, n, heq⟩
  · exact ⟨sh, hold⟩
  · cases heq.symm.trans he
  · rcases shim_of_withNetwork (heq.symm.trans he) with ⟨sh, hold, _⟩
    exact ⟨sh, hold⟩

/-- Entries of the old state are entries of the new one. -/
theorem entryOf_update {l : Label} (hg : (agreeing lib decided cfg t).guard l s) {ticket : Ticket}
    {c : Command} (h : EntryOf cfg s ticket c) :
    EntryOf cfg ((agreeing lib decided cfg t).update l s) ticket c := by
  rcases entryOf_act hg.1 h with ⟨hsubmitted, hissued⟩
  exact ⟨⟨hsubmitted.home, hsubmitted.client, hsubmitted.command⟩, hissued⟩

/-- A command of the old log was the entry of its request before. -/
theorem entryOf_of_update (hlib : lib.Lawful decided) (hs : (agreeing lib decided cfg t).Reachable s)
    {l : Label} (hg : (agreeing lib decided cfg t).guard l s) {ticket : Ticket} {c : Command}
    (hc : c ∈ s.log) (hentry : EntryOf cfg ((agreeing lib decided cfg t).update l s) ticket c) :
    EntryOf cfg s ticket c := by
  have h := coherent_agreeing hlib hs
  have h' := coherent_agreeing hlib (hs.step l hg)
  rcases h.submitted_of_mem_log hlib (agreed_reachable hs) hc with ⟨e, he⟩
  have hsame : e = ticket.1 := h'.linked.distinct e ticket.1 c.clientId
    (he.home.trans hentry.1.home.symm) (clientId_act hg.1 he.client) hentry.1.client
  rcases hentry.2 with ⟨sh', he', _⟩
  rcases shim_of_act hg.1 he' with ⟨sh, hsh⟩
  rw [hsame] at he
  rcases he.entryOf hsh with ⟨r, hold⟩
  have hticket := h'.ticket_unique (entryOf_update hg hold) hentry
  rw [← hticket]
  exact hold

/-! ## Answers -/

/-- A request that was answered has its entry in the log, and the answer is the entry's. -/
theorem Coherent.entry_of_respond (h : Coherent lib cfg t s) (hlib : lib.Lawful decided)
    (hagreed : Agreed decided cfg s) (hrecorded : Recorded s) {ticket : Ticket} {code : Status}
    (hmem : .respond ticket code ∈ s.history) (hsure : code ≠ .internalServerError) :
    ∃ (j : ℕ) (c : Command) (op : HttpOp), s.log[j]? = some c ∧ EntryOf cfg s ticket c ∧
      .invoke ticket op ∈ s.history ∧ op.kvCommand = c.kvCmd ∧
      code = op.status (.completed (replyTo (Database.replay (s.log.take j)) c.kvCmd)) := by
  rcases hrecorded.responded ticket.1 ticket.2 code hmem with ⟨sh, q, he, hq, hhandler⟩
  have htickets := ((h.endpoints ticket.1).shim sh he).2
  rcases htickets.answered ticket.2 q code hq hhandler with ⟨hfailed, _⟩ | ⟨x, hx, hcode⟩
  · exact absurd hfailed hsure
  · rcases (h.matches hlib hagreed he).completed ticket.2 q x hq hx with
      ⟨j, c, hj, hentry, hop, hreply⟩
    refine ⟨j, c, q.op, hj, hentry, hrecorded.requested ticket.1 sh ticket.2 q he hq, hop, ?_⟩
    rw [hcode, hx, hreply]

/-- The entry of a request that was answered has been applied by its server. -/
theorem Coherent.applied_of_respond (h : Coherent lib cfg t s) (hlib : lib.Lawful decided)
    (hagreed : Agreed decided cfg s) (hrecorded : Recorded s) {ticket : Ticket} {code : Status}
    (hmem : .respond ticket code ∈ s.history) (hsure : code ≠ .internalServerError) {c : Command}
    (hc : EntryOf cfg s ticket c) : c ∈ (s.serverOf cfg ticket.1).applied := by
  rcases hrecorded.responded ticket.1 ticket.2 code hmem with ⟨sh, q, he, hq, hhandler⟩
  have htickets := ((h.endpoints ticket.1).shim sh he).2
  rcases htickets.answered ticket.2 q code hq hhandler with ⟨hfailed, _⟩ | ⟨x, hx, _⟩
  · exact absurd hfailed hsure
  · rcases htickets.completed ticket.2 q x hq hx with ⟨i, kv, hi, hcompletes⟩
    have htaken : ∃ msg ∈ sh.network.taken, msg.commandId = some i := by
      cases x with
      | written => exact ⟨_, hcompletes.1, rfl⟩
      | value v => exact ⟨_, hcompletes.1, rfl⟩
    rcases htaken with ⟨msg, htaken, hid⟩
    have hreceived : msg ∈ (s.endpoints ticket.1).network.received := by
      rw [he]
      exact List.mem_append_left _ htaken
    rcases h.applied_of_received hlib hagreed hreceived (by rw [hid]; rfl) with
      ⟨j, c', hj, hc', hmsg⟩
    have hcommand := hc'.command
    rw [he] at hcommand
    change (sh.issued.map Prod.snd)[c'.id]? = some c'.kvCmd at hcommand
    have hci : c'.id = i := by
      rw [hmsg, Ledger.isSome_commandId_response] at hid
      exact Option.some.inj hid
    rw [List.getElem?_map, hci, hi, Option.map_some, Option.some.injEq] at hcommand
    have hentry : EntryOf cfg s ticket c' := by
      refine ⟨hc', sh, he, ?_⟩
      rw [hci, hi, ← hcommand]
    rw [h.entry_unique hc hentry]
    exact List.mem_of_getElem? hj

/-- A request that failed has no entry. -/
theorem Coherent.not_entryOf_failed (h : Coherent lib cfg t s) (hrecorded : Recorded s)
    {ticket : Ticket} {c : Command} (hc : EntryOf cfg s ticket c) :
    .respond ticket .internalServerError ∉ s.history := by
  intro hmem
  rcases hrecorded.responded ticket.1 ticket.2 _ hmem with ⟨sh, q, he, hq, hhandler⟩
  rcases h.request_of_entry hc with ⟨sh', q', he', _, _, henqueued⟩
  obtain rfl : sh' = sh := Endpoint.shim.inj (he'.symm.trans he)
  have htickets := ((h.endpoints ticket.1).shim sh' he).2
  rcases htickets.answered ticket.2 q _ hq hhandler with ⟨_, hnot⟩ | ⟨x, hx, hcode⟩
  · exact hnot henqueued
  · -- a reply of the right kind is not an error
    rcases htickets.completed ticket.2 q x hq hx with ⟨i, kv, hi, hcompletes⟩
    rcases htickets.issued i ticket.2 kv hi with ⟨q₀, hq₀, hop, _, _⟩
    obtain rfl : q₀ = q := Option.some.inj (hq₀.symm.trans hq)
    rw [hx] at hcode
    cases x with
    | written =>
        rcases hcompletes with ⟨_, key, value, rfl⟩
        cases hop' : q₀.op with
        | put key value =>
            rw [hop'] at hcode
            cases hcode
        | get key =>
            rw [hop'] at hop
            cases hop
    | value v =>
        rcases hcompletes with ⟨_, key, rfl⟩
        cases hop' : q₀.op with
        | put key value =>
            rw [hop'] at hop
            cases hop
        | get key =>
            rw [hop'] at hcode
            cases v <;> cases hcode

/-! ## Real time -/

/-- An entry is behind those of the requests that were answered before its own came in. -/
def RealTime (cfg : Config) (s : State Ω M) : Prop :=
  ∀ (x y : Ticket) (code : Status) (op : HttpOp) (j : ℕ) (c : Command),
    [Event.respond x code, .invoke y op].Sublist s.history → code ≠ .internalServerError →
    s.log[j]? = some c → EntryOf cfg s y c →
    ∃ i c', i < j ∧ s.log[i]? = some c' ∧ EntryOf cfg s x c'

/-- What a step adds to the history. -/
theorem history_cases {a : Action} (hg : s.guard lib cfg t a) :
    (s.act lib cfg a).history = s.history ∨
    (∃ e sh op, s.endpoints e = .shim sh ∧
      (s.act lib cfg a).history = s.history ++ [.invoke (e, sh.requests.length) op]) ∨
    ∃ ticket code, (s.act lib cfg a).history = s.history ++ [.respond ticket code] := by
  by_cases ha : ∃ e l, a = .shim e l
  · rcases ha with ⟨e, l, rfl⟩
    rcases endpoints_cases hg e with ⟨l', sh, hl, he, _, _⟩ | ⟨_, _, hl, _⟩ | ⟨hne, _⟩
    · obtain ⟨_, rfl⟩ := Action.shim.inj hl
      have hhistory : (s.act lib cfg (.shim e l)).history = s.history ++
          httpEvents e l (.shim sh) (.shim (sh.update (cfg.activeServer e) l)) := by
        simp only [act, he]
        rfl
      rw [hhistory]
      rcases httpEvents_cases e l sh (sh.update (cfg.activeServer e) l) with
        hnil | ⟨op, _, hone⟩ | ⟨r, code, _, _, hone⟩
      · left
        rw [hnil, List.append_nil]
      · right; left
        exact ⟨e, sh, op, he, by rw [hone]⟩
      · right; right
        exact ⟨(e, r), code, by rw [hone]⟩
    · cases hl
    · exact absurd rfl (hne l)
  · exact .inl (history_act fun e l heq => ha ⟨e, l, heq⟩)

/-- In the new history a request comes after an answer: both are old, or the request is
new and has no entry yet. -/
theorem Coherent.pair_history (h : Coherent lib cfg t s) {a : Action} (hg : s.guard lib cfg t a)
    {x y : Ticket} {code : Status} {op : HttpOp}
    (hpair : [Event.respond x code, .invoke y op].Sublist (s.act lib cfg a).history) :
    .respond x code ∈ s.history ∧
      ([Event.respond x code, .invoke y op].Sublist s.history ∨ ∀ c, ¬ EntryOf cfg s y c) := by
  have hold : [Event.respond x code, .invoke y op].Sublist s.history →
      .respond x code ∈ s.history := fun hsub => hsub.subset List.mem_cons_self
  rcases history_cases hg with heq | ⟨e, sh, op', he, heq⟩ | ⟨ticket, code', heq⟩
  · rw [heq] at hpair
    exact ⟨hold hpair, .inl hpair⟩
  · rw [heq] at hpair
    rcases pair_sublist_concat hpair with hsub | ⟨hmem, hnew⟩
    · exact ⟨hold hsub, .inl hsub⟩
    · refine ⟨hmem, .inr fun c hc => ?_⟩
      obtain ⟨rfl, _⟩ := Event.invoke.inj hnew
      rcases h.request_of_entry hc with ⟨sh', q, he', hq, _, _⟩
      obtain rfl : sh = sh' := Endpoint.shim.inj (he.symm.trans he')
      exact absurd (List.getElem?_eq_some_iff.mp hq).1 (lt_irrefl _)
  · rw [heq] at hpair
    rcases pair_sublist_concat hpair with hsub | ⟨_, hnew⟩
    · exact ⟨hold hsub, .inl hsub⟩
    · cases hnew

/-- Where all endpoints are started as shims, they are shims. -/
theorem shims_reachable (hshims : ∀ e, cfg.kind e = .shim)
    (hr : (cluster lib decided cfg t).Reachable s) : ∀ e, ∃ sh, s.endpoints e = .shim sh := by
  refine (cluster lib decided cfg t).invariant (fun s => ∀ e, ∃ sh, s.endpoints e = .shim sh)
    ?_ ?_ s hr
  · intro s hs e
    rcases hs with ⟨ω, _, rfl⟩
    refine ⟨Shim.new (cfg.activeServer e), ?_⟩
    simp only [State.new, hshims e, Endpoint.new]
  · intro l s _ hg h e
    rcases h e with ⟨sh, he⟩
    change ∃ sh, (s.act lib cfg l.action).endpoints e = .shim sh
    rcases endpoints_cases hg e with ⟨_, _, _, _, _, heq⟩ | ⟨_, _, _, hb, _⟩ | ⟨_, n, heq⟩
    · exact ⟨_, heq⟩
    · cases hb.symm.trans he
    · rw [he] at heq
      exact ⟨_, heq⟩

/-- In every run the log respects real time. -/
theorem realTime_reachable (hlib : lib.Lawful decided)
    (hr : (agreeing lib decided cfg t).Reachable s) : RealTime cfg s := by
  refine (agreeing lib decided cfg t).invariant (RealTime cfg) ?_ ?_ s hr
  · intro s hs x y code op j c hpair
    rcases hs with ⟨ω, _, rfl⟩
    cases hpair
  · intro l s hs hg h x y code op j c hpair hsure hj hy
    have hc := coherent_agreeing hlib hs
    have hagreed := agreed_reachable hs
    have hrecorded := recorded_reachable hlib (Machine.reachable_of_restrict hs)
    have hlog : ((agreeing lib decided cfg t).update l s).log = s.log ++ l.decided := rfl
    have hpair' : [Event.respond x code, .invoke y op].Sublist (s.act lib cfg l.action).history :=
      hpair
    rcases hc.pair_history hg.1 hpair' with ⟨hmem, hcases⟩
    rw [hlog] at hj ⊢
    by_cases hlt : j < s.log.length
    · -- an old entry: the pair is old too
      rw [List.getElem?_append_left hlt] at hj
      have hy' : EntryOf cfg s y c := entryOf_of_update hlib hs hg (List.mem_of_getElem? hj) hy
      have hold := hcases.resolve_right fun hno => hno c hy'
      rcases h x y code op j c hold hsure hj hy' with ⟨i, c', hij, hi, hx⟩
      refine ⟨i, c', hij, ?_, entryOf_update hg hx⟩
      rw [List.getElem?_append_left (lt_trans hij hlt)]
      exact hi
    · -- a new entry: the answer is old, and its entry with it
      rcases hc.entry_of_respond hlib hagreed hrecorded hmem hsure with ⟨i, c', _, hi, hx, _⟩
      have hilt := (List.getElem?_eq_some_iff.mp hi).1
      refine ⟨i, c', by omega, ?_, entryOf_update hg hx⟩
      rw [List.getElem?_append_left hilt]
      exact hi

/-! ## The log as a sequential history -/

/-- The calls of the log, given the request of each entry. -/
def callsOf (request : Command → Ticket × HttpOp) (log : List Command) :
    List (Call Ticket HttpOp Status) :=
  log.mapIdx fun j c => ⟨(request c).1, (request c).2,
    (request c).2.status (.completed (replyTo (Database.replay (log.take j)) c.kvCmd))⟩

section

variable {request : Command → Ticket × HttpOp} {log : List Command}

/-- A call is the request of an entry, with the result that the log has there. -/
theorem getElem?_callsOf {j : ℕ} {call : Call Ticket HttpOp Status}
    (h : (callsOf request log)[j]? = some call) : ∃ c, log[j]? = some c ∧
      call = ⟨(request c).1, (request c).2,
        (request c).2.status (.completed (replyTo (Database.replay (log.take j)) c.kvCmd))⟩ := by
  rw [callsOf, List.getElem?_mapIdx] at h
  rcases Option.map_eq_some_iff.mp h with ⟨c, hc, rfl⟩
  exact ⟨c, hc, rfl⟩

theorem callsOf_getElem? {j : ℕ} {c : Command} (h : log[j]? = some c) :
    (callsOf request log)[j]? = some ⟨(request c).1, (request c).2,
      (request c).2.status (.completed (replyTo (Database.replay (log.take j)) c.kvCmd))⟩ := by
  rw [callsOf, List.getElem?_mapIdx, h]
  rfl

theorem map_id_callsOf : (callsOf request log).map Call.id = log.map fun c => (request c).1 := by
  apply List.ext_getElem?
  intro j
  simp only [callsOf, List.getElem?_map, List.getElem?_mapIdx, Option.map_map]
  rfl

theorem map_op_callsOf : (callsOf request log).map Call.op = log.map fun c => (request c).2 := by
  apply List.ext_getElem?
  intro j
  simp only [callsOf, List.getElem?_map, List.getElem?_mapIdx, Option.map_map]
  rfl

/-- What the database answers is what the map answers. -/
theorem legal_callsOf (hop : ∀ c ∈ log, (request c).2.kvCommand = c.kvCmd) :
    kvMap.Legal kvMap.init (callsOf request log) := by
  refine Object.legal_of_getElem? fun j call hj => ?_
  rcases getElem?_callsOf hj with ⟨c, hc, rfl⟩
  have hops : ((callsOf request log).take j).map Call.op =
      (log.take j).map fun c => (request c).2 := by
    rw [List.map_take, map_op_callsOf, List.map_take]
  have hbefore : (log.take j).map Command.kvCmd =
      ((log.take j).map fun c => (request c).2).map HttpOp.kvCommand := by
    rw [List.map_map]
    refine List.map_congr_left fun c' hc' => ?_
    exact (hop c' ((List.take_sublist j log).subset hc')).symm
  have hvalues := values_replayFrom Database.new (log.take j) _ hbefore
  have hinit : Database.new.values = kvMap.init := rfl
  dsimp only
  rw [hops, ← hop c (List.mem_of_getElem? hc), status_replyTo, ← hinit, ← hvalues]
  rfl

end

/-- For every number of servers with their shims and every run, the history of HTTP
requests is linearizable: each GET returns what the last PUT on its key wrote. -/
theorem http_linearizable (lib : OmniPaxos Ω M) (decided : Ω → List Command)
    (hlib : lib.Lawful decided) (cfg : Config) (t : Transport) (hshims : ∀ e, cfg.kind e = .shim) :
    ∀ s, (agreeing lib decided cfg t).Reachable s → WellFormed s.history ∧
      ∃ order, Linearization kvMap (· = .internalServerError) IsPut s.history order := by
  intro s hr
  have hr' := Machine.reachable_of_restrict hr
  have h := coherent_agreeing hlib hr
  have hagreed := agreed_reachable hr
  have hrecorded := recorded_reachable hlib hr'
  have hall := shims_reachable hshims hr'
  -- the request from which an entry of the log comes
  have hexists : ∀ c, ∃ x : Ticket × HttpOp, c ∈ s.log →
      EntryOf cfg s x.1 c ∧ x.2.kvCommand = c.kvCmd ∧ .invoke x.1 x.2 ∈ s.history := by
    intro c
    by_cases hc : c ∈ s.log
    · rcases h.entryOf_mem_log hlib hagreed hall hc with ⟨ticket, hentry⟩
      rcases h.request_of_entry hentry with ⟨sh, q, he, hq, hop, _⟩
      exact ⟨(ticket, q.op), fun _ => ⟨hentry, hop, hrecorded.requested _ sh _ q he hq⟩⟩
    · exact ⟨((0, 0), .get ""), fun hmem => absurd hmem hc⟩
  choose request hrequest using hexists
  -- the calls in the order of the log
  have hlegal : kvMap.Legal kvMap.init (callsOf request s.log) :=
    legal_callsOf fun c hc => (hrequest c hc).2.1
  refine ⟨hrecorded.wellFormed, _, linearization_of_log hlegal ?_ ?_ ?_ ?_ ?_⟩
  -- no call is twice in the order
  · rw [map_id_callsOf]
    refine (h.nodup_log hlib hagreed).map_on fun c hc c' hc' heq => ?_
    have hentry := (hrequest c hc).1
    rw [heq] at hentry
    exact h.entry_unique hentry (hrequest c' hc').1
  -- each was invoked
  · intro call hcall
    rcases List.mem_iff_getElem?.mp hcall with ⟨j, hj⟩
    rcases getElem?_callsOf hj with ⟨c, hc, rfl⟩
    exact (hrequest c (List.mem_of_getElem? hc)).2.2
  -- each response that is not an error is that of its entry
  · intro ticket code hmem hsure
    rcases h.entry_of_respond hlib hagreed hrecorded hmem hsure with
      ⟨j, c, op, hj, hentry, hinvoke, hop, hcode⟩
    have hc := hrequest c (List.mem_of_getElem? hj)
    have hticket := h.ticket_unique hc.1 hentry
    refine ⟨_, List.mem_of_getElem? (callsOf_getElem? hj), hticket, ?_⟩
    have hsame : (request c).2 = op := hrecorded.op_unique (hticket ▸ hc.2.2) hinvoke
    rw [hcode, ← hsame]
  -- a call that responded before another was invoked has its entry before that of the other
  · intro x hx y hy code op hpair
    rcases List.mem_iff_getElem?.mp hx with ⟨i, hi⟩
    rcases List.mem_iff_getElem?.mp hy with ⟨j, hj⟩
    rcases getElem?_callsOf hi with ⟨cx, hcx, rfl⟩
    rcases getElem?_callsOf hj with ⟨cy, hcy, rfl⟩
    have hentryx := (hrequest cx (List.mem_of_getElem? hcx)).1
    have hentryy := (hrequest cy (List.mem_of_getElem? hcy)).1
    have hsure : code ≠ .internalServerError := by
      intro hfailed
      subst hfailed
      exact h.not_entryOf_failed hrecorded hentryx (hpair.subset List.mem_cons_self)
    rcases realTime_reachable hlib hr _ _ code op j cy hpair hsure hcy hentryy with
      ⟨i', cx', hlt, hi', hentry'⟩
    obtain rfl := h.entry_unique hentry' hentryx
    have hindex : i' = i := by
      have hilt := (List.getElem?_eq_some_iff.mp hi').1
      exact (List.getElem?_inj hilt (h.nodup_log hlib hagreed)).mp (hi'.trans hcx.symm)
    exact pair_sublist_of_lt hi hj (hindex ▸ hlt)
  -- a get leaves the store as it is
  · intro op hread values
    cases op with
    | put key value => exact absurd ⟨key, value, rfl⟩ hread
    | get key => rfl

/-- The run with a `put` and a `get` has an order, in which the `get` sees the value. -/
theorem http_linearizable_put_get :
    (∃ order, Linearization kvMap (· = .internalServerError) IsPut
      (twoNodesMachine.after twoNodesStart putGetRun).history order) ∧
    (twoNodesMachine.after twoNodesStart putGetRun).history =
      [.invoke (0, 0) (.put "k" "v"), .respond (0, 0) .noContent, .invoke (0, 1) (.get "k"),
        .respond (0, 1) (.ok "v")] := by
  have h := http_linearizable relayLibrary Relay.log relayLibrary_lawful twoNodes smallTransport
    (fun _ => rfl) _ putGetRun_reachable
  constructor
  · exact h.2
  · decide +kernel

end Cluster

end OmnipaxosKv
