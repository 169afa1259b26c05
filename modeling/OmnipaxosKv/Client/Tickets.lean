import OmnipaxosKv.Client.Pending

/-! # Requests and their reply channels

A request's reply channel travels with its command: through the queue, into a pending
table, and out of it with the one response that completes it.
-/

namespace OmnipaxosKv

namespace Client

/-- The operation of a request is fixed; its result and its answer are final. -/
structure Request.Final (q q' : Request) : Prop where
  op : q'.op = q.op
  reply : ∀ x, q.reply = .completed x → q'.reply = .completed x
  handler : ∀ code, q.handler = .answered code → q'.handler = .answered code

theorem final_refl (q : Request) : q.Final q := ⟨rfl, fun _ h => h, fun _ h => h⟩

namespace Shim

/-- Among the messages seen there is one that answers command `i` with this reply. -/
def Completes (taken : List ServerMessage) (i : CommandId) (c : KVCommand) : Reply → Prop
  | .written => .write i ∈ taken ∧ ∃ key value, c = .put key value
  | .value v => .read i v ∈ taken ∧ ∃ key, c = .get key

theorem Completes.mono {taken taken' : List ServerMessage} (hsub : taken ⊆ taken') {i : CommandId}
    {c : KVCommand} {x : Reply} (h : Completes taken i c x) : Completes taken' i c x := by
  cases x with
  | written => exact ⟨hsub h.1, h.2⟩
  | value v => exact ⟨hsub h.1, h.2⟩

/-- The requests whose command is in the queue or taken out of it. -/
def enqueued (s : Shim) : List RequestId :=
  s.cmdRx.map ApiCommand.replyTo ++ s.issued.map Prod.fst

structure Tickets (s : Shim) : Prop where
  distinct : s.enqueued.Nodup
  fresh : ∀ (r : RequestId) (q : Request), s.requests[r]? = some q →
    q.handler = .enqueuing → q.reply = .empty
  queued : ∀ cmd ∈ s.cmdRx, ∃ q : Request, s.requests[cmd.replyTo]? = some q ∧
    q.op.kvCommand = cmd.kvCommand ∧ q.handler ≠ .enqueuing ∧ q.reply = .empty
  issued : ∀ (i : CommandId) (r : RequestId) (c : KVCommand), s.issued[i]? = some (r, c) →
    ∃ q : Request, s.requests[r]? = some q ∧ q.op.kvCommand = c ∧ q.handler ≠ .enqueuing ∧
      q.reply ≠ .dropped
  unanswered : ∀ (i : CommandId) (r : RequestId),
    s.pendingPut.lookup i = some r ∨ s.pendingGet.lookup i = some r →
    ∃ q : Request, s.requests[r]? = some q ∧ q.reply = .empty
  completed : ∀ (r : RequestId) (q : Request) (x : Reply), s.requests[r]? = some q →
    q.reply = .completed x → ∃ i c, s.issued[i]? = some (r, c) ∧ Completes s.network.taken i c x
  answered : ∀ (r : RequestId) (q : Request) (code : Status), s.requests[r]? = some q →
    q.handler = .answered code →
    (code = .internalServerError ∧ r ∉ s.enqueued) ∨
      ∃ x, q.reply = .completed x ∧ code = q.op.status q.reply

theorem tickets_new (activeServer : NodeId) : (new activeServer).Tickets := by
  constructor <;> simp [new, enqueued]

theorem getElem?_setHandler (s : Shim) (r j : RequestId) (h : Handler) :
    (s.setHandler r h).requests[j]? =
      s.requests[j]?.map fun q => if r = j then { q with handler := h } else q := by
  rw [setHandler, List.getElem?_modify]
  rfl

theorem getElem?_setReply (s : Shim) (r j : RequestId) (x : Oneshot) :
    (s.setReply r x).requests[j]? =
      s.requests[j]?.map fun q => if r = j then { q with reply := x } else q := by
  rw [setReply, List.getElem?_modify]
  rfl

section

variable {activeServer : NodeId} {s : Shim}

/-- Two issued commands have different requests. -/
theorem Tickets.request_ne (h : s.Tickets) {i j : CommandId} {r r' : RequestId} {c c' : KVCommand}
    (hi : s.issued[i]? = some (r, c)) (hj : s.issued[j]? = some (r', c')) (hne : i ≠ j) :
    r ≠ r' := by
  intro heq
  have hnodup : (s.issued.map Prod.fst).Nodup := (List.nodup_append.mp h.distinct).2.1
  have hi' : (s.issued.map Prod.fst)[i]? = some r := by simp [hi]
  have hj' : (s.issued.map Prod.fst)[j]? = some r := by simp [hj, heq]
  have hlt := (List.getElem?_eq_some_iff.mp hi').1
  exact hne ((List.getElem?_inj hlt hnodup).mp (hi'.trans hj'.symm))

/-- A queued command's request is not that of an issued one. -/
theorem Tickets.queued_ne (h : s.Tickets) {cmd : ApiCommand} (hcmd : cmd ∈ s.cmdRx)
    {i : CommandId} {r : RequestId} {c : KVCommand} (hi : s.issued[i]? = some (r, c)) :
    cmd.replyTo ≠ r := by
  have hdisjoint := (List.nodup_append.mp h.distinct).2.2
  exact hdisjoint _ (List.mem_map_of_mem hcmd) _
    (List.mem_map_of_mem (f := Prod.fst) (List.mem_of_getElem? hi))

/-- A handler moves on. It may take the request into the queue or not, but it does not
touch the reply channel. -/
theorem Tickets.setHandler (h : s.Tickets) (r : RequestId) (st : Handler)
    (hst : st ≠ .enqueuing)
    (hans : ∀ (q : Request) (code : Status), s.requests[r]? = some q → st = .answered code →
      (code = .internalServerError ∧ r ∉ s.enqueued) ∨
        ∃ x, q.reply = .completed x ∧ code = q.op.status q.reply) :
    (s.setHandler r st).Tickets := by
  have hget := getElem?_setHandler s r
  refine ⟨h.distinct, ?_, ?_, ?_, ?_, ?_, ?_⟩
  · intro j q hq hhandler
    rw [hget, Option.map_eq_some_iff] at hq
    rcases hq with ⟨q₀, hq₀, rfl⟩
    split at hhandler
    -- the new status is not that of a request that is still to be queued
    · exact absurd hhandler hst
    · next hne =>
        rw [if_neg hne]
        exact h.fresh j q₀ hq₀ hhandler
  -- the reply channels stay as they are
  · intro cmd hcmd
    rcases h.queued cmd hcmd with ⟨q, hq, hop, hhandler, hreply⟩
    refine ⟨_, by rw [hget, hq]; rfl, ?_, ?_, ?_⟩
    · split <;> exact hop
    · split
      · exact hst
      · exact hhandler
    · split <;> exact hreply
  · intro i j c hi
    rcases h.issued i j c hi with ⟨q, hq, hop, hhandler, hreply⟩
    refine ⟨_, by rw [hget, hq]; rfl, ?_, ?_, ?_⟩
    · split <;> exact hop
    · split
      · exact hst
      · exact hhandler
    · split <;> exact hreply
  · intro i j hi
    rcases h.unanswered i j hi with ⟨q, hq, hreply⟩
    refine ⟨_, by rw [hget, hq]; rfl, ?_⟩
    split <;> exact hreply
  · intro j q x hq hreply
    rw [hget, Option.map_eq_some_iff] at hq
    rcases hq with ⟨q₀, hq₀, rfl⟩
    refine h.completed j q₀ x hq₀ ?_
    split at hreply <;> exact hreply
  · intro j q code hq hhandler
    rw [hget, Option.map_eq_some_iff] at hq
    rcases hq with ⟨q₀, hq₀, rfl⟩
    -- the answer that is given now is the one allowed, any other was given before
    split at hhandler
    · next heq =>
        subst heq
        simp only [if_true]
        exact hans q₀ code hq₀ hhandler
    · next hne =>
        rw [if_neg hne]
        exact h.answered j q₀ code hq₀ hhandler

/-- A response takes its request out of the pending tables and completes it. -/
theorem Tickets.complete (h : s.Tickets) (hp : s.Pending activeServer) {id : CommandId}
    {tx : RequestId} {c : KVCommand} {x : Reply} (hid : s.issued[id]? = some (tx, c))
    (hopen : ∃ q : Request, s.requests[tx]? = some q ∧ q.reply = .empty)
    (hx : Completes s.network.taken id c x) (puts gets : HashMap CommandId RequestId)
    (hputs : ∀ i r, puts.lookup i = some r → s.pendingPut.lookup i = some r ∧ i ≠ id)
    (hgets : ∀ i r, gets.lookup i = some r → s.pendingGet.lookup i = some r ∧ i ≠ id) :
    ({ s.setReply tx (.completed x) with pendingPut := puts, pendingGet := gets } : Shim).Tickets := by
  have hget := getElem?_setReply s tx
  rcases hopen with ⟨qtx, hqtx, hempty⟩
  refine ⟨h.distinct, ?_, ?_, ?_, ?_, ?_, ?_⟩
  · intro j q hq hhandler
    change (s.setReply tx (.completed x)).requests[j]? = some q at hq
    rw [hget, Option.map_eq_some_iff] at hq
    rcases hq with ⟨q₀, hq₀, rfl⟩
    split at hhandler
    · -- the request of an issued command has left `cmd_tx.send`
      next heq =>
        subst heq
        rcases h.issued id tx c hid with ⟨q, hq, _, hnot, _⟩
        obtain rfl : q = q₀ := Option.some.inj (hq.symm.trans hq₀)
        exact absurd hhandler hnot
    · next hne =>
        rw [if_neg hne]
        exact h.fresh j q₀ hq₀ hhandler
  · intro cmd hcmd
    rcases h.queued cmd hcmd with ⟨q, hq, hop, hhandler, hreply⟩
    have hne : tx ≠ cmd.replyTo := (h.queued_ne hcmd hid).symm
    refine ⟨q, ?_, hop, hhandler, hreply⟩
    change (s.setReply tx (.completed x)).requests[cmd.replyTo]? = some q
    rw [hget, hq, Option.map_some, if_neg hne]
  · intro i j c' hi
    rcases h.issued i j c' hi with ⟨q, hq, hop, hhandler, hreply⟩
    refine ⟨if tx = j then { q with reply := .completed x } else q, ?_, ?_, ?_, ?_⟩
    · change (s.setReply tx (.completed x)).requests[j]? = _
      rw [hget, hq]
      rfl
    · split <;> exact hop
    · split <;> exact hhandler
    · split
      · simp
      · exact hreply
  · intro i j hi
    -- the other pending commands belong to other requests
    have hold : (s.pendingPut.lookup i = some j ∨ s.pendingGet.lookup i = some j) ∧ i ≠ id := by
      rcases hi with hi | hi
      · exact ⟨.inl (hputs i j hi).1, (hputs i j hi).2⟩
      · exact ⟨.inr (hgets i j hi).1, (hgets i j hi).2⟩
    have hissued : ∃ c', s.issued[i]? = some (j, c') := by
      rcases hold.1 with hi' | hi'
      · rcases hp.put i j hi' with ⟨key, value, hc⟩
        exact ⟨_, hc⟩
      · rcases hp.get i j hi' with ⟨key, hc⟩
        exact ⟨_, hc⟩
    rcases hissued with ⟨c', hc'⟩
    rcases h.unanswered i j hold.1 with ⟨q, hq, hreply⟩
    refine ⟨q, ?_, hreply⟩
    change (s.setReply tx (.completed x)).requests[j]? = some q
    rw [hget, hq, Option.map_some, if_neg (h.request_ne hid hc' (Ne.symm hold.2))]
  · intro j q y hq hreply
    change (s.setReply tx (.completed x)).requests[j]? = some q at hq
    rw [hget, Option.map_eq_some_iff] at hq
    rcases hq with ⟨q₀, hq₀, rfl⟩
    split at hreply
    · next heq =>
        subst heq
        obtain rfl : x = y := Oneshot.completed.inj hreply
        exact ⟨id, c, hid, hx⟩
    · exact h.completed j q₀ y hq₀ hreply
  · intro j q code hq hhandler
    change (s.setReply tx (.completed x)).requests[j]? = some q at hq
    rw [hget, Option.map_eq_some_iff] at hq
    rcases hq with ⟨q₀, hq₀, rfl⟩
    split at hhandler
    · -- its handler cannot have answered from the empty channel
      next heq =>
        subst heq
        obtain rfl : qtx = q₀ := Option.some.inj (hqtx.symm.trans hq₀)
        rcases h.answered tx qtx code hqtx hhandler with ⟨_, hout⟩ | ⟨y, hy, _⟩
        · have hin : tx ∈ s.enqueued :=
            List.mem_append_right _ (List.mem_map_of_mem (f := Prod.fst) (List.mem_of_getElem? hid))
          exact absurd hin hout
        · exact absurd (hempty.symm.trans hy) (by simp)
    · next hne =>
        rw [if_neg hne]
        exact h.answered j q₀ code hq₀ hhandler

/-- The tickets see of the network only what was taken from it. -/
theorem Tickets.withNetwork (h : s.Tickets) (n : Network) (sending : Option ClientMessage)
    (phase : ShimPhase) (htaken : s.network.taken ⊆ n.taken) :
    ({ s with network := n, sending := sending, phase := phase } : Shim).Tickets where
  distinct := h.distinct
  fresh := h.fresh
  queued := h.queued
  issued := h.issued
  unanswered := h.unanswered
  completed := by
    intro r q x hq hx
    rcases h.completed r q x hq hx with ⟨i, c, hi, hc⟩
    exact ⟨i, c, hi, hc.mono htaken⟩
  answered := h.answered

/-- A request in `cmd_tx.send` is not yet in the queue. -/
theorem Tickets.not_enqueued (h : s.Tickets) {r : RequestId} {q : Request}
    (hq : s.requests[r]? = some q) (hhandler : q.handler = .enqueuing) : r ∉ s.enqueued := by
  intro hr
  rcases List.mem_append.mp hr with hr | hr
  · rcases List.mem_map.mp hr with ⟨cmd, hcmd, rfl⟩
    rcases h.queued cmd hcmd with ⟨q', hq', _, hnot, _⟩
    obtain rfl : q' = q := Option.some.inj (hq'.symm.trans hq)
    exact hnot hhandler
  · rcases List.mem_map.mp hr with ⟨⟨r', c⟩, hmem, rfl⟩
    rcases List.mem_iff_getElem?.mp hmem with ⟨i, hi⟩
    rcases h.issued i r' c hi with ⟨q', hq', _, hnot, _⟩
    obtain rfl : q' = q := Option.some.inj (hq'.symm.trans hq)
    exact hnot hhandler

/-- A new request has not been enqueued. -/
theorem Tickets.invoke (h : s.Tickets) (op : HttpOp) : (s.invoke op).Tickets := by
  have hkeep : ∀ (r : RequestId) (q : Request), s.requests[r]? = some q →
      (s.requests ++ [⟨op, .enqueuing, .empty⟩])[r]? = some q := by
    intro r q hq
    exact getElem?_concat_eq_some.mpr (.inl hq)
  refine ⟨h.distinct, ?_, ?_, ?_, ?_, ?_, ?_⟩
  · intro r q hq hhandler
    rcases getElem?_concat_eq_some.mp hq with hq | ⟨_, rfl⟩
    · exact h.fresh r q hq hhandler
    · rfl
  · intro cmd hcmd
    rcases h.queued cmd hcmd with ⟨q, hq, hrest⟩
    exact ⟨q, hkeep _ q hq, hrest⟩
  · intro i r c hi
    rcases h.issued i r c hi with ⟨q, hq, hrest⟩
    exact ⟨q, hkeep _ q hq, hrest⟩
  · intro i r hi
    rcases h.unanswered i r hi with ⟨q, hq, hrest⟩
    exact ⟨q, hkeep _ q hq, hrest⟩
  · intro r q x hq hx
    rcases getElem?_concat_eq_some.mp hq with hq | ⟨_, rfl⟩
    · exact h.completed r q x hq hx
    · cases hx
  · intro r q code hq hcode
    rcases getElem?_concat_eq_some.mp hq with hq | ⟨_, rfl⟩
    · exact h.answered r q code hq hcode
    · cases hcode

/-- The queue takes the command of a request that waits for its answer. -/
theorem Tickets.push (h : s.Tickets) (cmd : ApiCommand) {q : Request}
    (hq : s.requests[cmd.replyTo]? = some q) (hop : q.op.kvCommand = cmd.kvCommand)
    (hhandler : q.handler = .waiting) (hreply : q.reply = .empty) (hnew : cmd.replyTo ∉ s.enqueued) :
    ({ s with cmdRx := s.cmdRx ++ [cmd] } : Shim).Tickets := by
  have hperm : ({ s with cmdRx := s.cmdRx ++ [cmd] } : Shim).enqueued.Perm
      (cmd.replyTo :: s.enqueued) := by
    simp only [enqueued, List.map_append, List.map_cons, List.map_nil, List.append_assoc]
    exact List.perm_middle
  refine ⟨?_, h.fresh, ?_, h.issued, h.unanswered, h.completed, ?_⟩
  · rw [hperm.nodup_iff, List.nodup_cons]
    exact ⟨hnew, h.distinct⟩
  · intro cmd' hcmd'
    rcases List.mem_append.mp hcmd' with hold | hnew'
    · exact h.queued cmd' hold
    · obtain rfl := List.mem_singleton.mp hnew'
      exact ⟨q, hq, hop, by rw [hhandler]; decide, hreply⟩
  · intro r q' code hq' hcode
    rcases h.answered r q' code hq' hcode with ⟨herr, hout⟩ | hdone
    · left
      refine ⟨herr, fun hin => ?_⟩
      rcases List.mem_cons.mp (hperm.mem_iff.mp hin) with rfl | hin
      · obtain rfl : q' = q := Option.some.inj (hq'.symm.trans hq)
        rw [hhandler] at hcode
        cases hcode
      · exact hout hin
    · exact .inr hdone

/-- A request is enqueued once. -/
theorem Tickets.enqueue (h : s.Tickets) {r : RequestId} (hg : s.handlerOf r = some .enqueuing) :
    (s.enqueue r).Tickets := by
  unfold Shim.enqueue
  split
  · exact h
  · next q hq =>
      have hhandler : q.handler = .enqueuing := by simpa [handlerOf, hq] using hg
      have hnew := h.not_enqueued hq hhandler
      split
      · -- the receiver is gone, and so the command never entered the queue
        refine h.setHandler r _ (by simp) ?_
        intro _ code _ hcode
        left
        exact ⟨(Handler.answered.inj hcode).symm, hnew⟩
      · have hwait := h.setHandler r .waiting (by simp) (by simp)
        have hq' : (s.setHandler r .waiting).requests[r]? = some { q with handler := .waiting } := by
          rw [getElem?_setHandler, hq, Option.map_some, if_pos rfl]
        refine hwait.push (q.op.apiCommand r) (q := { q with handler := .waiting })
          ?_ (by simp) rfl (h.fresh r q hq hhandler) ?_
        · simpa using hq'
        · rw [HttpOp.replyTo_apiCommand]
          exact hnew

/-- A handler answers what came through its channel. -/
theorem Tickets.answer (h : s.Tickets) {r : RequestId}
    (hready : s.requests[r]?.map Request.reply ≠ some .empty) : (s.answer r).Tickets := by
  unfold Shim.answer
  split
  · exact h
  · next q hq =>
      refine h.setHandler r _ (by simp) ?_
      intro q' code hq' hcode
      obtain rfl : q' = q := Option.some.inj (hq'.symm.trans hq)
      obtain rfl := Handler.answered.inj hcode
      cases hreply : q'.reply with
      | empty => simp [hq, hreply] at hready
      | completed x => exact .inr ⟨x, rfl, rfl⟩
      | dropped =>
          -- only commands still in the queue lose their channel
          left
          refine ⟨by cases q'.op <;> rfl, fun hin => ?_⟩
          rcases List.mem_append.mp hin with hin | hin
          · rcases List.mem_map.mp hin with ⟨cmd, hcmd, hr⟩
            rcases h.queued cmd hcmd with ⟨q₀, hq₀, _, _, hempty⟩
            rw [hr, hq] at hq₀
            obtain rfl := Option.some.inj hq₀
            rw [hempty] at hreply
            cases hreply
          · rcases List.mem_map.mp hin with ⟨⟨r', c⟩, hmem, hr⟩
            rcases List.mem_iff_getElem?.mp hmem with ⟨i, hi⟩
            rcases h.issued i r' c hi with ⟨q₀, hq₀, _, _, hkept⟩
            rw [show r' = r from hr, hq] at hq₀
            obtain rfl := Option.some.inj hq₀
            exact hkept hreply

/-- The request of a taken command leaves the queue and is pending under the next id. -/
theorem Tickets.takeCommand (h : s.Tickets) : s.takeCommand.Tickets := by
  unfold Shim.takeCommand
  split
  · exact h
  · next cmd rest hcons =>
      -- the request moves from the queue to what was issued
      have hperm : (rest.map ApiCommand.replyTo ++
          (s.issued ++ [(cmd.replyTo, cmd.kvCommand)]).map Prod.fst).Perm s.enqueued := by
        simp only [enqueued, hcons, List.map_append, List.map_cons, List.map_nil,
          ← List.append_assoc]
        exact List.perm_append_singleton _ _
      rcases h.queued cmd (by simp [hcons]) with ⟨q, hq, hop, hhandler, hreply⟩
      -- its reply channel is still empty, and goes into one of the two tables
      have hpending : ∀ (m : HashMap CommandId RequestId) (i : CommandId) (r : RequestId),
          (∀ j, m.lookup i = some j → ∃ q : Request, s.requests[j]? = some q ∧ q.reply = .empty) →
          (m.insert s.nextRequestId cmd.replyTo).lookup i = some r →
          ∃ q : Request, s.requests[r]? = some q ∧ q.reply = .empty := by
        intro m i r hm hi
        rw [lookup_insert_ite] at hi
        split at hi
        · obtain rfl := Option.some.inj hi
          exact ⟨q, hq, hreply⟩
        · exact hm r hi
      refine ⟨hperm.nodup_iff.mpr h.distinct, h.fresh, ?_, ?_, ?_, ?_, ?_⟩
      · intro cmd' hcmd'
        exact h.queued cmd' (by rw [hcons]; exact List.mem_cons_of_mem _ hcmd')
      · intro i r c hi
        rcases getElem?_concat_eq_some.mp hi with hold | ⟨_, heq⟩
        · exact h.issued i r c hold
        · rcases Prod.mk.inj heq with ⟨rfl, rfl⟩
          exact ⟨q, hq, hop, hhandler, by rw [hreply]; decide⟩
      · intro i r hi
        have hput := fun j hj => h.unanswered i j (.inl hj)
        have hget := fun j hj => h.unanswered i j (.inr hj)
        -- only one of the tables has changed
        cases cmd with
        | put key value replyTo =>
            rcases hi with hi | hi
            · exact hpending _ i r hput hi
            · exact hget r hi
        | get key replyTo =>
            rcases hi with hi | hi
            · exact hput r hi
            · exact hpending _ i r hget hi
      · intro r q' x hq' hx
        rcases h.completed r q' x hq' hx with ⟨i, c, hi, hc⟩
        exact ⟨i, c, getElem?_concat_eq_some.mpr (.inl hi), hc⟩
      · intro r q' code hq' hcode
        rcases h.answered r q' code hq' hcode with ⟨herr, hout⟩ | hdone
        · exact .inl ⟨herr, fun hin => hout (hperm.mem_iff.mp hin)⟩
        · exact .inr hdone

/-- `network.send` touches no request. -/
theorem Tickets.resolveSend (h : s.Tickets) (hp : s.Pending activeServer) :
    (s.resolveSend activeServer).Tickets := by
  unfold Shim.resolveSend
  split
  · exact h
  · split
    · exact h
    · next n hn =>
        refine h.withNetwork n none s.phase ?_
        rcases Network.send_cases hp.session.aligned hn with ⟨_, _, _, rfl⟩ | ⟨_, _, rfl, _⟩
        · exact List.Subset.refl _
        · exact List.Subset.refl _

/-- A response completes the request that its id belongs to. -/
theorem Tickets.handleServerMessage (h : s.Tickets) (hp : s.Pending activeServer)
    (msg : ServerMessage) (hmsg : msg ∈ s.network.taken) : (handleServerMessage msg s).Tickets := by
  have hlookup : ∀ (m : HashMap CommandId RequestId) (id i : CommandId) (r : RequestId),
      (m.erase id).lookup i = some r → m.lookup i = some r ∧ i ≠ id := by
    intro m id i r hi
    rw [lookup_erase_ite] at hi
    split at hi
    · cases hi
    · next hne => exact ⟨hi, hne⟩
  cases msg with
  | write id =>
      simp only [Shim.handleServerMessage]
      split
      · exact h
      · next tx htx =>
          rcases hp.put id tx htx with ⟨key, value, hid⟩
          have hx : Completes s.network.taken id (.put key value) .written := ⟨hmsg, key, value, rfl⟩
          refine h.complete hp hid (h.unanswered id tx (.inl htx)) hx _ _
            (hlookup s.pendingPut id) ?_
          -- the get table is as before, and an id is in one table only
          intro i r hi
          refine ⟨hi, ?_⟩
          intro heq
          subst heq
          rcases hp.get i r hi with ⟨key', hid'⟩
          cases hid.symm.trans hid'
  | read id value =>
      simp only [Shim.handleServerMessage]
      split
      · exact h
      · next tx htx =>
          rcases hp.get id tx htx with ⟨key, hid⟩
          have hx : Completes s.network.taken id (.get key) (.value value) := ⟨hmsg, key, rfl⟩
          refine h.complete hp hid (h.unanswered id tx (.inr htx)) hx _ _
            ?_ (hlookup s.pendingGet id)
          intro i r hi
          refine ⟨hi, ?_⟩
          intro heq
          subst heq
          rcases hp.put i r hi with ⟨key', value', hid'⟩
          cases hid.symm.trans hid'
  | startSignal startTime => exact h

/-- The branch for a server message keeps the tickets. -/
theorem Tickets.recvServer (h : s.Tickets) (hp : s.Pending activeServer) :
    s.recvServer.Tickets := by
  unfold Shim.recvServer
  split
  · exact h
  · next msg rest hcons =>
      have hsub : s.network.taken ⊆ s.network.recv.taken := List.subset_append_left _ _
      have hrecv := h.withNetwork s.network.recv s.sending s.phase hsub
      refine hrecv.handleServerMessage (hp.withNetwork s.network.recv hp.session.recv hsub) msg ?_
      rw [taken_recv hcons]
      simp

/-- The queue is dropped, and every channel in it. Nothing has been taken from it. -/
theorem Tickets.connectFailed (h : s.Tickets) (hp : s.Pending activeServer)
    (hphase : s.phase ≠ .looping) : s.connectFailed.Tickets := by
  have hissued := (hp.quiet hphase).1
  -- a request is as before, or its command was dropped with the queue
  have hget : ∀ (r : RequestId) (q : Request), s.connectFailed.requests[r]? = some q →
      ∃ q₀, s.requests[r]? = some q₀ ∧ q.op = q₀.op ∧ q.handler = q₀.handler ∧
        (q.reply = q₀.reply ∨ r ∈ s.cmdRx.map ApiCommand.replyTo ∧ q.reply = .dropped) := by
    intro r q hq
    simp only [Shim.connectFailed, List.getElem?_mapIdx] at hq
    rcases Option.map_eq_some_iff.mp hq with ⟨q₀, hq₀, rfl⟩
    refine ⟨q₀, hq₀, ?_⟩
    split
    · next hin => exact ⟨rfl, rfl, .inr ⟨hin, rfl⟩⟩
    · exact ⟨rfl, rfl, .inl rfl⟩
  have hin : ∀ r, r ∈ s.cmdRx.map ApiCommand.replyTo → r ∈ s.enqueued :=
    fun r hr => List.mem_append_left _ hr
  refine ⟨?_, ?_, ?_, ?_, ?_, ?_, ?_⟩
  · simp [enqueued, Shim.connectFailed, hissued]
  · intro r q hq hhandler
    rcases hget r q hq with ⟨q₀, hq₀, _, hsame, hreply | ⟨hr, _⟩⟩
    · rw [hreply]
      exact h.fresh r q₀ hq₀ (hsame ▸ hhandler)
    · exact absurd (hin r hr) (h.not_enqueued hq₀ (hsame ▸ hhandler))
  · intro cmd hcmd
    cases hcmd
  -- nothing was issued before the connection was there
  · intro i r c hi
    simp [Shim.connectFailed, hissued] at hi
  · intro i r hi
    rcases hi with hi | hi
    · rcases hp.put i r hi with ⟨key, value, hc⟩
      simp [hissued] at hc
    · rcases hp.get i r hi with ⟨key, hc⟩
      simp [hissued] at hc
  · intro r q x hq hx
    rcases hget r q hq with ⟨q₀, hq₀, _, _, hreply | ⟨_, hreply⟩⟩
    · rw [hreply] at hx
      exact h.completed r q₀ x hq₀ hx
    · rw [hreply] at hx
      cases hx
  · intro r q code hq hcode
    have hout : r ∉ s.connectFailed.enqueued := by
      simp [enqueued, Shim.connectFailed, hissued]
    rcases hget r q hq with ⟨q₀, hq₀, hop, hsame, hreply⟩
    rcases h.answered r q₀ code hq₀ (hsame ▸ hcode) with ⟨herr, _⟩ | ⟨x, hx, hst⟩
    · exact .inl ⟨herr, hout⟩
    · -- nothing was completed before the task started
      rcases h.completed r q₀ x hq₀ hx with ⟨i, c, hi, _⟩
      simp [hissued] at hi

/-- Every step of the handlers and of the task keeps the tickets. -/
theorem Tickets.update (h : s.Tickets) (hp : s.Pending activeServer) {l : ShimStep}
    (hg : s.guard activeServer l) : (s.update activeServer l).Tickets := by
  cases l with
  | invoke op => exact h.invoke op
  | enqueue r => exact h.enqueue hg.1
  | answer r => exact h.answer hg.2
  | disconnect r => exact h.setHandler r .gone (by simp) (by simp)
  | connected => exact h.withNetwork _ s.sending .waitingStart (List.Subset.refl _)
  | connectFailed =>
      have hphase : s.phase ≠ .looping := by rw [show s.phase = .connecting from hg]; decide
      exact h.connectFailed hp hphase
  | recvStart => exact h.withNetwork _ s.sending _ (List.subset_append_left _ _)
  | takeCommand => exact h.takeCommand
  | resolveSend => exact h.resolveSend hp
  | recvServer => exact h.recvServer hp

/-! ## What happens to one request -/

/-- A handler that has not answered may go on. -/
theorem final_setHandler {r j : RequestId} {q : Request} {st : Handler}
    (hq : s.requests[j]? = some q) (hopen : ∀ code, s.handlerOf r ≠ some (.answered code)) :
    ∃ q', (s.setHandler r st).requests[j]? = some q' ∧ q.Final q' := by
  refine ⟨_, by rw [getElem?_setHandler, hq]; rfl, ?_⟩
  split
  · next heq =>
      subst heq
      refine ⟨rfl, fun _ h => h, ?_⟩
      intro code hcode
      exact absurd (by simp [handlerOf, hq, hcode]) (hopen code)
  · exact final_refl q

/-- A channel that is empty may be completed. -/
theorem final_setReply {r j : RequestId} {q : Request} {x : Reply} (hq : s.requests[j]? = some q)
    (hempty : ∃ q : Request, s.requests[r]? = some q ∧ q.reply = .empty) :
    ∃ q', (s.setReply r (.completed x)).requests[j]? = some q' ∧ q.Final q' := by
  rcases hempty with ⟨q₀, hq₀, hreply⟩
  refine ⟨_, by rw [getElem?_setReply, hq]; rfl, ?_⟩
  split
  · next heq =>
      subst heq
      obtain rfl : q₀ = q := Option.some.inj (hq₀.symm.trans hq)
      refine ⟨rfl, ?_, fun _ h => h⟩
      intro y hy
      exact absurd (hreply.symm.trans hy) (by simp)
  · exact final_refl q

/-- No step changes the operation of a request, a result that is there or an answer that was
given. -/
theorem Tickets.final (h : s.Tickets) {l : ShimStep} (hg : s.guard activeServer l)
    {j : RequestId} {q : Request} (hq : s.requests[j]? = some q) :
    ∃ q', (s.update activeServer l).requests[j]? = some q' ∧ q.Final q' := by
  have hsame : ∃ q', s.requests[j]? = some q' ∧ q.Final q' := ⟨q, hq, final_refl q⟩
  cases l with
  | invoke op => exact ⟨q, getElem?_concat_eq_some.mpr (.inl hq), final_refl q⟩
  | enqueue r =>
      have hopen : ∀ code, s.handlerOf r ≠ some (.answered code) := by
        intro code hcode
        rw [hg.1] at hcode
        cases hcode
      simp only [Shim.update, Shim.enqueue]
      split
      · exact hsame
      · split
        · exact final_setHandler hq hopen
        · exact final_setHandler hq hopen
  | answer r =>
      have hopen : ∀ code, s.handlerOf r ≠ some (.answered code) := by
        intro code hcode
        rw [hg.1] at hcode
        cases hcode
      simp only [Shim.update, Shim.answer]
      split
      · exact hsame
      · exact final_setHandler hq hopen
  | disconnect r =>
      refine final_setHandler hq ?_
      intro code hcode
      rcases hg with hg | hg
      · rw [hg] at hcode
        cases hcode
      · rw [hg] at hcode
        cases hcode
  | connectFailed =>
      simp only [Shim.update, Shim.connectFailed, List.getElem?_mapIdx, hq, Option.map_some]
      refine ⟨_, rfl, ?_⟩
      split
      · next hin =>
          -- the requests in the queue have no reply yet
          rcases List.mem_map.mp hin with ⟨cmd, hcmd, rfl⟩
          rcases h.queued cmd hcmd with ⟨q₀, hq₀, _, _, hempty⟩
          obtain rfl : q₀ = q := Option.some.inj (hq₀.symm.trans hq)
          refine ⟨rfl, ?_, fun _ h => h⟩
          intro x hx
          exact absurd (hempty.symm.trans hx) (by simp)
      · exact final_refl q
  | takeCommand =>
      simp only [Shim.update, Shim.takeCommand]
      split <;> exact hsame
  | resolveSend =>
      simp only [Shim.update, Shim.resolveSend]
      repeat' split
      all_goals exact hsame
  | recvServer =>
      simp only [Shim.update, Shim.recvServer]
      split
      · exact hsame
      · next msg rest _ =>
          cases msg with
          | write id =>
              simp only [Shim.handleServerMessage]
              split
              · exact hsame
              · next tx htx =>
                  exact final_setReply (s := { s with network := s.network.recv }) hq
                    (h.unanswered id tx (.inl htx))
          | read id value =>
              simp only [Shim.handleServerMessage]
              split
              · exact hsame
              · next tx htx =>
                  exact final_setReply (s := { s with network := s.network.recv }) hq
                    (h.unanswered id tx (.inr htx))
          | startSignal startTime => exact hsame
  | _ => exact hsame

/-- Only `invoke` makes a request, and no step takes one away. -/
theorem length_requests_update (l : ShimStep) (s : Shim) :
    (s.update activeServer l).requests.length = s.requests.length +
      match l with | .invoke _ => 1 | _ => 0 := by
  cases l with
  | invoke op => simp [Shim.update, Shim.invoke]
  | enqueue r =>
      simp only [Shim.update, Shim.enqueue]
      repeat' split
      all_goals simp [Shim.setHandler]
  | answer r =>
      simp only [Shim.update, Shim.answer]
      split
      · rfl
      · simp [Shim.setHandler]
  | disconnect r => simp [Shim.update, Shim.setHandler]
  | connectFailed => simp [Shim.update, Shim.connectFailed]
  | takeCommand =>
      simp only [Shim.update, Shim.takeCommand]
      split <;> rfl
  | resolveSend =>
      simp only [Shim.update, Shim.resolveSend]
      repeat' split
      all_goals rfl
  | recvServer =>
      simp only [Shim.update, Shim.recvServer, Shim.handleServerMessage]
      repeat' split
      all_goals simp [Shim.setReply]
  | _ => rfl

/-- A request that was not just made was there before. -/
theorem Tickets.request_of_update (h : s.Tickets) {l : ShimStep} (hg : s.guard activeServer l)
    (hl : ∀ op, l ≠ .invoke op) {r : RequestId} {q' : Request}
    (hq' : (s.update activeServer l).requests[r]? = some q') :
    ∃ q, s.requests[r]? = some q ∧ q.Final q' := by
  have hlen : (s.update activeServer l).requests.length = s.requests.length := by
    rw [length_requests_update]
    cases l with
    | invoke op => exact absurd rfl (hl op)
    | _ => rfl
  have hlt := (List.getElem?_eq_some_iff.mp hq').1
  rw [hlen] at hlt
  rcases h.final hg (List.getElem?_eq_getElem hlt) with ⟨q, hq, hfinal⟩
  obtain rfl : q = q' := Option.some.inj (hq.symm.trans hq')
  exact ⟨_, List.getElem?_eq_getElem hlt, hfinal⟩

/-- Commands keep the ids under which they were issued. -/
theorem issued_prefix_update (activeServer : NodeId) (l : ShimStep) (s : Shim) :
    s.issued <+: (s.update activeServer l).issued := by
  by_cases htake : l = .takeCommand
  · subst htake
    simp only [Shim.update, Shim.takeCommand]
    split
    · exact List.prefix_rfl
    · exact List.prefix_append _ _
  · by_cases hsend : l = .resolveSend
    · subst hsend
      simp only [Shim.update, Shim.resolveSend]
      repeat' split
      all_goals exact List.prefix_rfl
    · rw [(issued_update activeServer s htake hsend).1]

end

end Shim

end Client

end OmnipaxosKv
