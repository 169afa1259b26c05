import OmnipaxosKv.Jepsen.Linked

/-! # The history of a test is linearizable

The log of the cluster says where each write takes effect, and each read that was answered.
Between the two sides stand the operations of the cluster, which have the requests, and the
entries of the history, which have the calls.
-/

namespace OmnipaxosKv

namespace Jepsen

open Server Client Linearizability
open Cluster (EndpointId EntryOf Coherent)

variable {Ω M : Type} {lib : OmniPaxos Ω M} {decided : Ω → List Command} {cfg : Cluster.Config}
  {t : Transport} {nodes : List EndpointId} {n : ℕ} {gen : Gen Payload} {s : Harness Ω M}

/-! ## Writes are made once -/

/-- In every run of the harness a write is sent at most once. -/
theorem once_reachable (hr : (harness lib decided cfg t nodes n gen).Reachable s) :
    ∀ (i : ℕ) o, s.test.ops[i]? = some o → o.op.f = .write → o.requests.length ≤ 1 := by
  induction hr with
  | start hs =>
      intro i o ho
      rw [hs.2.1.2] at ho
      cases ho
  | @step s l _ hg ih =>
      intro i o ho hf
      cases l with
      | run l => exact ih i o ho hf
      | request thread =>
          rcases hg with ⟨_, o', ho', op, hop, e, he, _⟩
          rw [update_request ho' hop he] at ho
          rcases getElem?_concat_eq_some.mp ho with hold | ⟨_, hnew⟩
          · exact ih i o hold hf
          · rw [← hnew]
            exact Nat.zero_le 1
      | respond thread j outcome =>
          rcases hg with ⟨o', ho', op, hop, _, _, o₁, ho₁, _⟩
          rw [update_respond ho' hop, update_complete ho₁] at ho
          rcases getElem?_set_eq_some ho with ⟨_, hnew⟩ | ⟨_, hold⟩
          · rw [hnew] at hf ⊢
            exact ih j o₁ ho₁ hf
          · exact ih i o hold hf
      | test l =>
          rcases hg with ⟨hun, hguard⟩
          cases l with
          | invoke e op => cases hun
          | complete j outcome => cases hun
          | cluster l => exact ih i o ho hf
          | deliver j entries =>
              rcases hguard with ⟨o₁, ho₁, _⟩
              change ((jepsen lib decided cfg t).update (.deliver j entries) s.test).ops[i]? = _
                at ho
              rw [update_deliver ho₁] at ho
              rcases getElem?_set_eq_some ho with ⟨_, hnew⟩ | ⟨_, hold⟩
              · -- the first request of the write
                rw [hnew] at hf ⊢
                have hnone : o₁.requests = [] := hun o₁ ho₁ hf
                show (o₁.requests ++ [_]).length ≤ 1
                rw [hnone]
                exact Nat.le_refl 1
              · exact ih i o hold hf

/-! ## Answers and invocations -/

/-- An invocation is answered with one value. -/
theorem respond_unique {history : List (Operation Payload)} {k : ℕ} {v v' : Option ℤ}
    (h : .respond k v ∈ events history) (h' : .respond k v' ∈ events history) : v = v' := by
  rcases mem_events.mp h with ⟨j, hj⟩
  rcases mem_events.mp h' with ⟨j', hj'⟩
  rcases event_eq_respond hj with ⟨x, _, _, _, _, _, _, hadjacent⟩
  rcases event_eq_respond hj' with ⟨x', _, _, _, _, _, _, hadjacent'⟩
  rcases hadjacent.first with ⟨y, hy, hp⟩
  rcases hadjacent'.first with ⟨y', hy', hp'⟩
  have hsame : x'.process = x.process := by
    rw [← hp, ← hp', Option.some.inj (hy.symm.trans hy')]
  rw [hsame] at hadjacent'
  rw [hadjacent.second_unique hadjacent', hj'] at hj
  exact (Event.respond.inj (Option.some.inj hj)).2.symm

theorem OpType.operationType_inj {a b : OpType} (h : a.operationType = b.operationType) :
    a = b := by
  cases a <;> cases b <;> first | rfl | cases h

theorem Linked.index_unique (h : Linked s) {i i' k : ℕ} (hk : s.calls[i]? = some k)
    (hk' : s.calls[i']? = some k) : i = i' :=
  (List.getElem?_inj (List.getElem?_eq_some_iff.mp hk).1 h.nodup).mp (hk.trans hk'.symm)

theorem Linked.exists_call (h : Linked s) {i : ℕ} {o : Invocation}
    (ho : s.test.ops[i]? = some o) : ∃ k, s.calls[i]? = some k := by
  have hlt := (List.getElem?_eq_some_iff.mp ho).1
  rw [← h.lengths] at hlt
  exact ⟨_, List.getElem?_eq_getElem hlt⟩

/-- The operations are those of the workload. -/
theorem Linked.ofTest (h : Linked s) {i : ℕ} {o : Invocation} (ho : s.test.ops[i]? = some o) :
    o.op.OfTest := by
  rcases h.exists_call ho with ⟨k, hk⟩
  rcases h.invoked i o k ho hk with ⟨x, _, hclient, hfields⟩
  rcases hclient.fields with ⟨op, hop, hkv⟩
  rw [hfields] at hkv
  rw [(Payload.kv.inj hkv).1]
  exact hop

/-- An answer in the history is that of an operation that is `:ok`. -/
theorem Linked.responded (h : Linked s) {j k : ℕ} {v : Option ℤ}
    (hj : event s.run.history j = some (.respond k v)) :
    ∃ (i : ℕ) (o : Invocation) (result : Completion), s.test.ops[i]? = some o ∧
      s.calls[i]? = some k ∧ o.completion = some result ∧ result.type = .ok ∧ v = result.value ∧
      ∀ (i' : ℕ) k' o', s.test.ops[i']? = some o' → s.calls[i']? = some k' → j < k' →
        o.completedAt ≤ o'.invokedAt := by
  rcases event_eq_respond hj with ⟨x, op, error, hx, htype, hfields, hv, hadjacent⟩
  have hnot : x.type ≠ .invoke := by
    rw [htype]
    exact fun heq => by cases heq
  rcases h.done j x hx hnot with ⟨i, k', o, hd, hadjacent', horder⟩
  rcases hd.completion with ⟨result, hresult, hxtype, hxfields⟩
  have hk : s.calls[i]? = some k := by
    rw [hadjacent.first_unique hadjacent']
    exact hd.call
  refine ⟨i, o, result, hd.op, hk, hresult, ?_, ?_, horder⟩
  · rw [htype] at hxtype
    cases hrtype : result.type with
    | ok => rfl
    | info =>
        rw [hrtype] at hxtype
        cases hxtype
    | fail =>
        rw [hrtype] at hxtype
        cases hxtype
  · rw [hfields] at hxfields
    rw [hv, (Payload.kv.inj hxfields).1]

/-- An operation that does not fail has its invocation among the events. -/
theorem Linked.invoke_mem (h : Linked s) {i k : ℕ} {o : Invocation}
    (ho : s.test.ops[i]? = some o) (hk : s.calls[i]? = some k)
    (hnot : ∀ result, o.completion = some result → result.type ≠ .fail) :
    .invoke k o.op.onRegister ∈ events s.run.history := by
  rcases h.invoked i o k ho hk with ⟨x, hx, hclient, hfields⟩
  refine mem_events.mpr ⟨k, event_invoke hx hclient.type hfields ?_⟩
  intro z hz hfail
  rcases completionOf_eq_some ⟨x, hx, rfl⟩ hz with ⟨j, hadjacent, hzj⟩
  have htype : z.type ≠ .invoke := by
    rw [hfail]
    exact fun heq => by cases heq
  rcases h.done j z hzj htype with ⟨i', k', o', hd, hadjacent', _⟩
  rcases hadjacent.second with ⟨z', hz', hp⟩
  rw [Option.some.inj (hzj.symm.trans hz'), hp] at hadjacent'
  have hkk := hadjacent.first_unique hadjacent'
  have hi : i = i' := h.index_unique hk (hkk ▸ hd.call)
  have hoo : o = o' := Option.some.inj (ho.symm.trans (hi ▸ hd.op))
  rcases hd.completion with ⟨result, hresult, hztype, _⟩
  rw [← hoo] at hresult
  exact hnot result hresult (OpType.operationType_inj (hztype.symm.trans hfail))

/-- The events of the history are well formed. -/
theorem Linked.wellFormed (h : Linked s) : WellFormed (events s.run.history) := by
  refine wellFormed_events fun j x hx htype => ?_
  have hnot : x.type ≠ .invoke := by
    rw [htype]
    exact fun heq => by cases heq
  rcases h.done j x hx hnot with ⟨i, k, o, hd, hadjacent, _⟩
  rcases h.invoked i o k hd.op hd.call with ⟨y, hy, hclient, hfields⟩
  exact ⟨k, y, o.op, none, hadjacent, hy, hclient.type, hfields⟩

/-! ## The register in the log -/

/-- What the register holds after the first `p` entries of the log. -/
def registerAt (log : List Command) (p : ℕ) : Option ℤ :=
  ((Database.replay (log.take p)).values (testKey 0)).bind parseLong

/-- The next entry changes the register as it changes the store. -/
theorem registerAt_succ {log : List Command} {p : ℕ} {c : Command} (hp : log[p]? = some c) :
    registerAt log (p + 1) =
      (((Database.replay (log.take p)).handleCommand c.kvCmd).1.values (testKey 0)).bind
        parseLong := by
  have htake : log.take (p + 1) = log.take p ++ [c] := by
    rw [List.take_add_one, hp]
    rfl
  rw [registerAt, htake]
  exact congrArg (fun d : Database => (d.values (testKey 0)).bind parseLong)
    (List.foldl_concat ..)

theorem Op.OfTest.key_eq {op : Op} (h : op.OfTest) : op.key = testKey 0 := by
  rcases h.1 with ⟨k, hk, hkey⟩
  have hzero : k = 0 := Nat.lt_one_iff.mp hk
  rw [hkey, hzero]

/-- A write of the test puts the text of a small number. -/
theorem Op.OfTest.write {op : Op} (h : op.OfTest) (hf : op.f = .write) :
    ∃ v : ℤ, op.value = some v ∧ op.onRegister = .write v ∧
      op.request.kvCommand = .put (testKey 0) (toString v) ∧ parseLong (toString v) = some v := by
  have hvalue := h.2
  rw [hf] at hvalue
  rcases hvalue with ⟨v, hlt, hv⟩
  refine ⟨v, hv, ?_, ?_, ?_⟩
  · rw [Op.onRegister, hf, hv]
    rfl
  · rw [Op.request, hf, hv, ← h.key_eq]
    rfl
  · rw [parseLong_toString, if_pos]
    constructor
    · omega
    · omega

theorem Op.OfTest.read {op : Op} (h : op.OfTest) (hf : op.f = .read) :
    op.onRegister = .read ∧ op.request.kvCommand = .get (testKey 0) := by
  rw [Op.onRegister, Op.request, hf, ← h.key_eq]
  exact ⟨rfl, rfl⟩

/-- A write is reported with its value. -/
theorem Op.value_of_write {op : Op} (hf : op.f = .write) (outcome : HttpOutcome) :
    (op.invoke outcome).value = op.value := by
  unfold Op.invoke
  rw [hf]
  cases outcome with
  | exception e => cases e <;> rfl
  | response status body =>
      dsimp only
      split
      · rfl
      · rfl

/-! ## Entries and operations -/

/-- What is known of a test whose endpoints are all shims. -/
structure Facts (lib : OmniPaxos Ω M) (cfg : Cluster.Config) (t : Transport)
    (s : Harness Ω M) : Prop where
  linked : Linked s
  sound : Sound cfg s.test
  coherent : Coherent lib cfg t s.test.cluster
  nodup : s.test.cluster.log.Nodup
  once : ∀ (i : ℕ) o, s.test.ops[i]? = some o → o.op.f = .write → o.requests.length ≤ 1
  owned : ∀ c ∈ s.test.cluster.log, ∃ (i : ℕ) (o : Invocation), s.test.ops[i]? = some o ∧
    o.CommandOf cfg s.test.cluster c ∧ o.op.request.kvCommand = c.kvCmd
  justified : ∀ (i : ℕ) o result, s.test.ops[i]? = some o → o.completion = some result →
    Justified cfg s.test i o result

/-- In every run of the harness the facts hold. -/
theorem facts_reachable (hlib : lib.Lawful decided) (hshims : ∀ e, cfg.kind e = .shim)
    {timeLimit : ℚ} (hpos : 0 < timeLimit) {i : ℕ}
    (hr : (harness lib decided cfg t nodes n (omnipaxosTest timeLimit i)).Reachable s) :
    Facts lib cfg t s := by
  have htest := test_reachable hr
  have hs := cluster_reachable htest
  have hagreed := Cluster.agreed_reachable hs
  have hcoherent := Cluster.coherent_agreeing hlib hs
  have hsound := sound_reachable hlib s.test htest
  refine ⟨linked_reachable hpos hr, hsound, hcoherent, hcoherent.nodup_log hlib hagreed,
    once_reachable hr, ?_, fun j o result ho hresult => justified_reachable hlib htest ho hresult⟩
  intro c hc
  rcases hcoherent.submitted_of_mem_log hlib hagreed hc with ⟨e, hsubmitted⟩
  rcases Cluster.shims_reachable hshims (Machine.reachable_of_restrict hs) e with ⟨sh, hsh⟩
  exact hsound.exists_commandOf hcoherent hsubmitted hsh

/-- A command was issued for one operation. -/
theorem Facts.op_unique (h : Facts lib cfg t s) {i i' : ℕ} {o o' : Invocation} {c : Command}
    (ho : s.test.ops[i]? = some o) (ho' : s.test.ops[i']? = some o')
    (hc : o.CommandOf cfg s.test.cluster c) (hc' : o'.CommandOf cfg s.test.cluster c) :
    i = i' := by
  rcases hc with ⟨r, hr, hentry⟩
  rcases hc' with ⟨r', hr', hentry'⟩
  have hticket := h.coherent.ticket_unique hentry hentry'
  rcases Prod.mk.inj hticket with ⟨hendpoint, hrequest⟩
  rw [← hrequest] at hr'
  exact h.sound.covered.distinct i i' o o' r ho ho' hendpoint hr hr'

theorem Facts.kvCmd (h : Facts lib cfg t s) {i p : ℕ} {o : Invocation} {c : Command}
    (ho : s.test.ops[i]? = some o) (hp : s.test.cluster.log[p]? = some c)
    (hc : o.CommandOf cfg s.test.cluster c) : o.op.request.kvCommand = c.kvCmd := by
  rcases h.owned c (List.mem_of_getElem? hp) with ⟨i', o', ho', hc', hcmd⟩
  have hi := h.op_unique ho ho' hc hc'
  rw [← hi, ho, Option.some.injEq] at ho'
  rw [ho']
  exact hcmd

/-- A write is at one position of the log. -/
theorem Facts.write_unique (h : Facts lib cfg t s) {i p q : ℕ} {o : Invocation} {c c' : Command}
    (ho : s.test.ops[i]? = some o) (hf : o.op.f = .write)
    (hp : s.test.cluster.log[p]? = some c) (hq : s.test.cluster.log[q]? = some c')
    (hc : o.CommandOf cfg s.test.cluster c) (hc' : o.CommandOf cfg s.test.cluster c') : p = q := by
  rcases hc with ⟨r, hr, hentry⟩
  rcases hc' with ⟨r', hr', hentry'⟩
  have honce := h.once i o ho hf
  have hrr : r = r' := by
    rcases List.length_eq_one_iff.mp (Nat.le_antisymm honce (List.length_pos_of_mem hr)) with
      ⟨r₀, hr₀⟩
    rw [hr₀, List.mem_singleton] at hr hr'
    rw [hr, hr']
  rw [← hrr] at hentry'
  have hcc := h.coherent.entry_unique hentry hentry'
  rw [← hcc] at hq
  exact (List.getElem?_inj (List.getElem?_eq_some_iff.mp hp).1 h.nodup).mp (hp.trans hq.symm)

/-- An operation with a command does not fail. -/
theorem Facts.not_fail (h : Facts lib cfg t s) {i : ℕ} {o : Invocation} {c : Command}
    (ho : s.test.ops[i]? = some o) (hc : o.CommandOf cfg s.test.cluster c) {result : Completion}
    (hresult : o.completion = some result) : result.type ≠ .fail := by
  intro hfail
  rcases Option.map_eq_some_iff.mp hresult with ⟨outcome, houtcome, hinvoke⟩
  rw [← hinvoke, Op.invoke_fail_iff] at hfail
  rw [hfail] at houtcome
  rcases hc with ⟨r, hr, _⟩
  rw [(h.sound.tracked i o ho).refused houtcome] at hr
  cases hr

/-- The text of a key of the test is that of a small number. -/
theorem Facts.parse_put (h : Facts lib cfg t s) {c : Command} (hc : c ∈ s.test.cluster.log)
    {key : String} {v : ℤ} (hput : c.kvCmd = .put key (toString v)) :
    parseLong (toString v) = some v := by
  rcases h.owned c hc with ⟨i, o, ho, _, hcmd⟩
  have hop := h.linked.ofTest ho
  cases hf : o.op.f with
  | read =>
      rw [(hop.read hf).2, hput] at hcmd
      cases hcmd
  | write =>
      rcases hop.write hf with ⟨w, _, _, hrequest, hparse⟩
      rw [hrequest, hput] at hcmd
      have htext : toString w = toString v := (KVCommand.put.inj hcmd).2
      rw [htext] at hparse
      rw [hparse, eq_of_parseLong_toString hparse]

/-! ## What takes effect where -/

/-- A read that was answered takes effect at position `readAt i`, a write at the position of
its entry. -/
structure TakesEffect (cfg : Cluster.Config) (s : Harness Ω M) (readAt : ℕ → ℕ) (p : ℕ)
    (call : Call ℕ RegisterOp (Option ℤ)) (i : ℕ) (o : Invocation) (c : Command) : Prop where
  op : s.test.ops[i]? = some o
  called : s.calls[i]? = some call.id
  logged : s.test.cluster.log[p]? = some c
  command : o.CommandOf cfg s.test.cluster c
  onRegister : call.op = o.op.onRegister
  result : (o.op.f = .write ∧ call.result = o.op.value) ∨
    (o.op.f = .read ∧ p = readAt i ∧ .respond call.id call.result ∈ events s.run.history)

/-- The position of a read that was answered. -/
structure ReadsAt (cfg : Cluster.Config) (s : Harness Ω M) (readAt : ℕ → ℕ) : Prop where
  effect : ∀ (i : ℕ) o result, s.test.ops[i]? = some o → o.completion = some result →
    result.type = .ok → o.op.f = .read → ∃ c, o.EffectAt cfg s.test.cluster (readAt i) c ∧
      (Database.replay (s.test.cluster.log.take (readAt i))).values (testKey 0) =
        result.value.map toString

/-- Every read that was answered has a position. -/
theorem Facts.exists_readsAt (h : Facts lib cfg t s) : ∃ readAt, ReadsAt cfg s readAt := by
  have hall : ∀ i : ℕ, ∃ p, ∀ o result, s.test.ops[i]? = some o → o.completion = some result →
      result.type = .ok → o.op.f = .read → ∃ c, o.EffectAt cfg s.test.cluster p c ∧
        (Database.replay (s.test.cluster.log.take p)).values (testKey 0) =
          result.value.map toString := by
    intro i
    by_cases hread : ∃ o result, s.test.ops[i]? = some o ∧ o.completion = some result ∧
        result.type = .ok ∧ o.op.f = .read
    · rcases hread with ⟨o, result, ho, hresult, htype, hf⟩
      have hjustified := h.justified i o result ho hresult
      rw [Justified, htype, hf] at hjustified
      rcases hjustified with ⟨p, c, heffect, _, hvalue⟩
      refine ⟨p, ?_⟩
      intro o' result' ho' hresult' _ _
      have hoo : o = o' := Option.some.inj (ho.symm.trans ho')
      rw [← hoo, hresult, Option.some.injEq] at hresult'
      rw [← hoo, ← hresult']
      rw [(h.linked.ofTest ho).key_eq] at hvalue
      exact ⟨c, heffect, hvalue⟩
    · exact ⟨0, fun o result ho hresult htype hf =>
        absurd ⟨o, result, ho, hresult, htype, hf⟩ hread⟩
  choose readAt hreadAt using hall
  exact ⟨readAt, ⟨hreadAt⟩⟩

section

variable {readAt : ℕ → ℕ} {p q i i' : ℕ} {call call' : Call ℕ RegisterOp (Option ℤ)}
  {o o' : Invocation} {c c' : Command}

/-- At a position one call takes effect. -/
theorem Facts.effect_unique (h : Facts lib cfg t s)
    (he : TakesEffect cfg s readAt p call i o c) (he' : TakesEffect cfg s readAt p call' i' o' c') :
    call = call' := by
  have hcc : c = c' := Option.some.inj (he.logged.symm.trans he'.logged)
  have hi : i = i' := h.op_unique he.op he'.op he.command (hcc ▸ he'.command)
  have hoo : o = o' := Option.some.inj (he.op.symm.trans (hi ▸ he'.op))
  have hid : call.id = call'.id := Option.some.inj (he.called.symm.trans (hi ▸ he'.called))
  have hop : call.op = call'.op := by
    rw [he.onRegister, he'.onRegister, hoo]
  have hresult : call.result = call'.result := by
    rcases he.result with ⟨hf, hvalue⟩ | ⟨hf, _, hmem⟩
    · rcases he'.result with ⟨_, hvalue'⟩ | ⟨hf', _, _⟩
      · rw [hvalue, hvalue', hoo]
      · rw [← hoo, hf] at hf'
        cases hf'
    · rcases he'.result with ⟨hf', _⟩ | ⟨_, _, hmem'⟩
      · rw [← hoo, hf] at hf'
        cases hf'
      · rw [← hid] at hmem'
        exact respond_unique hmem hmem'
  cases call
  cases call'
  simp only [Call.mk.injEq]
  exact ⟨hid, hop, hresult⟩

/-- One call takes effect once. -/
theorem Facts.position_unique (h : Facts lib cfg t s)
    (he : TakesEffect cfg s readAt p call i o c) (he' : TakesEffect cfg s readAt q call' i' o' c')
    (hid : call.id = call'.id) : p = q := by
  have hi : i = i' := h.linked.index_unique he.called (hid ▸ he'.called)
  have hoo : o = o' := Option.some.inj (he.op.symm.trans (hi ▸ he'.op))
  rcases he.result with ⟨hf, _⟩ | ⟨hf, hp, _⟩
  · exact h.write_unique he.op hf he.logged he'.logged he.command (hoo ▸ he'.command)
  · rcases he'.result with ⟨hf', _⟩ | ⟨_, hq, _⟩
    · rw [← hoo, hf] at hf'
      cases hf'
    · rw [hp, hq, hi]

/-- A call that takes effect has the result that the register gives there. -/
theorem Facts.effect_legal (h : Facts lib cfg t s) (hreads : ReadsAt cfg s readAt)
    (he : TakesEffect cfg s readAt p call i o c) :
    call.result = (register.apply (registerAt s.test.cluster.log p) call.op).2 ∧
      registerAt s.test.cluster.log (p + 1) =
        (register.apply (registerAt s.test.cluster.log p) call.op).1 := by
  have hop := h.linked.ofTest he.op
  have hcmd := h.kvCmd he.op he.logged he.command
  rw [registerAt_succ he.logged, ← hcmd, he.onRegister]
  rcases he.result with ⟨hf, hvalue⟩ | ⟨hf, hp, hmem⟩
  · rcases hop.write hf with ⟨v, hv, hregister, hrequest, hparse⟩
    rw [hregister, hrequest, hvalue, hv]
    refine ⟨rfl, ?_⟩
    show (((Database.replay _).db.insert (testKey 0) (toString v)).lookup (testKey 0)).bind
      parseLong = some v
    rw [Finmap.lookup_insert]
    exact hparse
  · rcases hop.read hf with ⟨hregister, hrequest⟩
    rw [hregister, hrequest]
    refine ⟨?_, rfl⟩
    rcases mem_events.mp hmem with ⟨j, hj⟩
    rcases h.linked.responded hj with ⟨i₀, o₀, result, ho₀, hk, hresult, htype, hv, _⟩
    have hi : i₀ = i := h.linked.index_unique hk he.called
    have hoo : o₀ = o := Option.some.inj (ho₀.symm.trans (hi ▸ he.op))
    rw [hoo] at ho₀ hresult
    rcases hreads.effect i o result he.op hresult htype hf with ⟨_, _, hvalues⟩
    rw [← hp] at hvalues
    show call.result = registerAt s.test.cluster.log p
    rw [hv, registerAt, hvalues]
    cases hresult' : result.value with
    | none => rfl
    | some v =>
        rw [hresult'] at hvalues
        rcases Database.exists_put_of_replay hvalues with ⟨c₁, hc₁, hput⟩
        exact (h.parse_put (List.mem_of_mem_take hc₁) hput).symm

/-- At the other positions the register stays as it is. -/
theorem Facts.no_effect (h : Facts lib cfg t s) (hp : s.test.cluster.log[p]? = some c)
    (hnone : ∀ call i o, ¬ TakesEffect cfg s readAt p call i o c) :
    registerAt s.test.cluster.log (p + 1) = registerAt s.test.cluster.log p := by
  rcases h.owned c (List.mem_of_getElem? hp) with ⟨i, o, ho, hc, hcmd⟩
  have hop := h.linked.ofTest ho
  rcases h.linked.exists_call ho with ⟨k, hk⟩
  rw [registerAt_succ hp, ← hcmd]
  cases hf : o.op.f with
  | read =>
      rw [(hop.read hf).2]
      rfl
  | write =>
      exact absurd ⟨ho, hk, hp, hc, rfl, .inl ⟨hf, rfl⟩⟩
        (hnone ⟨k, o.op.onRegister, o.op.value⟩ i o)

/-- An answered call takes effect, before the answer. -/
theorem Facts.effect_of_respond (h : Facts lib cfg t s) (hreads : ReadsAt cfg s readAt)
    {j k : ℕ} {v : Option ℤ} (hj : event s.run.history j = some (.respond k v)) :
    ∃ p op i o c, TakesEffect cfg s readAt p ⟨k, op, v⟩ i o c ∧ p < o.completedAt ∧
      ∀ (i' : ℕ) k' o', s.test.ops[i']? = some o' → s.calls[i']? = some k' → j < k' →
        o.completedAt ≤ o'.invokedAt := by
  rcases h.linked.responded hj with ⟨i, o, result, ho, hk, hresult, htype, hv, horder⟩
  cases hf : o.op.f with
  | write =>
      have hjustified := h.justified i o result ho hresult
      rw [Justified, htype, hf] at hjustified
      rcases hjustified with ⟨p, c, w, heffect, _, _⟩
      have hvalue : v = o.op.value := by
        rcases Option.map_eq_some_iff.mp hresult with ⟨outcome, _, hinvoke⟩
        rw [hv, ← hinvoke, Op.value_of_write hf]
      exact ⟨p, o.op.onRegister, i, o, c,
        ⟨ho, hk, heffect.logged, heffect.command, rfl, .inl ⟨hf, hvalue⟩⟩, heffect.completed,
        horder⟩
  | read =>
      rcases hreads.effect i o result ho hresult htype hf with ⟨c, heffect, _⟩
      exact ⟨readAt i, o.op.onRegister, i, o, c,
        ⟨ho, hk, heffect.logged, heffect.command, rfl, .inr ⟨hf, rfl, mem_events.mpr ⟨j, hj⟩⟩⟩,
        heffect.completed, horder⟩

/-- A call takes effect after its invocation. -/
theorem Facts.invokedAt_le (h : Facts lib cfg t s)
    (he : TakesEffect cfg s readAt p call i o c) : o.invokedAt ≤ p := by
  rcases he.command with ⟨r, hr, hentry⟩
  exact (h.sound.tracked i o he.op).later r hr p c he.logged hentry

end

/-! ## The order -/

open Classical in
/-- The call that takes effect at position `p`. -/
noncomputable def callAt (cfg : Cluster.Config) (s : Harness Ω M) (readAt : ℕ → ℕ) (p : ℕ) :
    Option (Call ℕ RegisterOp (Option ℤ)) :=
  if h : ∃ call i o c, TakesEffect cfg s readAt p call i o c then some h.choose else none

/-- The call at a position takes effect there. -/
theorem callAt_eq_some {readAt : ℕ → ℕ} {p : ℕ} {call : Call ℕ RegisterOp (Option ℤ)}
    (h : callAt cfg s readAt p = some call) : ∃ i o c, TakesEffect cfg s readAt p call i o c := by
  rw [callAt] at h
  split at h
  · next hexists =>
      rw [← Option.some.inj h]
      exact hexists.choose_spec
  · cases h

/-- The call that takes effect at a position is the call there. -/
theorem Facts.callAt_of_effect (h : Facts lib cfg t s) {readAt : ℕ → ℕ} {p i : ℕ}
    {call : Call ℕ RegisterOp (Option ℤ)} {o : Invocation} {c : Command}
    (he : TakesEffect cfg s readAt p call i o c) : callAt cfg s readAt p = some call := by
  cases hcall : callAt cfg s readAt p with
  | none =>
      rw [callAt, dif_pos ⟨call, i, o, c, he⟩] at hcall
      cases hcall
  | some call' =>
      rcases callAt_eq_some hcall with ⟨i', o', c', he'⟩
      rw [h.effect_unique he he']

/-- The calls at their positions are the steps of the register along the log. -/
theorem Facts.effects (h : Facts lib cfg t s) {readAt : ℕ → ℕ} (hreads : ReadsAt cfg s readAt) :
    Effects register s.test.cluster.log.length (registerAt s.test.cluster.log)
      (callAt cfg s readAt) := by
  refine ⟨rfl, ?_, ?_⟩
  · intro p hp hnone
    have hnot : ∀ call i o,
        ¬ TakesEffect cfg s readAt p call i o s.test.cluster.log[p] := by
      intro call i o he
      rw [h.callAt_of_effect he] at hnone
      cases hnone
    exact h.no_effect (List.getElem?_eq_getElem hp) hnot
  · intro p _ call hcall
    rcases callAt_eq_some hcall with ⟨i, o, c, he⟩
    exact h.effect_legal hreads he

/-- In the order of the log the calls of a test are a linearization of its history. -/
theorem Facts.linearization (h : Facts lib cfg t s) {readAt : ℕ → ℕ}
    (hreads : ReadsAt cfg s readAt) :
    Linearization register (fun _ => False) IsWrite (events s.run.history)
      ((List.range s.test.cluster.log.length).filterMap (callAt cfg s readAt)) := by
  have hlt : ∀ {p : ℕ} {c : Command}, s.test.cluster.log[p]? = some c →
      p < s.test.cluster.log.length := fun hp => (List.getElem?_eq_some_iff.mp hp).1
  refine linearization_of_effects (h.effects hreads) ?_ ?_ ?_ ?_ ?_
  -- no call takes effect twice
  · intro p _ q _ call call' hcall hcall' hid
    rcases callAt_eq_some hcall with ⟨i, o, c, he⟩
    rcases callAt_eq_some hcall' with ⟨i', o', c', he'⟩
    exact h.position_unique he he' hid
  -- each was invoked
  · intro p _ call hcall
    rcases callAt_eq_some hcall with ⟨i, o, c, he⟩
    rw [he.onRegister]
    exact h.linked.invoke_mem he.op he.called fun result => h.not_fail he.op he.command
  -- each that was answered takes effect
  · intro k v hmem _
    rcases mem_events.mp hmem with ⟨j, hj⟩
    rcases h.effect_of_respond hreads hj with ⟨p, op, i, o, c, he, _⟩
    exact ⟨p, hlt he.logged, ⟨k, op, v⟩, h.callAt_of_effect he, rfl, rfl⟩
  · intro p _ call hcall
    rcases callAt_eq_some hcall with ⟨i, o, c, he⟩
    -- a write may take effect without an answer, a read is there for its answer
    rcases he.result with ⟨hf, hvalue⟩ | ⟨_, _, hmem⟩
    · -- a write with another answer would have that as its result
      by_cases hanswered : ∃ v, .respond call.id v ∈ events s.run.history
      · left
        rcases hanswered with ⟨v, hv⟩
        rcases mem_events.mp hv with ⟨j, hj⟩
        rcases h.effect_of_respond hreads hj with ⟨q, op, i', o', c', he', _⟩
        have hpq := h.position_unique he he' rfl
        rw [← hpq] at he'
        rw [h.effect_unique he he']
        exact hv
      · right
        rcases (h.linked.ofTest he.op).write hf with ⟨v, _, hregister, _⟩
        refine ⟨⟨v, he.onRegister.trans hregister⟩, ?_⟩
        intro v' hv'
        exact hanswered ⟨v', hv'⟩
    · exact .inl hmem
  -- an answer before an invocation: the entry was decided before the other was submitted
  · intro p _ q _ call call' hcall hcall' v op hbefore
    rcases callAt_eq_some hcall with ⟨i, o, c, he⟩
    rcases callAt_eq_some hcall' with ⟨i', o', c', he'⟩
    have hsorted : (List.range s.run.history.length).Pairwise (· < ·) := List.pairwise_lt_range
    rcases pair_of_sublist_filterMap hsorted hbefore with ⟨j, _, k, _, hjk, hj, hk⟩
    rw [← (event_eq_invoke hk).1] at hjk
    rcases h.effect_of_respond hreads hj with ⟨p', op', i₀, o₀, c₀, he₀, hcompleted, horder⟩
    have hpp := h.position_unique he he₀ rfl
    have hinvoked := h.invokedAt_le he'
    have hle := horder i' call'.id o' he'.op he'.called hjk
    omega

/-- Whatever the interleaving of workers, shims and servers, and whichever requests are late or
lost, the history that the test records is that of a register: a checker that looks for an
order of its reads and writes can find one. -/
theorem history_linearizable (lib : OmniPaxos Ω M) (decided : Ω → List Command)
    (hlib : lib.Lawful decided) (cfg : Cluster.Config) (t : Transport)
    (hshims : ∀ e, cfg.kind e = .shim) (nodes : List EndpointId) (n : ℕ) (timeLimit : ℚ)
    (hpos : 0 < timeLimit) (i : ℕ) :
    ∀ s, (harness lib decided cfg t nodes n (omnipaxosTest timeLimit i)).Reachable s →
      WellFormed (events s.run.history) ∧
      ∃ order, Linearization register (fun _ => False) IsWrite (events s.run.history) order := by
  intro s hr
  have h := facts_reachable hlib hshims hpos hr
  rcases h.exists_readsAt with ⟨readAt, hreads⟩
  exact ⟨h.linked.wellFormed, _, h.linearization hreads⟩

/-! ## A write and a read of its value -/

open Cluster (twoNodes twoNodesStart requestRun)

/-- The client worker makes operation `i`, as request `r` of its shim. -/
def calledHttp (i : ℕ) (r : RequestId) (op : Op) (answer : Status) : List HarnessStep :=
  .request (.int 0) ::
    (.deliver i [] :: (requestRun r op.request).tail.map .cluster).map HarnessStep.test ++
    [.respond (.int 0) i (response answer)]

def harnessRun : List HarnessStep :=
  bootLabels.map .test ++ [.run (.ask 5 [0, 7])] ++ calledHttp 0 0 writeSeven .noContent ++
    [.run (.complete 6), .run (.ask 3000000000 [1, 0, 0, 0]), .run (.ask 3000000000 [1, 0, 0, 0])] ++
    calledHttp 1 1 readKey (.ok "7") ++ [.run (.complete 3000000001)]

def twoNodesHarness : Machine (Harness Relay (NodeId × Option Command)) HarnessStep :=
  harness relayLibrary Relay.log twoNodes smallTransport [0] 1 (omnipaxosTest 60 1)

def harnessStart : Harness Relay (NodeId × Option Command) :=
  ⟨.start 1 (omnipaxosTest 60 1), ⟨twoNodesStart, []⟩, []⟩

instance (l : HarnessStep) (s : Harness Relay (NodeId × Option Command)) :
    Decidable (twoNodesHarness.guard l s) :=
  decidableHarness _ _ _ _ _ _ _ l s

theorem harnessRun_valid : twoNodesHarness.Valid harnessStart harnessRun := by decide +kernel

theorem history_linearizable_write_read :
    let s := twoNodesHarness.after harnessStart harnessRun
    events s.run.history =
      [.invoke 0 (.write 7), .respond 0 (some 7), .invoke 2 .read, .respond 2 (some 7)] ∧
    ∃ order, Linearization register (fun _ => False) IsWrite (events s.run.history) order := by
  have hstart : twoNodesHarness.init harnessStart :=
    ⟨rfl, ⟨⟨fun n => ⟨n, [], []⟩, fun _ => rfl, rfl⟩, rfl⟩, rfl⟩
  have hr := twoNodesHarness.reachable_after harnessRun (.start hstart) harnessRun_valid
  constructor
  · decide +kernel
  · generalize twoNodesHarness.after harnessStart harnessRun = s at hr
    exact (history_linearizable relayLibrary Relay.log relayLibrary_lawful twoNodes smallTransport
      (fun _ => rfl) [0] 1 60 (by decide) 1 s hr).2

end Jepsen

end OmnipaxosKv
