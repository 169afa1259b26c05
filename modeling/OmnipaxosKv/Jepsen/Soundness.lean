import OmnipaxosKv.Jepsen.Run

/-! # Operations and the log

Each request of a shim belongs to one operation. Its entry is behind all that was in the log
when the operation was invoked, and an answer is that of an entry which a server had decided
when the operation was completed.
-/

namespace OmnipaxosKv

namespace Jepsen

open Server Client Linearizability
open Cluster (EndpointId Ticket EntryOf Submitted Coherent)

variable {Ω M : Type} {lib : OmniPaxos Ω M} {decided : Ω → List Command} {cfg : Cluster.Config}
  {t : Transport}

/-! ## The requests of the shims -/

/-- Only an HTTP request adds to the requests of a shim. -/
theorem requests_of_act {s : Cluster.State Ω M} {a : Cluster.Action} (hg : s.guard lib cfg t a)
    (ha : isHttpRequest a = false) {e : EndpointId} {sh' : Shim}
    (he : (s.act lib cfg a).endpoints e = .shim sh') :
    ∃ sh, s.endpoints e = .shim sh ∧ sh'.requests.length = sh.requests.length := by
  rcases Cluster.endpoints_cases hg e with ⟨l, sh, hl, hold, _, heq⟩ | ⟨_, _, _, _, heq⟩ |
    ⟨_, n, heq⟩
  · refine ⟨sh, hold, ?_⟩
    rw [← Endpoint.shim.inj (heq.symm.trans he), Shim.length_requests_update]
    rw [hl] at ha
    cases l with
    | invoke op => cases ha
    | _ => rfl
  · cases heq.symm.trans he
  · rcases Cluster.shim_of_withNetwork (heq.symm.trans he) with ⟨sh, hold, hsame⟩
    refine ⟨sh, hold, ?_⟩
    rw [hsame]

/-! ## Operations and requests -/

/-- The answer of a handler is that of the entry of its request, at a position of the log
that was reached by `bound`. -/
def Answered (cfg : Cluster.Config) (s : Cluster.State Ω M) (ticket : Ticket) (op : HttpOp)
    (answer : Status) (bound : ℕ) : Prop :=
  ∃ (p : ℕ) (c : Command), p < bound ∧ s.log[p]? = some c ∧ EntryOf cfg s ticket c ∧
    op.kvCommand = c.kvCmd ∧
    answer = op.status (.completed (Cluster.replyTo (Database.replay (s.log.take p)) c.kvCmd))

/-- What is known of one operation. -/
structure Invocation.Tracked (cfg : Cluster.Config) (s : Cluster.State Ω M) (o : Invocation) :
    Prop where
  generated : o.op.Generated
  requested : ∀ r ∈ o.requests, ∃ sh q, s.endpoints o.endpoint = .shim sh ∧
    sh.requests[r]? = some q ∧ q.op = o.op.request
  invoked : o.invokedAt ≤ s.log.length
  later : ∀ r ∈ o.requests, ∀ p c, s.log[p]? = some c → EntryOf cfg s (o.endpoint, r) c →
    o.invokedAt ≤ p
  refused : o.outcome = some (.exception .connect) → o.requests = []
  answered : ∀ status body, o.outcome = some (.response status body) →
    ∃ r ∈ o.requests, ∃ answer, response answer = .response status body ∧
      (answer ≠ .internalServerError →
        Answered cfg s (o.endpoint, r) o.op.request answer o.completedAt)

/-- A request belongs to one operation. -/
structure Covered (s : State Ω M) : Prop where
  distinct : ∀ (i j : ℕ) (o o' : Invocation) (r : RequestId), s.ops[i]? = some o →
    s.ops[j]? = some o' → o.endpoint = o'.endpoint → r ∈ o.requests → r ∈ o'.requests → i = j
  covers : ∀ e sh r, s.cluster.endpoints e = .shim sh → r < sh.requests.length →
    ∃ (i : ℕ) (o : Invocation), s.ops[i]? = some o ∧ o.endpoint = e ∧ r ∈ o.requests

section

variable {s : Cluster.State Ω M} {l : Cluster.Label}

/-- What has been answered stays answered. -/
theorem answered_update (hg : (Cluster.agreeing lib decided cfg t).guard l s) {ticket : Ticket}
    {op : HttpOp} {answer : Status} {bound : ℕ} (h : Answered cfg s ticket op answer bound) :
    Answered cfg ((Cluster.agreeing lib decided cfg t).update l s) ticket op answer bound := by
  rcases h with ⟨p, c, hbound, hp, hentry, hop, hanswer⟩
  have hlt : p < s.log.length := (List.getElem?_eq_some_iff.mp hp).1
  have hlog : ((Cluster.agreeing lib decided cfg t).update l s).log = s.log ++ l.decided := rfl
  refine ⟨p, c, hbound, ?_, Cluster.entryOf_update hg hentry, hop, ?_⟩
  · rw [hlog, List.getElem?_append_left hlt]
    exact hp
  · rw [hlog, List.take_append_of_le_length (le_of_lt hlt)]
    exact hanswer

/-- A step of the cluster. -/
theorem Invocation.Tracked.update {o : Invocation} (hlib : lib.Lawful decided)
    (hs : (Cluster.agreeing lib decided cfg t).Reachable s)
    (hg : (Cluster.agreeing lib decided cfg t).guard l s) (h : o.Tracked cfg s) :
    o.Tracked cfg ((Cluster.agreeing lib decided cfg t).update l s) := by
  have hcoherent := Cluster.coherent_agreeing hlib hs
  have hlog : ((Cluster.agreeing lib decided cfg t).update l s).log = s.log ++ l.decided := rfl
  refine ⟨h.generated, ?_, ?_, ?_, h.refused, ?_⟩
  · intro r hr
    rcases h.requested r hr with ⟨sh, q, he, hq, hop⟩
    rcases hcoherent.final_act hg.1 he hq with ⟨sh', q', he', hq', hfinal⟩
    exact ⟨sh', q', he', hq', hfinal.op.trans hop⟩
  · rw [hlog, List.length_append]
    exact Nat.le_add_right_of_le h.invoked
  · intro r hr p c hp hentry
    rw [hlog] at hp
    -- an old position had the same request before; a new one is behind the invocation anyway
    by_cases hlt : p < s.log.length
    · rw [List.getElem?_append_left hlt] at hp
      have hold := Cluster.entryOf_of_update hlib hs hg (List.mem_of_getElem? hp) hentry
      exact h.later r hr p c hp hold
    · exact le_trans h.invoked (Nat.le_of_not_lt hlt)
  · intro status body houtcome
    rcases h.answered status body houtcome with ⟨r, hr, answer, hresponse, hanswer⟩
    exact ⟨r, hr, answer, hresponse, fun hsure => answered_update hg (hanswer hsure)⟩

/-- The HTTP request of the operation arrives. -/
theorem Invocation.Tracked.arrived {o : Invocation} {entries : List Command}
    (hlib : lib.Lawful decided) (hs : (Cluster.agreeing lib decided cfg t).Reachable s)
    (hg : (Cluster.agreeing lib decided cfg t).guard (State.arrival o entries) s)
    (h : o.Tracked cfg s) (hopen : o.outcome ≠ some (.exception .connect)) :
    (o.arrived (requestCount s o.endpoint)).Tracked cfg
      ((Cluster.agreeing lib decided cfg t).update (State.arrival o entries) s) := by
  have hstep := h.update hlib hs hg
  have hcoherent := Cluster.coherent_agreeing hlib hs
  have hguard : s.guard lib cfg t (.shim o.endpoint (.invoke o.op.request)) := hg.1
  rcases Cluster.endpoints_cases hguard o.endpoint with ⟨l, sh, hl, he, _, heq⟩ |
    ⟨_, _, hl, _, _⟩ | ⟨hne, _⟩
  · rcases Cluster.Action.shim.inj hl with ⟨_, hl'⟩
    rw [← hl'] at heq
    have hcount : requestCount s o.endpoint = sh.requests.length := by
      rw [requestCount, he]
    rw [hcount]
    refine ⟨hstep.generated, ?_, hstep.invoked, ?_, fun hout => absurd hout hopen, ?_⟩
    · intro r hr
      rcases List.mem_append.mp hr with hold | hlast
      · exact hstep.requested r hold
      · refine ⟨_, ⟨o.op.request, .enqueuing, .empty⟩, heq, ?_, rfl⟩
        rw [List.mem_singleton.mp hlast]
        exact List.getElem?_concat_length
    · intro r hr p c hp hentry
      rcases List.mem_append.mp hr with hold | hlast
      · exact hstep.later r hold p c hp hentry
      · -- a request that just arrived has issued nothing
        rcases hentry.2 with ⟨sh', he', hissued⟩
        have hsame : sh.invoke o.op.request = sh' := Endpoint.shim.inj (heq.symm.trans he')
        rw [← hsame] at hissued
        rcases ((hcoherent.endpoints o.endpoint).shim sh he).2.issued c.id r c.kvCmd hissued with
          ⟨q, hq, _⟩
        have hlt := (List.getElem?_eq_some_iff.mp hq).1
        rw [List.mem_singleton.mp hlast] at hlt
        exact absurd hlt (lt_irrefl _)
    · intro status body houtcome
      rcases hstep.answered status body houtcome with ⟨r, hr, hanswer⟩
      exact ⟨r, List.mem_append_left _ hr, hanswer⟩
  · cases hl
  · exact absurd rfl (hne _)

/-- The entry of a request that was answered has been decided by a server. -/
theorem lt_decidedCount_of_respond (hlib : lib.Lawful decided)
    (hs : (Cluster.agreeing lib decided cfg t).Reachable s) {ticket : Ticket} {answer : Status}
    (hanswer : .respond ticket answer ∈ s.history) (hsure : answer ≠ .internalServerError) {p : ℕ}
    {c : Command} (hp : s.log[p]? = some c) (hentry : EntryOf cfg s ticket c) :
    p < decidedCount decided cfg s := by
  have hcoherent := Cluster.coherent_agreeing hlib hs
  have hagreed := Cluster.agreed_reachable hs
  have hrecorded := Cluster.recorded_reachable hlib (Machine.reachable_of_restrict hs)
  have hhome := hcoherent.linked.home _ _ hentry.1.client
  have happlied := hcoherent.applied_of_respond hlib hagreed hrecorded hanswer hsure hentry
  rcases List.mem_iff_getElem?.mp happlied with ⟨j, hj⟩
  have hprefix := hcoherent.applied_prefix_log hlib hagreed hhome
  -- an entry is at one position of the log
  have hposition : j = p := by
    have hlog := (Cluster.prefix_agrees hprefix hj).1
    have hlt := (List.getElem?_eq_some_iff.mp hlog).1
    exact (List.getElem?_inj hlt (hcoherent.nodup_log hlib hagreed)).mp (hlog.trans hp.symm)
  have hlt : j < (s.servers (cfg.activeServer ticket.1)).applied.length :=
    (List.getElem?_eq_some_iff.mp hj).1
  have hdecided : (s.servers (cfg.activeServer ticket.1)).applied.length ≤
      (decided (s.servers (cfg.activeServer ticket.1)).omnipaxos).length := by
    rw [(hcoherent.sound hlib _).refines.applied]
    exact (List.take_prefix _ _).length_le
  rw [← hposition]
  exact lt_of_lt_of_le hlt (le_trans hdecided (le_decidedCount s hhome))

/-- The operation is completed. -/
theorem Invocation.Tracked.completed {o : Invocation} {outcome : HttpOutcome}
    (hlib : lib.Lawful decided) (hs : (Cluster.agreeing lib decided cfg t).Reachable s)
    (h : o.Tracked cfg s) (hpossible : o.Possible s outcome) :
    (o.completed outcome (decidedCount decided cfg s)).Tracked cfg s := by
  refine ⟨h.generated, h.requested, h.invoked, h.later, ?_, ?_⟩
  · intro houtcome
    rw [Option.some.inj houtcome] at hpossible
    exact hpossible
  · intro status body houtcome
    rw [Option.some.inj houtcome] at hpossible
    rcases hpossible with ⟨r, hr, answer, hanswer, hresponse⟩
    refine ⟨r, hr, answer, hresponse, ?_⟩
    intro hsure
    have hcoherent := Cluster.coherent_agreeing hlib hs
    have hrecorded := Cluster.recorded_reachable hlib (Machine.reachable_of_restrict hs)
    rcases hcoherent.entry_of_respond hlib (Cluster.agreed_reachable hs) hrecorded
      (mem_answers.mp hanswer) hsure with ⟨p, c, op, hp, hentry, hinvoke, hop, hcode⟩
    rcases hrecorded.invoked _ _ op hinvoke with ⟨sh, q, he, hq, hqop⟩
    rcases h.requested r hr with ⟨sh', q', he', hq', hop'⟩
    have hsh : sh = sh' := Endpoint.shim.inj (he.symm.trans he')
    rw [← hsh] at hq'
    have hsame : op = o.op.request := by
      rw [← hqop, ← hop', Option.some.inj (hq.symm.trans hq')]
    rw [hsame] at hop hcode
    have hbound := lt_decidedCount_of_respond hlib hs (mem_answers.mp hanswer) hsure hp hentry
    exact ⟨p, c, hbound, hp, hentry, hop, hcode⟩

/-- Where the HTTP request arrives there is one request more. -/
theorem requests_arrival {o : Invocation} {entries : List Command}
    (hg : (Cluster.agreeing lib decided cfg t).guard (State.arrival o entries) s)
    {e : EndpointId} {sh' : Shim}
    (he' : ((Cluster.agreeing lib decided cfg t).update (State.arrival o entries) s).endpoints e =
      .shim sh') : ∃ sh, s.endpoints e = .shim sh ∧
        sh'.requests.length = sh.requests.length + if e = o.endpoint then 1 else 0 := by
  have hguard : s.guard lib cfg t (.shim o.endpoint (.invoke o.op.request)) := hg.1
  rcases Cluster.endpoints_cases hguard e with ⟨l, sh, hl, he, _, heq⟩ | ⟨_, _, hl, _, _⟩ |
    ⟨hne, n, heq⟩
  · rcases Cluster.Action.shim.inj hl with ⟨hendpoint, hl'⟩
    refine ⟨sh, he, ?_⟩
    rw [← Endpoint.shim.inj (heq.symm.trans he'), ← hl', Shim.length_requests_update,
      if_pos hendpoint.symm]
  · cases hl
  · rcases Cluster.shim_of_withNetwork (heq.symm.trans he') with ⟨sh, he, hsame⟩
    have hother : e ≠ o.endpoint := by
      intro hendpoint
      exact hne (.invoke o.op.request) (by rw [hendpoint])
    refine ⟨sh, he, ?_⟩
    rw [hsame, if_neg hother]
    rfl

end

/-! ## The invariant of a test -/

theorem getElem?_set_eq_some {β : Type} {l : List β} {i j : ℕ} {a x : β}
    (h : (l.set i a)[j]? = some x) : i = j ∧ x = a ∨ i ≠ j ∧ l[j]? = some x := by
  rw [List.getElem?_set] at h
  split at h
  · next heq =>
      left
      split at h
      · exact ⟨heq, (Option.some.inj h).symm⟩
      · cases h
  · next hne => exact .inr ⟨hne, h⟩

theorem getElem?_set_of_eq_some {β : Type} {l : List β} {i : ℕ} {a x : β} (h : l[i]? = some x) :
    (l.set i a)[i]? = some a :=
  List.getElem?_set_self (List.getElem?_eq_some_iff.mp h).1

/-- What is known of the operations of a test and of the requests of its shims. -/
structure Sound (cfg : Cluster.Config) (s : State Ω M) : Prop where
  tracked : ∀ (i : ℕ) (o : Invocation), s.ops[i]? = some o → o.Tracked cfg s.cluster
  covered : Covered s

variable {s : State Ω M}

/-- A new operation has no request yet. -/
theorem Sound.invoke (h : Sound cfg s) (e : EndpointId) {op : Op} (hop : op.Generated) :
    Sound cfg ((jepsen lib decided cfg t).update (.invoke e op) s) := by
  change Sound cfg ⟨s.cluster, s.ops ++ [⟨op, e, [], s.cluster.log.length, none, 0⟩]⟩
  refine ⟨?_, ?_, ?_⟩
  · intro i o ho
    rcases getElem?_concat_eq_some.mp ho with hold | ⟨_, hnew⟩
    · exact h.tracked i o hold
    · rw [← hnew]
      refine ⟨hop, ?_, le_refl _, ?_, ?_, ?_⟩
      · intro r hr
        cases hr
      · intro r hr
        cases hr
      · intro hout
        cases hout
      · intro status body hout
        cases hout
  · intro i j o o' r ho ho' hendpoint hr hr'
    rcases getElem?_concat_eq_some.mp ho with hold | ⟨_, hnew⟩
    · rcases getElem?_concat_eq_some.mp ho' with hold' | ⟨_, hnew'⟩
      · exact h.covered.distinct i j o o' r hold hold' hendpoint hr hr'
      · rw [← hnew'] at hr'
        cases hr'
    · rw [← hnew] at hr
      cases hr
  · intro f sh r hf hr
    rcases h.covered.covers f sh r hf hr with ⟨i, o, ho, hrest⟩
    exact ⟨i, o, getElem?_concat_eq_some.mpr (.inl ho), hrest⟩

/-- A step of the cluster that is no HTTP request keeps what is known. -/
theorem Sound.cluster (h : Sound cfg s) (hlib : lib.Lawful decided)
    (hs : (Cluster.agreeing lib decided cfg t).Reachable s.cluster) {l : Cluster.Label}
    (hg : (Cluster.agreeing lib decided cfg t).guard l s.cluster)
    (hl : isHttpRequest l.action = false) :
    Sound cfg ((jepsen lib decided cfg t).update (.cluster l) s) := by
  refine ⟨?_, h.covered.distinct, ?_⟩
  · intro i o ho
    exact (h.tracked i o ho).update hlib hs hg
  · intro e sh' r he hr
    rcases requests_of_act hg.1 hl he with ⟨sh, hold, hlength⟩
    exact h.covered.covers e sh r hold (hlength ▸ hr)

/-- The client returns, with an outcome that is possible. -/
theorem Sound.complete (h : Sound cfg s) (hlib : lib.Lawful decided)
    (hs : (Cluster.agreeing lib decided cfg t).Reachable s.cluster) {i : ℕ} {o : Invocation}
    (ho : s.ops[i]? = some o) {outcome : HttpOutcome} (hpossible : o.Possible s.cluster outcome) :
    Sound cfg ((jepsen lib decided cfg t).update (.complete i outcome) s) := by
  rw [update_complete ho]
  -- a completion changes neither endpoints nor requests
  have hdone : ∀ {j : ℕ} {o' : Invocation},
      (s.ops.set i (o.completed outcome (decidedCount decided cfg s.cluster)))[j]? = some o' →
      ∃ o₀, s.ops[j]? = some o₀ ∧ o'.endpoint = o₀.endpoint ∧ o'.requests = o₀.requests := by
    intro j o' ho'
    rcases getElem?_set_eq_some ho' with ⟨heq, hnew⟩ | ⟨_, hold⟩
    · rw [hnew]
      exact ⟨o, heq ▸ ho, rfl, rfl⟩
    · exact ⟨o', hold, rfl, rfl⟩
  refine ⟨?_, ?_, ?_⟩
  · intro j o' ho'
    rcases getElem?_set_eq_some ho' with ⟨_, hnew⟩ | ⟨_, hold⟩
    · rw [hnew]
      exact (h.tracked i o ho).completed hlib hs hpossible
    · exact h.tracked j o' hold
  · intro j k o₁ o₂ r h₁ h₂ hendpoint hr₁ hr₂
    rcases hdone h₁ with ⟨o₁', h₁', he₁, hreq₁⟩
    rcases hdone h₂ with ⟨o₂', h₂', he₂, hreq₂⟩
    rw [he₁, he₂] at hendpoint
    exact h.covered.distinct j k o₁' o₂' r h₁' h₂' hendpoint (hreq₁ ▸ hr₁) (hreq₂ ▸ hr₂)
  · intro e sh r he hr
    rcases h.covered.covers e sh r he hr with ⟨j, o', ho', hendpoint, hr'⟩
    by_cases hj : i = j
    · rw [← hj, ho, Option.some.injEq] at ho'
      rw [← ho'] at hendpoint hr'
      exact ⟨i, _, getElem?_set_of_eq_some ho, hendpoint, hr'⟩
    · exact ⟨j, o', by rw [List.getElem?_set_ne hj, ho'], hendpoint, hr'⟩

/-- The request of an operation arrives, and is its own. -/
theorem Sound.deliver (h : Sound cfg s) (hlib : lib.Lawful decided)
    (hs : (Cluster.agreeing lib decided cfg t).Reachable s.cluster) {i : ℕ} {o : Invocation}
    (ho : s.ops[i]? = some o) {entries : List Command}
    (hopen : o.outcome ≠ some (.exception .connect))
    (hg : (Cluster.agreeing lib decided cfg t).guard (State.arrival o entries) s.cluster) :
    Sound cfg ((jepsen lib decided cfg t).update (.deliver i entries) s) := by
  rw [update_deliver ho]
  -- no operation has the new request yet
  have hfresh : ∀ (j : ℕ) (o' : Invocation), s.ops[j]? = some o' → o'.endpoint = o.endpoint →
      requestCount s.cluster o.endpoint ∉ o'.requests := by
    intro j o' ho' hendpoint hmem
    rcases (h.tracked j o' ho').requested _ hmem with ⟨sh, q, he, hq, _⟩
    rw [hendpoint] at he
    have hlt := (List.getElem?_eq_some_iff.mp hq).1
    rw [requestCount, he] at hlt
    exact absurd hlt (lt_irrefl _)
  refine ⟨?_, ?_, ?_⟩
  · intro j o' ho'
    rcases getElem?_set_eq_some ho' with ⟨_, hnew⟩ | ⟨_, hold⟩
    · rw [hnew]
      exact (h.tracked i o ho).arrived hlib hs hg hopen
    · exact (h.tracked j o' hold).update hlib hs hg
  -- four cases: which of the two is the operation whose request arrives
  · intro j k o₁ o₂ r h₁ h₂ hendpoint hr₁ hr₂
    rcases getElem?_set_eq_some h₁ with ⟨heq₁, hnew₁⟩ | ⟨hne₁, hold₁⟩
    · rcases getElem?_set_eq_some h₂ with ⟨heq₂, _⟩ | ⟨_, hold₂⟩
      · rw [← heq₁, ← heq₂]
      · rw [hnew₁] at hendpoint hr₁
        rcases List.mem_append.mp hr₁ with hr | hr
        · rw [← heq₁]
          exact h.covered.distinct i k o o₂ r ho hold₂ hendpoint hr hr₂
        · rw [List.mem_singleton.mp hr] at hr₂
          exact absurd hr₂ (hfresh k o₂ hold₂ hendpoint.symm)
    · rcases getElem?_set_eq_some h₂ with ⟨heq₂, hnew₂⟩ | ⟨_, hold₂⟩
      · rw [hnew₂] at hendpoint hr₂
        rcases List.mem_append.mp hr₂ with hr | hr
        · rw [← heq₂]
          exact h.covered.distinct j i o₁ o r hold₁ ho hendpoint hr₁ hr
        · rw [List.mem_singleton.mp hr] at hr₁
          exact absurd hr₁ (hfresh j o₁ hold₁ hendpoint)
      · exact h.covered.distinct j k o₁ o₂ r hold₁ hold₂ hendpoint hr₁ hr₂
  · intro e sh' r he' hr
    rcases requests_arrival hg he' with ⟨sh, he, hlength⟩
    rw [hlength] at hr
    by_cases hlt : r < sh.requests.length
    · rcases h.covered.covers e sh r he hlt with ⟨j, o', ho', hendpoint, hr'⟩
      by_cases hj : i = j
      · rw [← hj, ho, Option.some.injEq] at ho'
        rw [← ho'] at hendpoint hr'
        exact ⟨i, _, getElem?_set_of_eq_some ho, hendpoint, List.mem_append_left _ hr'⟩
      · exact ⟨j, o', by rw [List.getElem?_set_ne hj, ho'], hendpoint, hr'⟩
    · -- the request that just arrived
      split at hr
      · next hendpoint =>
          have hnew : r = requestCount s.cluster o.endpoint := by
            rw [← hendpoint, requestCount, he]
            exact le_antisymm (Nat.le_of_lt_succ hr) (Nat.le_of_not_lt hlt)
          refine ⟨i, _, getElem?_set_of_eq_some ho, hendpoint.symm, ?_⟩
          exact List.mem_append_right _ (List.mem_singleton.mpr hnew)
      · exact absurd hr hlt

/-- In every run of a test all operations are tracked. -/
theorem sound_reachable (hlib : lib.Lawful decided) :
    ∀ s, (jepsen lib decided cfg t).Reachable s → Sound cfg s := by
  refine (jepsen lib decided cfg t).invariant (Sound cfg) ?_ ?_
  · intro s hs
    rcases hs with ⟨hcluster, hops⟩
    rcases hcluster with ⟨ω, _, hnew⟩
    have hnone : ∀ (i : ℕ) (o : Invocation), s.ops[i]? ≠ some o := by
      intro i o ho
      rw [hops] at ho
      cases ho
    refine ⟨fun i o ho => absurd ho (hnone i o), fun i _ o _ _ ho => absurd ho (hnone i o), ?_⟩
    intro e sh r he hr
    rw [hnew] at he
    cases hkind : cfg.kind e with
    | shim =>
        simp only [Cluster.State.new, hkind, Endpoint.new] at he
        rw [← Endpoint.shim.inj he] at hr
        exact absurd hr (Nat.not_lt_zero r)
    | bench intervals =>
        simp only [Cluster.State.new, hkind, Endpoint.new] at he
        cases he
  · intro l s hs hg h
    have hcluster := cluster_reachable hs
    cases l with
    | invoke e op => exact h.invoke e hg.2
    | deliver i entries =>
        rcases hg with ⟨o, ho, hopen, hguard⟩
        exact h.deliver hlib hcluster ho hopen hguard
    | complete i outcome =>
        rcases hg with ⟨o, ho, _, hpossible⟩
        exact h.complete hlib hcluster ho hpossible
    | cluster l => exact h.cluster hlib hcluster hg.2 hg.1

end Jepsen

end OmnipaxosKv
