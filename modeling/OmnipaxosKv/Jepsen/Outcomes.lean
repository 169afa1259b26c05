import OmnipaxosKv.Jepsen.Soundness
import OmnipaxosKv.Snapshot

/-! # The types of the operations are sound

An operation that is typed `:ok` took effect between its invocation and its completion, with
the result that it reports, and one that is typed `:fail` takes no effect, then or later.
-/

namespace OmnipaxosKv

/-- What the map holds was put. -/
theorem Database.exists_put_of_replay {log : List Command} {key value : String}
    (h : (Database.replay log).values key = some value) :
    ∃ c ∈ log, c.kvCmd = .put key value := by
  -- by the last command, which decides what its own key holds
  induction log using List.reverseRecOn with
  | nil => cases h
  | append_singleton log c ih =>
      have hearlier : (Database.replay log).values key = some value →
          ∃ c' ∈ log ++ [c], c'.kvCmd = .put key value := by
        intro hold
        rcases ih hold with ⟨c', hc', hput⟩
        exact ⟨c', List.mem_append_left _ hc', hput⟩
      have hstep : Database.replay (log ++ [c]) = ((Database.replay log).handleCommand c.kvCmd).1 :=
        List.foldl_concat ..
      rw [hstep] at h
      cases hc : c.kvCmd with
      | put key' value' =>
          rw [hc] at h
          change ((Database.replay log).db.insert key' value').lookup key = some value at h
          rw [lookup_insert_ite] at h
          split at h
          · next hkey =>
              refine ⟨c, List.mem_append_right _ (List.mem_singleton.mpr rfl), ?_⟩
              rw [hc, hkey, Option.some.inj h]
          · exact hearlier h
      | delete key' =>
          rw [hc] at h
          change ((Database.replay log).db.erase key').lookup key = some value at h
          rw [lookup_erase_ite] at h
          split at h
          · cases h
          · exact hearlier h
      | get key' =>
          rw [hc] at h
          exact hearlier h

namespace Jepsen

open Server Client Linearizability
open Cluster (EndpointId EntryOf Submitted Coherent twoNodes twoNodesStart bootActions requestRun)

variable {Ω M : Type} {lib : OmniPaxos Ω M} {decided : Ω → List Command} {cfg : Cluster.Config}
  {t : Transport}

/-! ## The texts that are written -/

/-- The value of the command, if it has one, is the text of an integer. -/
def Decimal : KVCommand → Prop
  | .put _ value => ∃ w : ℤ, value = toString w
  | .delete _ | .get _ => True

theorem decimal_command (id : CommandId) (isWrite : Bool) :
    Decimal (Benchmark.Client.command id isWrite) := by
  cases isWrite with
  | true => exact ⟨id, rfl⟩
  | false => trivial

/-- A write of the test writes the text of its value. -/
theorem decimal_request {op : Op} (h : op.Generated) : Decimal op.request.kvCommand := by
  unfold Op.request
  cases hf : op.f with
  | read => trivial
  | write =>
      rcases Option.isSome_iff_exists.mp (h.2 hf) with ⟨w, hw⟩
      dsimp only
      rw [hw]
      exact ⟨w, rfl⟩

/-- A benchmark client issues its own commands only. -/
theorem bench_commands_update (activeServer : NodeId) (l : Benchmark.ClientStep)
    (c : Benchmark.Client) : (c.update activeServer l).commands = c.commands ∨
      ∃ id isWrite, (c.update activeServer l).commands =
        c.commands ++ [Benchmark.Client.command id isWrite] := by
  cases l with
  | requestTick isWrite => exact .inr ⟨c.nextRequestId, isWrite, rfl⟩
  | recvStart =>
      left
      simp only [Benchmark.Client.update, Benchmark.Client.recvStart]
      repeat' split
      all_goals rfl
  | recvServer now =>
      left
      have hmsg : ∀ (msg : ServerMessage) (c : Benchmark.Client),
          (Benchmark.Client.handleServerMessage now msg c).commands = c.commands := by
        intro msg c
        unfold Benchmark.Client.handleServerMessage
        repeat' split
        all_goals rfl
      have hbreak : ∀ c : Benchmark.Client, c.breakIfFinished.commands = c.commands := by
        intro c
        unfold Benchmark.Client.breakIfFinished
        split
        · rfl
        · rfl
      simp only [Benchmark.Client.update, Benchmark.Client.recvServer]
      split
      · rfl
      · split
        · rw [hbreak, hmsg]
        · rw [hmsg]
  | resolveSend now =>
      left
      simp only [Benchmark.Client.update, Benchmark.Client.resolveSend]
      repeat' split
      all_goals rfl
  | intervalTick =>
      left
      simp only [Benchmark.Client.update, Benchmark.Client.intervalTick,
        Benchmark.Client.breakIfFinished]
      repeat' split
      all_goals rfl
  | _ => exact .inl rfl

/-- The benchmark clients beside the test write numbers too. -/
theorem bench_decimal {s : Cluster.State Ω M}
    (hr : (Cluster.cluster lib decided cfg t).Reachable s) :
    ∀ e c, s.endpoints e = .bench c → ∀ kv ∈ c.commands, Decimal kv := by
  refine (Cluster.cluster lib decided cfg t).invariant
    (fun s => ∀ e c, s.endpoints e = .bench c → ∀ kv ∈ c.commands, Decimal kv) ?_ ?_ s hr
  · intro s hs e c he kv hkv
    rcases hs with ⟨ω, _, rfl⟩
    cases hkind : cfg.kind e with
    | shim =>
        simp only [Cluster.State.new, hkind, Endpoint.new] at he
        cases he
    | bench intervals =>
        simp only [Cluster.State.new, hkind, Endpoint.new] at he
        rw [← Endpoint.bench.inj he] at hkv
        cases hkv
  -- the endpoint is a shim, a benchmark client that took a step, or got a message
  · intro l s _ hg h e c' he' kv hkv
    have he'' : (s.act lib cfg l.action).endpoints e = .bench c' := he'
    rcases Cluster.endpoints_cases hg e with ⟨_, _, _, _, _, heq⟩ | ⟨l', c, _, he, heq⟩ |
      ⟨_, n, heq⟩
    · cases heq.symm.trans he''
    · have hsame := Endpoint.bench.inj (heq.symm.trans he'')
      rw [← hsame] at hkv
      rcases bench_commands_update (cfg.activeServer e) l' c with hold | ⟨id, isWrite, hnew⟩
      · rw [hold] at hkv
        exact h e c he kv hkv
      · rw [hnew] at hkv
        rcases List.mem_append.mp hkv with hmem | hlast
        · exact h e c he kv hmem
        · rw [List.mem_singleton.mp hlast]
          exact decimal_command id isWrite
    · cases he : s.endpoints e with
      | shim sh =>
          rw [he] at heq
          cases heq.symm.trans he''
      | bench c =>
          rw [he] at heq
          have hsame := Endpoint.bench.inj (heq.symm.trans he'')
          rw [← hsame] at hkv
          exact h e c he kv hkv

/-! ## What the types say -/

/-- The command was issued for a request of the operation. -/
def Invocation.CommandOf (cfg : Cluster.Config) (s : Cluster.State Ω M) (o : Invocation)
    (c : Command) : Prop :=
  ∃ r ∈ o.requests, EntryOf cfg s (o.endpoint, r) c

/-- The operation took effect at position `p` of the log, between its invocation and its
completion. -/
structure Invocation.EffectAt (cfg : Cluster.Config) (s : Cluster.State Ω M) (o : Invocation)
    (p : ℕ) (c : Command) : Prop where
  invoked : o.invokedAt ≤ p
  completed : p < o.completedAt
  logged : s.log[p]? = some c
  command : o.CommandOf cfg s c

/-- The command is in the log, or a server has passed it to `append`, without which no
server gets it into its log. -/
def Logged (s : Cluster.State Ω M) (c : Command) : Prop :=
  c ∈ s.log ∨ ∃ n, c ∈ (s.servers n).appended

/-- The command was submitted by a benchmark client, or for another operation than `i`. -/
def OfOther (cfg : Cluster.Config) (s : State Ω M) (i : ℕ) (c : Command) : Prop :=
  ∃ e, Submitted cfg s.cluster e c ∧ ((∃ b, s.cluster.endpoints e = .bench b) ∨
    ∃ (j : ℕ) (o : Invocation), j ≠ i ∧ s.ops[j]? = some o ∧ o.CommandOf cfg s.cluster c)

/-- What the type of operation `i` promises. -/
def Justified (cfg : Cluster.Config) (s : State Ω M) (i : ℕ) (o : Invocation)
    (result : Completion) : Prop :=
  match result.type, o.op.f with
  | .ok, .write => ∃ p c v, o.EffectAt cfg s.cluster p c ∧ o.op.value = some v ∧
      c.kvCmd = .put o.op.key (toString v)
  | .ok, .read => ∃ p c, o.EffectAt cfg s.cluster p c ∧ c.kvCmd = .get o.op.key ∧
      (Database.replay (s.cluster.log.take p)).values o.op.key = result.value.map toString
  | .fail, _ => ∀ c, Logged s.cluster c → ¬ o.CommandOf cfg s.cluster c ∧ OfOther cfg s i c
  | .info, _ => True

/-! ## Commands and operations -/

section

variable {s : State Ω M}

/-- A command of a shim was issued for an operation. -/
theorem Sound.exists_commandOf (h : Sound cfg s) (hcoherent : Coherent lib cfg t s.cluster)
    {e : EndpointId} {c : Command} {sh : Shim} (hc : Submitted cfg s.cluster e c)
    (he : s.cluster.endpoints e = .shim sh) : ∃ (j : ℕ) (o : Invocation), s.ops[j]? = some o ∧
      o.CommandOf cfg s.cluster c ∧ o.op.request.kvCommand = c.kvCmd := by
  rcases hc.entryOf he with ⟨r, hentry⟩
  rcases hcoherent.request_of_entry hentry with ⟨sh', q, he', hq, hop, _⟩
  have hsh : sh' = sh := Endpoint.shim.inj (he'.symm.trans he)
  rw [hsh] at hq
  have hlt : r < sh.requests.length := (List.getElem?_eq_some_iff.mp hq).1
  rcases h.covered.covers e sh r he hlt with ⟨j, o, ho, hendpoint, hr⟩
  rcases (h.tracked j o ho).requested r hr with ⟨sh'', q', he'', hq', hop'⟩
  rw [hendpoint] at he''
  have hsh' : sh'' = sh := Endpoint.shim.inj (he''.symm.trans he)
  rw [hsh'] at hq'
  have hsame : q = q' := Option.some.inj (hq.symm.trans hq')
  refine ⟨j, o, ho, ⟨r, hr, ?_⟩, ?_⟩
  · rw [hendpoint]
    exact hentry
  · rw [← hop', ← hsame]
    exact hop

/-- All that is in the log is the text of a number. -/
theorem Sound.decimal_of_mem_log (h : Sound cfg s) (hlib : lib.Lawful decided)
    (hs : (Cluster.agreeing lib decided cfg t).Reachable s.cluster) {c : Command}
    (hc : c ∈ s.cluster.log) : Decimal c.kvCmd := by
  have hcoherent := Cluster.coherent_agreeing hlib hs
  rcases hcoherent.submitted_of_mem_log hlib (Cluster.agreed_reachable hs) hc with ⟨e, hsubmitted⟩
  cases he : s.cluster.endpoints e with
  | shim sh =>
      rcases h.exists_commandOf hcoherent hsubmitted he with ⟨j, o, ho, _, hop⟩
      rw [← hop]
      exact decimal_request (h.tracked j o ho).generated
  | bench b =>
      have hcommand := hsubmitted.command
      rw [he] at hcommand
      have hissued : c.kvCmd ∈ b.commands := List.mem_of_getElem? hcommand
      exact bench_decimal (Machine.reachable_of_restrict hs) e b he c.kvCmd hissued

/-! ## Answered operations -/

/-- An operation that was answered took effect, and the answer is that of the map. -/
theorem Sound.effect (h : Sound cfg s) {i : ℕ} {o : Invocation} (ho : s.ops[i]? = some o)
    {status : ℕ} {body : String} (houtcome : o.outcome = some (.response status body))
    (hstatus : status ≠ 500) : ∃ p c, o.EffectAt cfg s.cluster p c ∧
      c.kvCmd = o.op.request.kvCommand ∧ response (Cluster.kvMap.apply
        (Database.replay (s.cluster.log.take p)).values o.op.request).2 =
          .response status body := by
  have htracked := h.tracked i o ho
  rcases htracked.answered status body houtcome with ⟨r, hr, answer, hresponse, hanswered⟩
  -- 500 is the one status of a handler without an entry
  have hsure : answer ≠ .internalServerError := by
    intro heq
    rw [heq] at hresponse
    exact hstatus (HttpOutcome.response.inj hresponse).1.symm
  rcases hanswered hsure with ⟨p, c, hbound, hp, hentry, hop, hanswer⟩
  refine ⟨p, c, ⟨htracked.later r hr p c hp hentry, hbound, hp, r, hr, hentry⟩, hop.symm, ?_⟩
  rw [← hresponse, hanswer, ← hop, Cluster.status_replyTo]

/-- A `204` was sent for an entry of the log that writes the value. -/
theorem Sound.justified_write (h : Sound cfg s) {i : ℕ} {o : Invocation}
    (ho : s.ops[i]? = some o) (hf : o.op.f = .write) {body : String}
    (houtcome : o.outcome = some (.response 204 body)) :
    ∃ p c v, o.EffectAt cfg s.cluster p c ∧ o.op.value = some v ∧
      c.kvCmd = .put o.op.key (toString v) := by
  rcases h.effect ho houtcome (by decide) with ⟨p, c, heffect, hop, _⟩
  rcases Option.isSome_iff_exists.mp ((h.tracked i o ho).generated.2 hf) with ⟨v, hv⟩
  refine ⟨p, c, v, heffect, hv, ?_⟩
  rw [hop, Op.request, hf, hv]
  rfl

/-- The answer to a `GET` is what the map holds. -/
theorem response_get {values : String → Option String} {key : String} {status : ℕ} {body : String}
    (h : response (Cluster.kvMap.apply values (.get key)).2 = .response status body) :
    (status = 200 ∧ values key = some body) ∨ (status = 404 ∧ values key = none) := by
  cases hvalue : values key with
  | some value =>
      simp only [Cluster.kvMap, hvalue, response] at h
      rcases HttpOutcome.response.inj h with ⟨hstatus, hbody⟩
      left
      exact ⟨hstatus.symm, by rw [hbody]⟩
  | none =>
      simp only [Cluster.kvMap, hvalue, response] at h
      right
      exact ⟨(HttpOutcome.response.inj h).1.symm, rfl⟩

/-- The answer to a read was sent for an entry of the log, and tells what the store held there. -/
theorem Sound.justified_read (h : Sound cfg s) (hlib : lib.Lawful decided)
    (hs : (Cluster.agreeing lib decided cfg t).Reachable s.cluster) {i : ℕ} {o : Invocation}
    (ho : s.ops[i]? = some o) (hf : o.op.f = .read) {status : ℕ} {body : String}
    (houtcome : o.outcome = some (.response status body))
    (hsucceeds : o.op.Succeeds (.response status body)) :
    ∃ p c, o.EffectAt cfg s.cluster p c ∧ c.kvCmd = .get o.op.key ∧
      (Database.replay (s.cluster.log.take p)).values o.op.key =
        (o.op.invoke (.response status body)).value.map toString := by
  have hvalue := Op.value_of_read hf hsucceeds
  have hrequest : o.op.request = .get o.op.key := by rw [Op.request, hf]
  have hstatus : status ≠ 500 := by
    rcases hvalue with ⟨hok, _⟩ | ⟨hmissing, _⟩
    · omega
    · omega
  rcases h.effect ho houtcome hstatus with ⟨p, c, heffect, hop, hresponse⟩
  rw [hrequest] at hop hresponse
  refine ⟨p, c, heffect, hop, ?_⟩
  rcases response_get hresponse with ⟨hok, hholds⟩ | ⟨hmissing, hnone⟩
  · rcases hvalue with ⟨_, v, hparse, hresult⟩ | ⟨hmissing, _⟩
    · -- the text was written by a command of the log, so it is that of a number
      rcases Database.exists_put_of_replay hholds with ⟨c', hc', hput⟩
      have hdecimal := h.decimal_of_mem_log hlib hs (List.mem_of_mem_take hc')
      rw [hput] at hdecimal
      rcases hdecimal with ⟨w, hw⟩
      rw [hw] at hparse
      rw [hresult, hholds, hw, eq_of_parseLong_toString hparse]
      rfl
    · omega
  · rcases hvalue with ⟨hok, _⟩ | ⟨_, hresult⟩
    · omega
    · rw [hresult, hnone]
      rfl

/-! ## Refused operations -/

/-- A command that is in a log was submitted. -/
theorem Logged.submitted {s : Cluster.State Ω M} {c : Command} (h : Logged s c)
    (hlib : lib.Lawful decided) (hs : (Cluster.agreeing lib decided cfg t).Reachable s) :
    ∃ e, Submitted cfg s e c := by
  have hcoherent := Cluster.coherent_agreeing hlib hs
  rcases h with hlog | ⟨n, happended⟩
  · exact hcoherent.submitted_of_mem_log hlib (Cluster.agreed_reachable hs) hlog
  · exact (hcoherent.submitted_of_appended hlib happended).2

/-- After a refused connection no command of the operation is in the log. -/
theorem Sound.justified_fail (h : Sound cfg s) (hlib : lib.Lawful decided)
    (hs : (Cluster.agreeing lib decided cfg t).Reachable s.cluster) {i : ℕ} {o : Invocation}
    (ho : s.ops[i]? = some o) (houtcome : o.outcome = some (.exception .connect)) {c : Command}
    (hc : Logged s.cluster c) : ¬ o.CommandOf cfg s.cluster c ∧ OfOther cfg s i c := by
  have hnone := (h.tracked i o ho).refused houtcome
  have hnot : ¬ o.CommandOf cfg s.cluster c := by
    intro hcommand
    rcases hcommand with ⟨r, hr, _⟩
    rw [hnone] at hr
    cases hr
  refine ⟨hnot, ?_⟩
  rcases hc.submitted hlib hs with ⟨e, hsubmitted⟩
  refine ⟨e, hsubmitted, ?_⟩
  cases he : s.cluster.endpoints e with
  | bench b =>
      left
      exact ⟨b, rfl⟩
  | shim sh =>
      right
      have hcoherent := Cluster.coherent_agreeing hlib hs
      rcases h.exists_commandOf hcoherent hsubmitted he with ⟨j, o', ho', hcommand, _⟩
      refine ⟨j, o', ?_, ho', hcommand⟩
      intro hji
      rw [hji, ho, Option.some.injEq] at ho'
      rw [← ho'] at hcommand
      exact hnot hcommand

/-! ## Later -/

/-- An operation that is done stays as it is, but its HTTP request may still arrive. -/
theorem done_update {l : Label} (hg : (jepsen lib decided cfg t).guard l s) {i : ℕ}
    {o : Invocation} (ho : s.ops[i]? = some o) (hdone : o.outcome.isSome) :
    ∃ requests, ((jepsen lib decided cfg t).update l s).ops[i]? =
      some { o with requests := requests } := by
  have hsame : s.ops[i]? = some { o with requests := o.requests } := ho
  cases l with
  | invoke e op => exact ⟨o.requests, getElem?_concat_eq_some.mpr (.inl hsame)⟩
  | deliver j entries =>
      rcases hg with ⟨o', ho', _⟩
      rw [update_deliver ho']
      by_cases hj : j = i
      · rw [hj, ho, Option.mem_some] at ho'
        rw [hj, ← ho']
        exact ⟨_, getElem?_set_of_eq_some ho⟩
      · exact ⟨o.requests, by rw [List.getElem?_set_ne hj, hsame]⟩
  | complete j outcome =>
      rcases hg with ⟨o', ho', hopen, _⟩
      rw [update_complete ho']
      -- what is done is not completed again
      have hj : j ≠ i := by
        intro hj
        rw [hj, ho, Option.mem_some] at ho'
        rw [ho', hopen] at hdone
        cases hdone
      exact ⟨o.requests, by rw [List.getElem?_set_ne hj, hsame]⟩
  | cluster l => exact ⟨o.requests, hsame⟩

/-- In any later state it is done with the same result. -/
theorem done_after {later : List Label} (h : (jepsen lib decided cfg t).Valid s later) {i : ℕ}
    {o : Invocation} (ho : s.ops[i]? = some o) (hdone : o.outcome.isSome) :
    ∃ requests, ((jepsen lib decided cfg t).after s later).ops[i]? =
      some { o with requests := requests } := by
  refine (jepsen lib decided cfg t).after_invariant
    (fun s => ∃ requests, s.ops[i]? = some { o with requests := requests }) ⟨o.requests, ho⟩ h ?_
  intro l _ s hg hrequests
  rcases hrequests with ⟨requests, hold⟩
  have hnext := done_update hg hold hdone
  exact hnext

/-! ## All outcomes -/

/-- In every run each result is justified. -/
theorem justified_reachable (hlib : lib.Lawful decided) (hr : (jepsen lib decided cfg t).Reachable s)
    {i : ℕ} {o : Invocation} {result : Completion} (ho : s.ops[i]? = some o)
    (hresult : o.completion = some result) : Justified cfg s i o result := by
  have hsound := sound_reachable hlib s hr
  have hs := cluster_reachable hr
  rcases Option.map_eq_some_iff.mp hresult with ⟨outcome, houtcome, hinvoke⟩
  rw [Justified]
  cases htype : result.type with
  | info => trivial
  | fail =>
      rw [← hinvoke, Op.invoke_fail_iff] at htype
      rw [htype] at houtcome
      intro c hc
      exact hsound.justified_fail hlib hs ho houtcome hc
  -- only a status can be a success
  | ok =>
      rw [← hinvoke, Op.invoke_ok_iff] at htype
      cases outcome with
      | exception e => cases htype
      | response status body =>
          cases hf : o.op.f with
          | write =>
              have hstatus : status = 204 := by
                simp only [Op.Succeeds, hf] at htype
                exact htype
              rw [hstatus] at houtcome
              exact hsound.justified_write ho hf houtcome
          | read =>
              rw [← hinvoke]
              exact hsound.justified_read hlib hs ho hf houtcome htype

/-- The types of operations are sound, at their completion and ever after: one that is `:ok`
took effect in between with what it reports, one that is `:fail` has nothing in a log. -/
theorem outcomes_sound (lib : OmniPaxos Ω M) (decided : Ω → List Command)
    (hlib : lib.Lawful decided) (cfg : Cluster.Config) (t : Transport) :
    (∀ (op : Op) (outcome : HttpOutcome),
      ((op.invoke outcome).type = .ok ↔ op.Succeeds outcome) ∧
      ((op.invoke outcome).type = .fail ↔ outcome = .exception .connect) ∧
      ((op.invoke outcome).type = .info ↔
        ¬ op.Succeeds outcome ∧ outcome ≠ .exception .connect)) ∧
    ∀ s, (jepsen lib decided cfg t).Reachable s →
      ∀ (i : ℕ) (o : Invocation) (result : Completion), s.ops[i]? = some o →
        o.completion = some result → ∀ later, (jepsen lib decided cfg t).Valid s later →
          ∃ requests, ((jepsen lib decided cfg t).after s later).ops[i]? =
              some { o with requests := requests } ∧
            Justified cfg ((jepsen lib decided cfg t).after s later) i
              { o with requests := requests } result := by
  constructor
  · intro op outcome
    exact ⟨Op.invoke_ok_iff, Op.invoke_fail_iff, Op.invoke_info_iff⟩
  · intro s hr i o result ho hresult later hlater
    have hdone : o.outcome.isSome := by
      rcases Option.map_eq_some_iff.mp hresult with ⟨outcome, houtcome, _⟩
      rw [houtcome]
      rfl
    rcases done_after hlater ho hdone with ⟨requests, ho'⟩
    have hreached := (jepsen lib decided cfg t).reachable_after later hr hlater
    exact ⟨requests, ho', justified_reachable hlib hreached ho' hresult⟩

end

/-! ## A write, a read and a refused read -/

def writeSeven : Op := ⟨.write, "k0", some 7⟩

def readKey : Op := ⟨.read, "k0", none⟩

/-- The HTTP request of operation `i` arrives as request `r` and is answered. -/
def served (i : ℕ) (r : RequestId) (op : Op) (answer : Status) : List Label :=
  .deliver i [] :: (requestRun r op.request).tail.map .cluster ++ [.complete i (response answer)]

def bootLabels : List Label := bootActions.map fun a => .cluster ⟨a, []⟩

def testRun : List Label :=
  [.invoke 0 writeSeven, .invoke 0 readKey, .invoke 0 readKey] ++ bootLabels ++
    served 0 0 writeSeven .noContent ++ served 1 1 readKey (.ok "7") ++
    [.complete 2 (.exception .connect)]

def twoNodesTest : Machine (State Relay (NodeId × Option Command)) Label :=
  jepsen relayLibrary Relay.log twoNodes smallTransport

instance (l : Label) (s : State Relay (NodeId × Option Command)) :
    Decidable (twoNodesTest.guard l s) :=
  decidableJepsen _ _ _ _ _ _

theorem testRun_valid : twoNodesTest.Valid ⟨twoNodesStart, []⟩ testRun := by decide +kernel

theorem testRun_completions :
    (twoNodesTest.after ⟨twoNodesStart, []⟩ testRun).ops.map Invocation.completion =
      [some ⟨⟨.write, "k0", some 7⟩, .ok, none⟩, some ⟨⟨.read, "k0", some 7⟩, .ok, none⟩,
        some ⟨⟨.read, "k0", none⟩, .fail, some .connectionRefused⟩] := by
  decide +kernel

/-- A write and a read of its value are `:ok`, a refused read is `:fail`. -/
theorem outcomes_sound_write_read :
    let s := twoNodesTest.after ⟨twoNodesStart, []⟩ testRun
    s.ops.map Invocation.completion =
      [some ⟨⟨.write, "k0", some 7⟩, .ok, none⟩, some ⟨⟨.read, "k0", some 7⟩, .ok, none⟩,
        some ⟨⟨.read, "k0", none⟩, .fail, some .connectionRefused⟩] ∧
    ∀ (i : ℕ) (o : Invocation) (result : Completion), s.ops[i]? = some o →
      o.completion = some result → Justified twoNodes s i o result := by
  have hstart : twoNodesTest.init ⟨twoNodesStart, []⟩ :=
    ⟨⟨fun n => ⟨n, [], []⟩, fun _ => rfl, rfl⟩, rfl⟩
  have hr := twoNodesTest.reachable_after testRun (.start hstart) testRun_valid
  refine ⟨testRun_completions, ?_⟩
  generalize twoNodesTest.after ⟨twoNodesStart, []⟩ testRun = s at hr
  intro i o result ho hresult
  have h := outcomes_sound relayLibrary Relay.log relayLibrary_lawful twoNodes smallTransport
  rcases h.2 s hr i o result ho hresult [] trivial with ⟨requests, ho', hjustified⟩
  have hsame : o = { o with requests := requests } := Option.some.inj (ho.symm.trans ho')
  rw [← hsame] at hjustified
  exact hjustified

end Jepsen

end OmnipaxosKv
