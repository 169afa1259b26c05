import OmnipaxosKv.Jepsen.Harness
import OmnipaxosKv.Jepsen.Outcomes

/-! # The history and the operations

Every invocation in the history of a test is that of one operation on the cluster, and its
completion reports the outcome of the same operation.
-/

namespace OmnipaxosKv

namespace Jepsen

open Server Client
open Cluster (EndpointId)

/-! ## The last entry of a process -/

section

variable {α : Type} {history : List (Operation α)} {p : Name} {j k : ℕ} {x : Operation α}

structure Last (history : List (Operation α)) (p : Name) (k : ℕ) : Prop where
  entry : ∃ x, history[k]? = some x ∧ x.process = p
  after : ∀ m x, k < m → history[m]? = some x → x.process ≠ p

theorem getElem?_of_append {y : Operation α} (h : history[k]? = some y) :
    (history ++ [x])[k]? = some y := by
  rw [List.getElem?_append_left (List.getElem?_eq_some_iff.mp h).1]
  exact h

theorem Last.lt (h : Last history p k) : k < history.length := by
  rcases h.entry with ⟨y, hy, _⟩
  exact (List.getElem?_eq_some_iff.mp hy).1

/-- The last entry of a process stays its last until it has another. -/
theorem Last.append_ne (h : Last history p k) (hne : x.process ≠ p) :
    Last (history ++ [x]) p k := by
  rcases h.entry with ⟨y, hy, hp⟩
  refine ⟨⟨y, getElem?_of_append hy, hp⟩, ?_⟩
  intro m z hm hz
  rcases getElem?_concat_eq_some.mp hz with hold | ⟨_, hnew⟩
  · exact h.after m z hm hold
  · rw [← hnew]
    exact hne

theorem last_append : Last (history ++ [x]) x.process history.length := by
  refine ⟨⟨x, List.getElem?_concat_length, rfl⟩, ?_⟩
  intro m y hm hy
  have hlt := (List.getElem?_eq_some_iff.mp hy).1
  rw [List.length_append, List.length_singleton] at hlt
  omega

/-- The next entry of the process is adjacent to its last. -/
theorem Last.adjacent (h : Last history p k) (hx : x.process = p) :
    Adjacent (history ++ [x]) p k history.length := by
  rcases h.entry with ⟨y, hy, hp⟩
  refine ⟨h.lt, ⟨y, getElem?_of_append hy, hp⟩, ⟨x, List.getElem?_concat_length, hx⟩, ?_⟩
  intro m z hkm hmj hz
  rw [List.getElem?_append_left hmj] at hz
  exact h.after m z hkm hz

/-- What is adjacent stays adjacent. -/
theorem Adjacent.append (h : Adjacent history p k j) : Adjacent (history ++ [x]) p k j := by
  rcases h.first with ⟨y, hy, hp⟩
  rcases h.second with ⟨z, hz, hp'⟩
  have hlt : j < history.length := (List.getElem?_eq_some_iff.mp hz).1
  refine ⟨h.lt, ⟨y, getElem?_of_append hy, hp⟩, ⟨z, getElem?_of_append hz, hp'⟩, ?_⟩
  intro m w hkm hmj hw
  rw [List.getElem?_append_left (Nat.lt_trans hmj hlt)] at hw
  exact h.between m w hkm hmj hw

end

/-! ## The invariant -/

/-- The operation has been written to the history, and nothing of its process since. -/
structure Invoked (history : List (Operation Payload)) (o : Operation Payload) (k : ℕ) : Prop where
  index : o.index = k
  client : o.OfClient
  entry : history[k]? = some o
  last : Last history o.process k

/-- Operation `i`, called `k`, is done, and `x` reports it. -/
structure Done (ops : List Invocation) (calls : List ℕ) (i k : ℕ) (o : Invocation)
    (x : Operation Payload) : Prop where
  op : ops[i]? = some o
  call : calls[i]? = some k
  completion : ∃ result, o.completion = some result ∧ x.type = result.type.operationType ∧
    x.fields = .kv result.toOp result.error

structure Linked {Ω M : Type} (s : Harness Ω M) : Prop where
  lengths : s.calls.length = s.test.ops.length
  nodup : s.calls.Nodup
  invoked : ∀ (i : ℕ) o k, s.test.ops[i]? = some o → s.calls[i]? = some k →
    ∃ x, s.run.history[k]? = some x ∧ x.OfClient ∧ x.fields = .kv o.op none
  working : ∀ thread, ∀ o ∈ (s.run.workers thread).ops,
    (goesInHistory o.type = false ∧ o.kv = none) ∨ ∃ k, Invoked s.run.history o k
  told : ∀ thread, ∀ o ∈ s.run.told thread, o.kv.isSome → o.index.toNat ∉ s.calls
  completing : ∀ x ∈ s.run.completions, goesInHistory x.type = false ∨
    ∃ i k o, Done s.test.ops s.calls i k o x ∧ Last s.run.history x.process k
  done : ∀ (j : ℕ) x, s.run.history[j]? = some x → x.type ≠ .invoke →
    ∃ i k o, Done s.test.ops s.calls i k o x ∧ Adjacent s.run.history x.process k j ∧
      ∀ (i' : ℕ) k' o', s.test.ops[i']? = some o' → s.calls[i']? = some k' → j < k' →
        o.completedAt ≤ o'.invokedAt
  past : ∀ (i : ℕ) o, s.test.ops[i]? = some o → o.outcome.isSome →
    o.completedAt ≤ s.test.cluster.log.length

variable {Ω M : Type} {lib : OmniPaxos Ω M} {decided : Ω → List Command} {cfg : Cluster.Config}
  {t : Transport} {nodes : List EndpointId} {n : ℕ} {s : Harness Ω M}

/-- An operation of a client is a read or a write of the workload. -/
theorem Operation.OfClient.kv {o : Operation Payload} (h : o.OfClient) :
    ∃ op : Op, op.OfTest ∧ o.kv = some op ∧ o.fields = .kv op none := by
  rcases h.fields with ⟨op, hop, hfields⟩
  refine ⟨op, hop, ?_, hfields⟩
  have hprocess := h.process
  rw [Operation.kv]
  cases hp : o.process with
  | int id =>
      rw [hfields]
  | keyword name =>
      rw [hp] at hprocess
      cases hprocess

theorem Operation.OfClient.goesInHistory {o : Operation Payload} (h : o.OfClient) :
    Jepsen.goesInHistory o.type = true := by
  rw [h.type]
  rfl

/-- A call is an entry of the history. -/
theorem Linked.call_lt (h : Linked s) {k : ℕ} (hk : k ∈ s.calls) : k < s.run.history.length := by
  rcases List.mem_iff_getElem?.mp hk with ⟨i, hi⟩
  have hlt := (List.getElem?_eq_some_iff.mp hi).1
  rw [h.lengths] at hlt
  rcases h.invoked i _ k (List.getElem?_eq_getElem hlt) hi with ⟨x, hx, _⟩
  exact (List.getElem?_eq_some_iff.mp hx).1

/-! ## A step of the cluster -/

/-- What happens without the workers leaves the operations as they are, up to their requests. -/
theorem ops_unprompted {s : State Ω M} {l : Label} (hun : s.Unprompted l)
    (hg : (jepsen lib decided cfg t).guard l s) :
    ((jepsen lib decided cfg t).update l s).ops.length = s.ops.length ∧
    s.cluster.log.length ≤ ((jepsen lib decided cfg t).update l s).cluster.log.length ∧
    ∀ (i : ℕ) o', ((jepsen lib decided cfg t).update l s).ops[i]? = some o' →
      ∃ o requests, s.ops[i]? = some o ∧ o' = { o with requests := requests } := by
  have hlog : ∀ (c : Cluster.State Ω M) (l : Cluster.Label),
      c.log.length ≤ ((Cluster.agreeing lib decided cfg t).update l c).log.length := by
    intro c l
    show c.log.length ≤ (c.log ++ l.decided).length
    rw [List.length_append]
    exact Nat.le_add_right _ _
  cases l with
  | invoke e op => cases hun
  | complete i outcome => cases hun
  | deliver j entries =>
      rcases hg with ⟨o, ho, _⟩
      rw [update_deliver ho]
      refine ⟨List.length_set, hlog _ _, ?_⟩
      intro i o' ho'
      rcases getElem?_set_eq_some ho' with ⟨heq, hnew⟩ | ⟨_, hold⟩
      · rw [← heq, hnew]
        exact ⟨o, _, ho, rfl⟩
      · exact ⟨o', o'.requests, hold, rfl⟩
  | cluster l => exact ⟨rfl, hlog _ _, fun i o' ho' => ⟨o', o'.requests, ho', rfl⟩⟩

/-- What happens in the cluster leaves the link to the history as it is. -/
theorem Linked.test (h : Linked s) {l : Label} (hun : s.test.Unprompted l)
    (hg : (jepsen lib decided cfg t).guard l s.test) :
    Linked ({ s with test := (jepsen lib decided cfg t).update l s.test } : Harness Ω M) := by
  rcases ops_unprompted hun hg with ⟨hlength, hlog, hback⟩
  have hforth : ∀ (i : ℕ) o, s.test.ops[i]? = some o → ∃ requests,
      ((jepsen lib decided cfg t).update l s.test).ops[i]? =
        some { o with requests := requests } := by
    intro i o ho
    have hlt := (List.getElem?_eq_some_iff.mp ho).1
    rw [← hlength] at hlt
    have ho' := List.getElem?_eq_getElem hlt
    rcases hback i _ ho' with ⟨o₀, requests, ho₀, heq⟩
    rw [Option.some.inj (ho₀.symm.trans ho)] at heq
    exact ⟨requests, ho'.trans (congrArg some heq)⟩
  have hdone : ∀ {i k : ℕ} {o : Invocation} {x : Operation Payload},
      Done s.test.ops s.calls i k o x → ∃ o', o'.completedAt = o.completedAt ∧
        Done ((jepsen lib decided cfg t).update l s.test).ops s.calls i k o' x := by
    intro i k o x hd
    rcases hforth i o hd.op with ⟨requests, ho'⟩
    exact ⟨{ o with requests := requests }, rfl, ho', hd.call, hd.completion⟩
  refine ⟨?_, h.nodup, ?_, h.working, h.told, ?_, ?_, ?_⟩
  · rw [hlength]
    exact h.lengths
  · intro i o' k ho' hk
    rcases hback i o' ho' with ⟨o, requests, ho, heq⟩
    rw [heq]
    exact h.invoked i o k ho hk
  · intro x hx
    rcases h.completing x hx with hsilent | ⟨i, k, o, hd, hlast⟩
    · exact .inl hsilent
    · rcases hdone hd with ⟨o', _, hd'⟩
      exact .inr ⟨i, k, o', hd', hlast⟩
  · intro j x hx htype
    rcases h.done j x hx htype with ⟨i, k, o, hd, hadjacent, horder⟩
    rcases hdone hd with ⟨o', hsame, hd'⟩
    refine ⟨i, k, o', hd', hadjacent, ?_⟩
    intro i' k' o₁ ho₁ hk' hlt
    rcases hback i' o₁ ho₁ with ⟨o₂, requests, ho₂, heq⟩
    rw [hsame, heq]
    exact horder i' k' o₂ ho₂ hk' hlt
  · intro i o' ho' hout
    rcases hback i o' ho' with ⟨o, requests, ho, heq⟩
    rw [heq] at hout ⊢
    exact Nat.le_trans (h.past i o ho hout) hlog

/-! ## A step of the interpreter -/

/-- Nothing is written, and nothing new is in the hands of the workers or on its way back but
messages and pauses. -/
theorem Linked.quiet (h : Linked s) {run : Interpreter (Gen Payload) Payload}
    (hhistory : run.history = s.run.history)
    (hops : ∀ thread, ∀ o ∈ (run.workers thread).ops,
      o ∈ (s.run.workers thread).ops ∨ (goesInHistory o.type = false ∧ o.kv = none))
    (htold : ∀ thread, ∀ o ∈ run.told thread, o.kv.isSome → o ∈ s.run.told thread)
    (hcompletions : ∀ x ∈ run.completions,
      x ∈ s.run.completions ∨ goesInHistory x.type = false) :
    Linked ({ s with run := run } : Harness Ω M) := by
  refine ⟨h.lengths, h.nodup, ?_, ?_, ?_, ?_, ?_, h.past⟩
  · show ∀ (i : ℕ) o k, _ → _ → ∃ x, run.history[k]? = some x ∧ _
    rw [hhistory]
    exact h.invoked
  · intro thread o ho
    show _ ∨ ∃ k, Invoked run.history o k
    rw [hhistory]
    rcases hops thread o ho with hold | hsilent
    · exact h.working thread o hold
    · exact .inl hsilent
  · intro thread o ho hkv
    exact h.told thread o (htold thread o ho hkv) hkv
  · intro x hx
    show _ ∨ ∃ i k o, _ ∧ Last run.history x.process k
    rw [hhistory]
    rcases hcompletions x hx with hold | hsilent
    · exact h.completing x hold
    · exact .inl hsilent
  · show ∀ (j : ℕ) x, run.history[j]? = some x → _ → ∃ i k o, _ ∧ Adjacent run.history _ k j ∧ _
    rw [hhistory]
    exact h.done

/-- What a worker is told is in its queue. -/
theorem mem_told {s : Interpreter (Gen Payload) Payload} {thread : Name}
    {o : Operation Payload} : o ∈ s.told thread ↔ (s.workers thread).inbox = some (.op o) := by
  rw [Interpreter.told, Option.mem_def]
  split
  · next x hx => rw [hx, Option.some.injEq, Option.some.injEq, Inbox.op.injEq]
  · next hnot =>
      constructor
      · intro hnone
        cases hnone
      · intro heq
        exact absurd heq (hnot o)

/-- What the worker of a thread has is in its queue or in its hands. -/
theorem mem_ops {w : Worker Payload} {o : Operation Payload} :
    o ∈ w.ops ↔ w.inbox = some (.op o) ∨ w.current = some o := by
  rw [Worker.ops, List.mem_append, Option.mem_toList]
  refine or_congr_left ?_
  split
  · next x hx =>
      rw [hx, List.mem_singleton, Option.some.injEq, Inbox.op.injEq]
      exact eq_comm
  · next hnot =>
      constructor
      · intro hmem
        cases hmem
      · intro heq
        exact absurd heq (hnot o)

/-- A worker takes what it is told. -/
theorem Linked.take (h : Linked s) (thread : Name) :
    Linked ({ s with run := Interpreter.update (Gen.generator Payload) (.take thread) s.run } :
      Harness Ω M) := by
  rw [Interpreter.update]
  have hset : ∀ w : Worker Payload, (∀ o ∈ w.ops, o ∈ (s.run.workers thread).ops) →
      (∀ o, w.inbox ≠ some (.op o)) →
      Linked ({ s with run := s.run.setWorker thread w } : Harness Ω M) := by
    intro w hw hinbox
    refine h.quiet rfl ?_ ?_ fun x hx => .inl hx
    · intro thread' o ho
      left
      change o ∈ (Function.update s.run.workers thread w thread').ops at ho
      by_cases hthread : thread' = thread
      · rw [hthread, Function.update_self] at ho
        rw [hthread]
        exact hw o ho
      · rw [Function.update_of_ne hthread] at ho
        exact ho
    · intro thread' o ho _
      rw [mem_told] at ho ⊢
      change (Function.update s.run.workers thread w thread').inbox = _ at ho
      by_cases hthread : thread' = thread
      · rw [hthread, Function.update_self] at ho
        exact absurd ho (hinbox o)
      · rw [Function.update_of_ne hthread] at ho
        exact ho
  split
  · exact h
  · refine hset _ (fun o ho => ?_) fun o heq => by cases heq
    cases ho
  · next x hinbox =>
      refine hset _ (fun o ho => ?_) fun o heq => by cases heq
      rcases mem_ops.mp ho with hnone | hcurrent
      · cases hnone
      · rw [← Option.some.inj hcurrent]
        exact mem_ops.mpr (.inl hinbox)

/-- A worker answers something other than a read or a write. -/
theorem Linked.finish (h : Linked s) {thread : Name} {answer : Operation Payload}
    (hg : Interpreter.enabled (.finish thread answer) s.run)
    (hquiet : s.run.callsHttp (.finish thread answer) = false) :
    Linked ({ s with
      run := Interpreter.update (Gen.generator Payload) (.finish thread answer) s.run } :
      Harness Ω M) := by
  rcases hg with ⟨⟨o, ho, hanswers⟩, _⟩
  rw [Option.mem_def] at ho
  have hkv : o.kv = none := by
    rw [Interpreter.callsHttp, ho, Option.any_some] at hquiet
    exact Option.not_isSome_iff_eq_none.mp (by rw [hquiet]; exact Bool.false_ne_true)
  -- so it is a message or a pause, which is its own answer
  have hsilent : goesInHistory o.type = false := by
    rcases h.working thread o (mem_ops.mpr (.inr ho)) with hsilent | ⟨k, hinvoked⟩
    · exact hsilent.1
    · rcases hinvoked.client.kv with ⟨op, _, hop, _⟩
      rw [hkv] at hop
      cases hop
  rw [Answers, hsilent, if_neg Bool.false_ne_true] at hanswers
  refine h.quiet rfl ?_ ?_ ?_
  · intro thread' x hx
    left
    change x ∈ (Function.update s.run.workers thread _ thread').ops at hx
    by_cases hthread : thread' = thread
    · rw [hthread, Function.update_self] at hx
      rw [hthread]
      rcases mem_ops.mp hx with hinbox | hcurrent
      · exact mem_ops.mpr (.inl hinbox)
      · cases hcurrent
    · rw [Function.update_of_ne hthread] at hx
      exact hx
  · intro thread' x hx _
    rw [mem_told] at hx ⊢
    change (Function.update s.run.workers thread _ thread').inbox = _ at hx
    by_cases hthread : thread' = thread
    · rw [hthread, Function.update_self] at hx
      rw [hthread]
      exact hx
    · rw [Function.update_of_ne hthread] at hx
      exact hx
  · intro x hx
    rcases List.mem_append.mp hx with hold | hnew
    · exact .inl hold
    · right
      rw [List.mem_singleton.mp hnew, hanswers]
      exact hsilent

/-! ## The history grows -/

/-- What a worker has is not of the process of what comes back. -/
theorem process_ne_completion {run : Interpreter (Gen Payload) Payload} (h : run.Sound n)
    {thread : Name} {o x : Operation Payload} (ho : o ∈ (run.workers thread).ops)
    (hx : x ∈ run.completions) : x.process ≠ o.process := by
  intro hsame
  rcases h.thread_of_ops ho with ⟨i, _, _, _, hheld, hprocess⟩
  have hmem : x ∈ run.completions.filter fun x => x.process = run.ctx.threadIndexToProcess i := by
    rw [List.mem_filter]
    exact ⟨hx, by simpa using hsame.trans hprocess⟩
  have hlength := congrArg List.length hheld
  rw [Interpreter.held, List.length_append, List.length_singleton] at hlength
  have hops := List.length_pos_of_mem ho
  have hback := List.length_pos_of_mem hmem
  omega

theorem Invoked.append {history : List (Operation Payload)} {o x : Operation Payload} {k : ℕ}
    (h : Invoked history o k) (hne : x.process ≠ o.process) : Invoked (history ++ [x]) o k :=
  ⟨h.index, h.client, getElem?_of_append h.entry, h.last.append_ne hne⟩

/-- An entry `x` is written: the completion of an operation, or an invocation. -/
theorem Linked.journal (h : Linked s) {run : Interpreter (Gen Payload) Payload}
    {x : Operation Payload} (hhistory : run.history = s.run.history ++ [x])
    (hworking : ∀ thread, ∀ o ∈ (run.workers thread).ops, (o = x ∧ x.OfClient ∧
      x.index = s.run.history.length) ∨
        (o ∈ (s.run.workers thread).ops ∧ x.process ≠ o.process))
    (htold : ∀ thread, ∀ o ∈ run.told thread,
      o.index = s.run.history.length ∨ o ∈ s.run.told thread)
    (hcompletions : ∀ y ∈ run.completions, y ∈ s.run.completions ∧ x.process ≠ y.process)
    (hdone : x.type ≠ .invoke → ∃ i k o, Done s.test.ops s.calls i k o x ∧
      Last s.run.history x.process k) :
    Linked ({ s with run := run } : Harness Ω M) := by
  refine ⟨h.lengths, h.nodup, ?_, ?_, ?_, ?_, ?_, h.past⟩
  · intro i o k ho hk
    show ∃ y, run.history[k]? = some y ∧ _
    rw [hhistory]
    rcases h.invoked i o k ho hk with ⟨y, hy, hrest⟩
    exact ⟨y, getElem?_of_append hy, hrest⟩
  · intro thread o ho
    show _ ∨ ∃ k, Invoked run.history o k
    rw [hhistory]
    rcases hworking thread o ho with ⟨heq, hclient, hx⟩ | ⟨hold, hne⟩
    · right
      rw [heq]
      exact ⟨s.run.history.length, hx, hclient, List.getElem?_concat_length, last_append⟩
    · rcases h.working thread o hold with hsilent | ⟨k, hinvoked⟩
      · exact .inl hsilent
      · exact .inr ⟨k, hinvoked.append hne⟩
  · intro thread o ho hkv
    rcases htold thread o ho with hnew | hold
    · -- all calls are of earlier entries
      intro hmem
      have hlt := h.call_lt hmem
      rw [hnew] at hlt
      exact absurd hlt (lt_irrefl _)
    · exact h.told thread o hold hkv
  · intro y hy
    show _ ∨ ∃ i k o, _ ∧ Last run.history y.process k
    rw [hhistory]
    rcases hcompletions y hy with ⟨hold, hne⟩
    rcases h.completing y hold with hsilent | ⟨i, k, o, hd, hlast⟩
    · exact .inl hsilent
    · exact .inr ⟨i, k, o, hd, hlast.append_ne hne⟩
  · intro j y hy htype
    change run.history[j]? = some y at hy
    show ∃ i k o, _ ∧ Adjacent run.history y.process k j ∧ _
    rw [hhistory] at hy ⊢
    rcases getElem?_concat_eq_some.mp hy with hold | ⟨hj, hnew⟩
    · rcases h.done j y hold htype with ⟨i, k, o, hd, hadjacent, horder⟩
      exact ⟨i, k, o, hd, hadjacent.append, horder⟩
    · rw [← hnew] at htype ⊢
      rcases hdone htype with ⟨i, k, o, hd, hlast⟩
      rw [hj]
      refine ⟨i, k, o, hd, hlast.adjacent rfl, ?_⟩
      -- no later operation has been invoked yet
      intro i' k' o' _ hk' hlt
      have hcall := h.call_lt (List.mem_of_getElem? hk')
      omega

/-- An operation comes back. -/
theorem Linked.complete (h : Linked s) (hsound : s.run.Sound n) {time : ℕ}
    (hg : Interpreter.enabled (.complete time) s.run) :
    Linked ({ s with run := Interpreter.update (Gen.generator Payload) (.complete time) s.run } :
      Harness Ω M) := by
  have hguard : Interpreter.guard (Gen.generator Payload) (.complete time) s.run := hg
  rcases Interpreter.complete_cases hsound hguard with
    ⟨o, rest, i, thread, hback, _, _, _, hupdate⟩
  have hmem : o ∈ s.run.completions := by
    rw [hback]
    exact List.mem_cons_self
  have hrest : ∀ y ∈ rest, y ∈ s.run.completions := by
    intro y hy
    rw [hback]
    exact List.mem_cons_of_mem _ hy
  have hworkers : ∀ x : Operation Payload, (s.run.journal x).workers = s.run.workers :=
    fun x => Interpreter.workers_journal x
  rw [hupdate]
  cases hgoes : goesInHistory o.type with
  | false =>
      have hsilent : s.run.journal { s.run.stamp o with time := time } = s.run :=
        Interpreter.journal_silent hgoes
      rw [Interpreter.completed, hsilent]
      exact h.quiet rfl (fun _ _ ho => .inl ho) (fun _ _ ho _ => ho) fun y hy => .inl (hrest y hy)
  | true =>
      have hhistory : (s.run.journal { s.run.stamp o with time := time }).history =
          s.run.history ++ [{ s.run.stamp o with time := time }] :=
        Interpreter.history_journal hgoes
      have hnot := hsound.type_ne_invoke hmem
      -- the entry is of a process that no worker has anything of
      refine h.journal (x := { s.run.stamp o with time := time }) hhistory ?_ ?_ ?_ ?_
      · intro thread' y hy
        change y ∈ ((s.run.journal _).workers thread').ops at hy
        rw [hworkers] at hy
        have hne : o.process ≠ y.process := process_ne_completion hsound hy hmem
        exact .inr ⟨hy, hne⟩
      · intro thread' y hy
        right
        rw [mem_told] at hy ⊢
        change ((s.run.journal _).workers thread').inbox = _ at hy
        rw [hworkers] at hy
        exact hy
      · intro y hy
        refine ⟨hrest y hy, ?_⟩
        have hnodup := hsound.completions_nodup
        rw [hback, List.map_cons, List.nodup_cons] at hnodup
        intro hsame
        exact hnodup.1 (List.mem_map.mpr ⟨y, hy, hsame.symm⟩)
      -- it completes what was done
      · intro _
        rcases h.completing o hmem with hsilent | ⟨i', k, y, hd, hlast⟩
        · rw [hgoes] at hsilent
          cases hsilent
        · exact ⟨i', k, y, ⟨hd.op, hd.call, hd.completion⟩, hlast⟩

/-- What a worker has is not of the process of a free thread. -/
theorem process_ne_free {run : Interpreter (Gen Payload) Payload} (h : run.Sound n)
    {thread : Name} {o : Operation Payload} (ho : o ∈ (run.workers thread).ops) {i : ℕ}
    (hi : i < run.ctx.threadCount) (hfree : run.ctx.freeThreads i = true) :
    run.ctx.threadIndexToProcess i ≠ o.process := by
  rcases h.thread_of_ops ho with ⟨i', hi', _, hbusy, _, hprocess⟩
  rw [hprocess]
  refine h.process_ne hi hi' ?_
  intro hsame
  rw [hsame, hbusy] at hfree
  cases hfree

/-- The generator is asked. -/
theorem Linked.ask (h : Linked s) {limit : ℕ} (htest : s.run.OfTest limit)
    (hsound : s.run.Sound n) {time : ℕ} {draws : Draws}
    (hg : Interpreter.enabled (.ask time draws) s.run) :
    Linked ({ s with run := Interpreter.update (Gen.generator Payload) (.ask time draws) s.run } :
      Harness Ω M) := by
  show Linked ({ s with run := s.run.asked (Gen.generator Payload) time draws } : Harness Ω M)
  rcases htest.limited with ⟨_, hlimited, _⟩
  rcases Interpreter.asked_cases hsound (fun _ hm => hm) hlimited.all time draws with
    ⟨_, heq | ⟨_, heq⟩⟩ | ⟨o, gen', thread, hverdict, hthread, heq⟩
  -- nothing but the clock
  · rw [heq]
    exact h.quiet rfl (fun _ _ ho => .inl ho) (fun _ _ ho _ => ho) fun x hx => .inl hx
  -- all are told to exit
  · rw [heq]
    refine h.quiet rfl (fun _ _ ho => .inl (Interpreter.ops_tellExit ho)) ?_ fun x hx => .inl hx
    intro thread x hx
    rw [mem_told] at hx
    cases hx
  · rw [heq]
    have hworkers : ((s.run.read time).dispatch (Gen.generator Payload) o gen' thread).workers =
        Function.update s.run.workers thread
          { s.run.workers thread with inbox := some (.op ((s.run.read time).stamp o)) } := by
      show Function.update ((s.run.read time).journal _).workers thread _ = _
      rw [Interpreter.workers_journal]
      rfl
    -- the worker of this thread is told the operation, and nobody else anything
    have hwork : ∀ thread', ∀ x ∈ (((s.run.read time).dispatch (Gen.generator Payload) o gen'
        thread).workers thread').ops,
        x = (s.run.read time).stamp o ∨ x ∈ (s.run.workers thread').ops := by
      intro thread' x hx
      rw [hworkers] at hx
      by_cases hsame : thread' = thread
      · rw [hsame, Function.update_self] at hx
        rcases mem_ops.mp hx with hinbox | hcurrent
        · left
          rw [Option.some.injEq, Inbox.op.injEq] at hinbox
          exact hinbox.symm
        · right
          rw [hsame]
          exact mem_ops.mpr (.inr hcurrent)
      · rw [Function.update_of_ne hsame] at hx
        exact .inr hx
    have htold : ∀ thread', ∀ x ∈ ((s.run.read time).dispatch (Gen.generator Payload) o gen'
        thread).told thread', x = (s.run.read time).stamp o ∨ x ∈ s.run.told thread' := by
      intro thread' x hx
      rw [mem_told] at hx ⊢
      rw [hworkers] at hx
      by_cases hsame : thread' = thread
      · rw [hsame, Function.update_self, Option.some.injEq, Inbox.op.injEq] at hx
        exact .inl hx.symm
      · rw [Function.update_of_ne hsame] at hx
        exact .inr hx
    have hback : ∀ x ∈ ((s.run.read time).dispatch (Gen.generator Payload) o gen'
        thread).completions, False := by
      intro x hx
      change x ∈ ((s.run.read time).journal _).completions at hx
      rw [Interpreter.completions_journal] at hx
      change x ∈ s.run.completions at hx
      rw [hg.2.2] at hx
      cases hx
    have hindex : ((s.run.read time).stamp o).index = s.run.history.length := by
      show (s.run.opIndex : ℤ) = _
      rw [hsound.opIndex]
    rcases htest.kinds hsound hverdict with hclient | ⟨hgoes, hphase⟩
    -- a read or a write: its invocation is the last entry
    · have hjournal : ((s.run.read time).dispatch (Gen.generator Payload) o gen'
          thread).history = s.run.history ++ [(s.run.read time).stamp o] := by
        have hgoes : goesInHistory ((s.run.read time).stamp o).type = true :=
          hclient.goesInHistory
        exact Interpreter.history_journal hgoes
      have hstamped : ((s.run.read time).stamp o).OfClient :=
        ⟨hclient.type, hclient.process, hclient.fields, hclient.endProcess⟩
      refine h.journal hjournal ?_ ?_ ?_ ?_
      · intro thread' x hx
        rcases hwork thread' x hx with hnew | hold
        · exact .inl ⟨hnew, hstamped, hindex⟩
        · right
          refine ⟨hold, ?_⟩
          rcases (Interpreter.dispatched_of_verdict (fun _ hm => hm) hlimited.all hverdict).1 with
            ⟨_, _, _, _, _, _, i, hi, hfree, hprocess⟩
          show o.process ≠ x.process
          rw [hprocess]
          exact process_ne_free hsound hold hi hfree
      · intro thread' x hx
        rcases htold thread' x hx with hnew | hold
        · left
          rw [hnew]
          exact hindex
        · exact .inr hold
      · intro x hx
        exact absurd hx (hback x)
      · intro htype
        exact absurd hclient.type htype
    · -- a message or a pause
      have hsilent : (s.run.read time).journal ((s.run.read time).stamp o) = s.run.read time :=
        Interpreter.journal_silent hgoes
      have hkv : ((s.run.read time).stamp o).kv = none := by
        rw [Operation.kv]
        split
        · next hfields =>
            change o.fields = _ at hfields
            rw [hfields] at hphase
            exact absurd rfl hphase
        · rfl
      refine h.quiet ?_ ?_ ?_ fun x hx => absurd hx (hback x)
      · show ((s.run.read time).journal ((s.run.read time).stamp o)).history = _
        rw [hsilent]
        rfl
      · intro thread' x hx
        rcases hwork thread' x hx with hnew | hold
        · right
          rw [hnew]
          exact ⟨hgoes, hkv⟩
        · exact .inl hold
      · intro thread' x hx hsome
        rcases htold thread' x hx with hnew | hold
        · rw [hnew, hkv] at hsome
          cases hsome
        · exact hold

/-! ## Requests -/

/-- Two workers have operations of different processes. -/
theorem process_ne_worker {run : Interpreter (Gen Payload) Payload} (h : run.Sound n)
    {thread thread' : Name} (hne : thread ≠ thread') {o o' : Operation Payload}
    (ho : o ∈ (run.workers thread).ops) (ho' : o' ∈ (run.workers thread').ops) :
    o.process ≠ o'.process := by
  rcases h.thread_of_ops ho with ⟨i, hi, hname, _, _, hprocess⟩
  rcases h.thread_of_ops ho' with ⟨i', hi', hname', _, _, hprocess'⟩
  rw [hprocess, hprocess']
  refine h.process_ne hi hi' ?_
  intro hsame
  rw [hsame, hname'] at hname
  exact hne (Option.some.inj hname).symm

/-- What a worker has of the reads and writes has been written to the history. -/
theorem Linked.invoked_of_kv (h : Linked s) {thread : Name} {o : Operation Payload}
    (ho : o ∈ (s.run.workers thread).ops) {op : Op} (hop : o.kv = some op) :
    Invoked s.run.history o o.index.toNat ∧ o.fields = .kv op none := by
  rcases h.working thread o ho with ⟨_, hnone⟩ | ⟨k, hinvoked⟩
  · rw [hop] at hnone
    cases hnone
  · rcases hinvoked.client.kv with ⟨op', _, hop', hfields⟩
    have hindex : o.index.toNat = k := by
      rw [hinvoked.index]
      exact Int.toNat_natCast k
    rw [hindex]
    refine ⟨hinvoked, ?_⟩
    rw [hfields, Option.some.inj (hop.symm.trans hop')]

theorem Done.append {ops : List Invocation} {calls : List ℕ} {i k : ℕ} {o : Invocation}
    {x : Operation Payload} (h : Done ops calls i k o x) (o' : Invocation) (k' : ℕ) :
    Done (ops ++ [o']) (calls ++ [k']) i k o x :=
  ⟨getElem?_concat_eq_some.mpr (.inl h.op), getElem?_concat_eq_some.mpr (.inl h.call),
    h.completion⟩

/-- A worker takes an operation and makes its request. -/
theorem Linked.request (h : Linked s) (hsound : s.run.Sound n) {thread : Name}
    {o : Operation Payload} (ho : o ∈ s.run.told thread) {op : Op} (hop : op ∈ o.kv)
    (e : EndpointId) :
    Linked ({ run := Interpreter.update (Gen.generator Payload) (.take thread) s.run
              test := (jepsen lib decided cfg t).update (.invoke e op) s.test
              calls := s.calls ++ [o.index.toNat] } : Harness Ω M) := by
  have hinbox := mem_told.mp ho
  have hops : o ∈ (s.run.workers thread).ops := mem_ops.mpr (.inl hinbox)
  rw [Option.mem_def] at hop
  rcases h.invoked_of_kv hops hop with ⟨hinvoked, hfields⟩
  -- the worker goes on with the operation, and the test has one more, called by its index
  have htake := h.take thread
  have hrun : Interpreter.update (Gen.generator Payload) (.take thread) s.run =
      s.run.setWorker thread ⟨none, some o, false⟩ := by
    rw [Interpreter.update, hinbox]
  rw [hrun] at htake ⊢
  have hnew : o.index.toNat ∉ s.calls := h.told thread o ho (by rw [hop]; rfl)
  show Linked (⟨s.run.setWorker thread ⟨none, some o, false⟩,
    ⟨s.test.cluster, s.test.ops ++ [⟨op, e, [], s.test.cluster.log.length, none, 0⟩]⟩,
    s.calls ++ [o.index.toNat]⟩ : Harness Ω M)
  refine ⟨?_, ?_, ?_, htake.working, ?_, ?_, ?_, ?_⟩
  · show (s.calls ++ [_]).length = (s.test.ops ++ [_]).length
    rw [List.length_append, List.length_append, h.lengths]
    rfl
  · show (s.calls ++ [_]).Nodup
    rw [List.nodup_append]
    refine ⟨h.nodup, List.nodup_singleton _, ?_⟩
    intro k hk k' hk' hsame
    rw [hsame, List.mem_singleton.mp hk'] at hk
    exact hnew hk
  -- the operations and their calls are one to one
  · intro i o' k ho' hk
    rcases getElem?_concat_eq_some.mp ho' with hold | ⟨hi, heq⟩
    · rcases getElem?_concat_eq_some.mp hk with hcall | ⟨hi, _⟩
      · exact h.invoked i o' k hold hcall
      · have hlt := (List.getElem?_eq_some_iff.mp hold).1
        rw [hi, h.lengths] at hlt
        exact absurd hlt (lt_irrefl _)
    · rcases getElem?_concat_eq_some.mp hk with hcall | ⟨_, hkk⟩
      · have hlt := (List.getElem?_eq_some_iff.mp hcall).1
        rw [hi, h.lengths] at hlt
        exact absurd hlt (lt_irrefl _)
      · rw [← heq, ← hkk]
        exact ⟨o, hinvoked.entry, hinvoked.client, hfields⟩
  · intro thread' o' ho' hkv hmem
    have ho'' := mem_told.mp ho'
    change (Function.update s.run.workers thread _ thread').inbox = _ at ho''
    by_cases hsame : thread' = thread
    · rw [hsame, Function.update_self] at ho''
      cases ho''
    · rw [Function.update_of_ne hsame] at ho''
      rcases List.mem_append.mp hmem with hold | hlast
      · exact h.told thread' o' (mem_told.mpr ho'') hkv hold
      · -- two workers have operations of different processes, so of different indices
        have hops' : o' ∈ (s.run.workers thread').ops := mem_ops.mpr (.inl ho'')
        rcases Option.isSome_iff_exists.mp hkv with ⟨op', hop'⟩
        have hentry := (h.invoked_of_kv hops' hop').1.entry
        rw [List.mem_singleton.mp hlast, hinvoked.entry] at hentry
        refine process_ne_worker hsound hsame hops' hops ?_
        rw [Option.some.inj hentry]
  · intro x hx
    rcases htake.completing x hx with hsilent | ⟨i, k, y, hd, hlast⟩
    · exact .inl hsilent
    · exact .inr ⟨i, k, y, hd.append _ _, hlast⟩
  -- what is done stays done
  · intro j x hx htype
    rcases h.done j x hx htype with ⟨i, k, y, hd, hadjacent, horder⟩
    refine ⟨i, k, y, hd.append _ _, hadjacent, ?_⟩
    intro i' k' o' ho' hk' hlt
    rcases getElem?_concat_eq_some.mp ho' with hold | ⟨_, heq⟩
    · rcases getElem?_concat_eq_some.mp hk' with hcall | ⟨hi, _⟩
      · exact horder i' k' o' hold hcall hlt
      · have hlt' := (List.getElem?_eq_some_iff.mp hold).1
        rw [hi, h.lengths] at hlt'
        exact absurd hlt' (lt_irrefl _)
    · -- the new operation is invoked behind all that any server has decided
      rw [← heq]
      rcases hd.completion with ⟨result, hresult, _⟩
      rcases Option.map_eq_some_iff.mp hresult with ⟨outcome, houtcome, _⟩
      exact h.past i y hd.op (by rw [houtcome]; rfl)
  · intro i o' ho' hout
    rcases getElem?_concat_eq_some.mp ho' with hold | ⟨_, heq⟩
    · exact h.past i o' hold hout
    · rw [← heq] at hout
      cases hout

/-! ## Responses -/

/-- No node has decided more than the log. -/
theorem decidedCount_le {s : Cluster.State Ω M} (h : Cluster.Agreed decided cfg s) :
    decidedCount decided cfg s ≤ s.log.length := by
  rw [decidedCount]
  cases hmax : (cfg.nodes.map fun n => (decided (s.servers n).omnipaxos).length).max? with
  | none => exact Nat.zero_le _
  | some m =>
      rcases List.mem_map.mp (List.max?_mem hmax) with ⟨node, hnode, heq⟩
      rw [Option.getD_some, ← heq]
      exact (h.decides node hnode).length_le

/-- A worker is done with a read or a write. -/
theorem Linked.respond (h : Linked s) {thread : Name} {i : ℕ} {outcome : HttpOutcome}
    (hagreed : Cluster.Agreed decided cfg s.test.cluster) {o : Operation Payload}
    (ho : o ∈ (s.run.workers thread).current) {op : Op} (hop : op ∈ o.kv)
    (hcall : s.calls[i]? = some o.index.toNat) {o₁ : Invocation} (ho₁ : s.test.ops[i]? = some o₁)
    (hopen : o₁.outcome = none) :
    Linked ({ s with
      run := Interpreter.update (Gen.generator Payload) (.finish thread (o.answered op outcome))
        s.run
      test := (jepsen lib decided cfg t).update (.complete i outcome) s.test } :
      Harness Ω M) := by
  rw [Option.mem_def] at ho hop
  have hops : o ∈ (s.run.workers thread).ops := mem_ops.mpr (.inr ho)
  rcases h.invoked_of_kv hops hop with ⟨hinvoked, hfields⟩
  have hsame : op = o₁.op := by
    rcases h.invoked i o₁ _ ho₁ hcall with ⟨x, hx, _, hxfields⟩
    rw [← Option.some.inj (hinvoked.entry.symm.trans hx), hfields] at hxfields
    exact (Payload.kv.inj hxfields).1
  rw [update_complete ho₁]
  generalize hnow : decidedCount decided cfg s.test.cluster = now
  have hpast : now ≤ s.test.cluster.log.length := by
    rw [← hnow]
    exact decidedCount_le hagreed
  have hset : ∀ {i' k : ℕ} {y : Invocation} {x : Operation Payload},
      Done s.test.ops s.calls i' k y x →
        Done (s.test.ops.set i (o₁.completed outcome now)) s.calls i' k y x := by
    intro i' k y x hd
    refine ⟨?_, hd.call, hd.completion⟩
    -- the operation was not done before
    have hne : i ≠ i' := by
      intro heq
      have hy := hd.op
      rw [← heq, ho₁, Option.some.injEq] at hy
      rcases hd.completion with ⟨result, hresult, _⟩
      rw [← hy, Invocation.completion, hopen] at hresult
      cases hresult
    rw [List.getElem?_set_ne hne]
    exact hd.op
  refine ⟨?_, h.nodup, ?_, ?_, ?_, ?_, ?_, ?_⟩
  · rw [List.length_set]
    exact h.lengths
  · intro i' o' k ho' hk
    rcases getElem?_set_eq_some ho' with ⟨heq, hnew⟩ | ⟨_, hold⟩
    · rw [hnew]
      exact h.invoked i' o₁ k (heq ▸ ho₁) hk
    · exact h.invoked i' o' k hold hk
  · intro thread' x hx
    refine h.working thread' x ?_
    change x ∈ (Function.update s.run.workers thread _ thread').ops at hx
    by_cases hthread : thread' = thread
    · rw [hthread, Function.update_self] at hx
      rw [hthread]
      rcases mem_ops.mp hx with hinbox | hcurrent
      · exact mem_ops.mpr (.inl hinbox)
      · cases hcurrent
    · rw [Function.update_of_ne hthread] at hx
      exact hx
  · intro thread' x hx hkv
    refine h.told thread' x ?_ hkv
    rw [mem_told] at hx ⊢
    change (Function.update s.run.workers thread _ thread').inbox = _ at hx
    by_cases hthread : thread' = thread
    · rw [hthread, Function.update_self] at hx
      rw [hthread]
      exact hx
    · rw [Function.update_of_ne hthread] at hx
      exact hx
  · intro x hx
    rcases List.mem_append.mp hx with hold | hnew
    · rcases h.completing x hold with hsilent | ⟨i', k, y, hd, hlast⟩
      · exact .inl hsilent
      · exact .inr ⟨i', k, y, hset hd, hlast⟩
    · right
      rw [List.mem_singleton.mp hnew]
      refine ⟨i, o.index.toNat, o₁.completed outcome now, ⟨getElem?_set_of_eq_some ho₁, hcall, ?_⟩,
        hinvoked.last⟩
      refine ⟨o₁.op.invoke outcome, rfl, ?_, ?_⟩
      · show (op.invoke outcome).type.operationType = _
        rw [hsame]
      · show Payload.kv (op.invoke outcome).toOp (op.invoke outcome).error = _
        rw [hsame]
  · intro j x hx htype
    rcases h.done j x hx htype with ⟨i', k, y, hd, hadjacent, horder⟩
    refine ⟨i', k, y, hset hd, hadjacent, ?_⟩
    intro i₂ k₂ o₂ ho₂ hk₂ hlt
    rcases getElem?_set_eq_some ho₂ with ⟨heq, hnew⟩ | ⟨_, hold⟩
    · rw [hnew]
      exact horder i₂ k₂ o₁ (heq ▸ ho₁) hk₂ hlt
    · exact horder i₂ k₂ o₂ hold hk₂ hlt
  · intro i' o' ho' hout
    rcases getElem?_set_eq_some ho' with ⟨_, hnew⟩ | ⟨_, hold⟩
    · rw [hnew]
      exact hpast
    · exact h.past i' o' hold hout

/-! ## Runs -/

/-- In every run of the test the operations are linked to the history. -/
theorem linked_reachable {timeLimit : ℚ} (hpos : 0 < timeLimit) {i : ℕ}
    (hr : (harness lib decided cfg t nodes n (omnipaxosTest timeLimit i)).Reachable s) :
    Linked s := by
  refine (harness lib decided cfg t nodes n (omnipaxosTest timeLimit i)).invariant Linked ?_ ?_ s hr
  -- nothing has been invoked yet
  · intro s hs
    rcases hs with ⟨hrun, htest, hcalls⟩
    have hops : s.test.ops = [] := htest.2
    refine ⟨?_, ?_, ?_, ?_, ?_, ?_, ?_, ?_⟩
    · rw [hcalls, hops]
      rfl
    · rw [hcalls]
      exact List.nodup_nil
    · intro i o k ho _
      rw [hops] at ho
      cases ho
    · intro thread o ho
      rw [hrun] at ho
      cases ho
    · intro thread o ho
      rw [hrun] at ho
      cases ho
    · intro x hx
      rw [hrun] at hx
      cases hx
    · intro j x hx
      rw [hrun] at hx
      cases hx
    · intro i o ho
      rw [hops] at ho
      cases ho
  · intro l s hs hg h
    rcases Interpreter.ofTest_reachable hpos (run_reachable hs) with ⟨htest, _, hsound⟩
    cases l with
    | run l =>
        rcases hg with ⟨henabled, hquiet⟩
        -- the steps of the interpreter that leave the requests alone
        cases l with
        | complete time => exact h.complete hsound henabled
        | ask time draws => exact h.ask htest hsound henabled
        | take thread => exact h.take thread
        | finish thread answer => exact h.finish henabled hquiet
        | join =>
            exact h.quiet rfl (fun _ _ ho => .inl ho) (fun _ _ ho _ => ho) fun x hx => .inl hx
    | request thread =>
        rcases hg with ⟨_, o, ho, op, hop, e, he, _⟩
        rw [update_request ho hop he]
        exact h.request hsound ho hop e
    | respond thread i outcome =>
        rcases hg with ⟨o, ho, op, hop, _, hcall, o₁, ho₁, hopen, _⟩
        rw [update_respond ho hop]
        have hagreed := Cluster.agreed_reachable (cluster_reachable (test_reachable hs))
        exact h.respond hagreed ho hop hcall ho₁ hopen
    | test l => exact h.test hg.1 hg.2

end Jepsen

end OmnipaxosKv
