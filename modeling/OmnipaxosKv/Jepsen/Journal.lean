import Mathlib.Data.List.Induction
import Mathlib.Data.List.Nodup
import Mathlib.Data.List.Perm.Subperm
import OmnipaxosKv.Jepsen.Interpreter

/-! # The history of a run

For any generator and any answers of the workers: a busy thread has one operation, with its
worker or on its way back; in the history the entries of a process are invocations and their
completions in turn; and after a crash there are no more of them.
-/

namespace OmnipaxosKv

namespace Jepsen

/-! ## Phases of a process -/

/-- Where a process stands, by its entries in the history. -/
inductive Phase (α : Type) where
  | ready
  | open (o : Operation α)
  | crashed
deriving DecidableEq, Repr

def Name.isInt : Name → Bool
  | .int _ => true
  | .keyword _ => false

/-- A process crashes with `:info`, or when it asks for the next one; keywords do not. -/
def Operation.crashes {α : Type} (o : Operation α) : Bool :=
  o.process.isInt && (o.type == .info || o.endProcess)

variable {γ α : Type}

/-- An invocation is `:invoke` or `:info`, a completion `:ok`, `:info` or `:fail`. -/
def Phase.next : Phase α → Operation α → Option (Phase α)
  | .ready, o => if o.type = .invoke ∨ o.type = .info then some (.open o) else none
  | .open _, o =>
      if o.type = .ok ∨ o.type = .info ∨ o.type = .fail then
        some (if o.crashes then .crashed else .ready)
      else none
  | .crashed, _ => none

/-- `none` if the entries of the process do not take turns. -/
def phase (p : Name) (history : List (Operation α)) : Option (Phase α) :=
  (history.filter fun o => o.process = p).foldlM Phase.next .ready

/-- Every invocation of the process has its completion. -/
def Closed (p : Name) (history : List (Operation α)) : Prop :=
  phase p history = some .ready ∨ phase p history = some .crashed

section

variable {p : Name} {history : List (Operation α)} {o : Operation α}

/-- A new entry of the process moves it on. -/
theorem phase_append_self (h : o.process = p) :
    phase p (history ++ [o]) = (phase p history).bind fun ph => ph.next o := by
  have hfilter : (history ++ [o]).filter (fun o => o.process = p) =
      history.filter (fun o => o.process = p) ++ [o] := by
    rw [List.filter_append, List.filter_cons_of_pos (by simpa using h), List.filter_nil]
  rw [phase, hfilter, List.foldlM_append]
  show (phase p history >>= fun ph => ([o].foldlM Phase.next ph)) = _
  cases phase p history with
  | none => rfl
  | some ph =>
      show (ph.next o >>= fun ph => some ph) = ph.next o
      cases ph.next o <;> rfl

theorem phase_append_ne (h : o.process ≠ p) : phase p (history ++ [o]) = phase p history := by
  rw [phase, phase, List.filter_append, List.filter_cons_of_neg (by simpa using h),
    List.filter_nil, List.append_nil]

/-- What is open is an entry of the process. -/
theorem mem_of_phase_open (h : phase p history = some (.open o)) :
    o ∈ history ∧ o.process = p := by
  -- by the last entry, which opened it or is of another process
  induction history using List.reverseRecOn with
  | nil => cases h
  | append_singleton history x ih =>
      by_cases hp : x.process = p
      · rw [phase_append_self hp] at h
        rcases Option.bind_eq_some_iff.mp h with ⟨ph, _, hnext⟩
        cases ph with
        | ready =>
            rw [Phase.next] at hnext
            split at hnext
            · rw [← Phase.open.inj (Option.some.inj hnext)]
              exact ⟨List.mem_append_right _ (List.mem_singleton.mpr rfl), hp⟩
            · cases hnext
        | «open» y =>
            rw [Phase.next] at hnext
            split at hnext
            · split at hnext
              · cases hnext
              · cases hnext
            · cases hnext
        | crashed => cases hnext
      · rw [phase_append_ne hp] at h
        exact ⟨List.mem_append_left _ (ih h).1, (ih h).2⟩

/-- A process without entries is ready. -/
theorem phase_of_not_mem (h : ∀ o ∈ history, o.process ≠ p) : phase p history = some .ready := by
  have hempty : history.filter (fun o => o.process = p) = [] := by
    rw [List.filter_eq_nil_iff]
    intro o ho
    simpa using h o ho
  rw [phase, hempty]
  rfl

end

/-! ## The invariant -/

def Worker.ops (w : Worker α) : List (Operation α) :=
  (match w.inbox with
    | some (.op o) => [o]
    | _ => []) ++ w.current.toList

namespace Interpreter

/-- The operations of a thread: with its worker, and on their way back. -/
def held (s : Interpreter γ α) (thread p : Name) : List (Operation α) :=
  (s.workers thread).ops ++ s.completions.filter fun o => o.process = p

/-- A thread that is free has nothing to do; one that is busy has one operation, which its
process has invoked. -/
structure Slot (s : Interpreter γ α) (i : ℕ) (thread : Name) : Prop where
  idle : s.ctx.freeThreads i = true → s.held thread (s.ctx.threadIndexToProcess i) = [] ∧
    phase (s.ctx.threadIndexToProcess i) s.history = some .ready
  busy : s.ctx.freeThreads i = false →
    ∃ o, s.held thread (s.ctx.threadIndexToProcess i) = [o] ∧
      o.process = s.ctx.threadIndexToProcess i ∧
      ∃ ph, phase (s.ctx.threadIndexToProcess i) s.history = some ph ∧
        (goesInHistory o.type = true → ∃ invocation, ph = .open invocation) ∧
        (goesInHistory o.type = false → ph = .ready)

structure Sound (n : ℕ) (s : Interpreter γ α) : Prop where
  table : s.ctx.translationTable = ⟨n, ["nemesis"]⟩
  ctx : s.ctx.Sound
  slots : ∀ i thread, s.ctx.translationTable.indexToName i = some thread → s.Slot i thread
  strangers : ∀ thread, (∀ i, s.ctx.translationTable.indexToName i ≠ some thread) →
    (s.workers thread).ops = []
  completing : ∀ o ∈ s.completions,
    (∃ i < s.ctx.threadCount, o.process = s.ctx.threadIndexToProcess i) ∧
    (goesInHistory o.type = true → o.type = .ok ∨ o.type = .info ∨ o.type = .fail)
  counted : s.outstanding + cardinality s.ctx.freeThreads s.ctx.threadCount = s.ctx.threadCount
  known : ∀ o ∈ s.history,
    (∃ i < s.ctx.threadCount, o.process = s.ctx.threadIndexToProcess i) ∨ s.ctx.Retired o.process
  retired : ∀ p, s.ctx.Retired p → Closed p s.history
  indexed : ∀ (j : ℕ) o, s.history[j]? = some o → o.index = j
  opIndex : s.opIndex = s.history.length
  exits : s.status = .running →
    ∀ thread, (s.workers thread).inbox ≠ some .exit ∧ (s.workers thread).exited = false
  stopped : s.status ≠ .running → s.outstanding = 0

/-- A new run is sound. -/
theorem sound_start (n : ℕ) (gen : γ) : (start n gen : Interpreter γ α).Sound n := by
  have hfree : ∀ i thread, (context n).translationTable.indexToName i = some thread →
      (context n).freeThreads i = true :=
    fun i thread h => decide_eq_true (TranslationTable.lt_of_indexToName h)
  refine ⟨rfl, Context.sound_context n, ?_, fun _ _ => rfl, ?_, ?_, ?_, ?_, ?_, rfl, ?_, ?_⟩
  · intro i thread h
    refine ⟨fun _ => ⟨rfl, rfl⟩, ?_⟩
    intro hbusy
    have hfree' : (start n gen : Interpreter γ α).ctx.freeThreads i = true := hfree i thread h
    rw [hfree'] at hbusy
    cases hbusy
  · intro o ho
    cases ho
  · show 0 + cardinality (context n).freeThreads (context n).threadCount = (context n).threadCount
    rw [Nat.zero_add, cardinality, List.countP_eq_length.mpr, List.length_range]
    intro i hi
    exact decide_eq_true (List.mem_range.mp hi)
  · intro o ho
    cases ho
  · intro p hp
    exact .inl rfl
  · intro j o ho
    cases ho
  · intro _ thread
    exact ⟨fun h => (by cases h), rfl⟩
  · intro h
    exact absurd rfl h

section

variable {n : ℕ} {s : Interpreter γ α} {G : Generator γ α}

/-- Threads have different names. -/
theorem Sound.name_inj (h : s.Sound n) {i j : ℕ} {thread thread' : Name}
    (hi : s.ctx.translationTable.indexToName i = some thread)
    (hj : s.ctx.translationTable.indexToName j = some thread') (hij : i ≠ j) :
    thread ≠ thread' := by
  intro heq
  have hone := h.ctx.named
  apply hij
  rw [← TranslationTable.nameToIndex_of_indexToName hone hi,
    ← TranslationTable.nameToIndex_of_indexToName hone hj, heq]

theorem Sound.process_ne (h : s.Sound n) {i j : ℕ} (hi : i < s.ctx.threadCount)
    (hj : j < s.ctx.threadCount) (hij : i ≠ j) :
    s.ctx.threadIndexToProcess i ≠ s.ctx.threadIndexToProcess j :=
  fun heq => hij (h.ctx.process_inj hi hj heq)

/-! ## A worker takes what it is told -/

/-- The workers may change, as long as they have the same operations. -/
theorem Sound.workers (h : s.Sound n) {workers : Name → Worker α} {status : RunStatus}
    (hops : ∀ thread, (workers thread).ops = (s.workers thread).ops)
    (hexits : status = .running →
      ∀ thread, (workers thread).inbox ≠ some .exit ∧ (workers thread).exited = false)
    (hstopped : status ≠ .running → s.outstanding = 0) :
    { s with workers := workers, status := status }.Sound n := by
  have hheld : ∀ thread p,
      { s with workers := workers, status := status }.held thread p = s.held thread p := by
    intro thread p
    show (workers thread).ops ++ _ = _
    rw [hops]
    rfl
  refine ⟨h.table, h.ctx, ?_, ?_, h.completing, h.counted, h.known, h.retired, h.indexed,
    h.opIndex, hexits, hstopped⟩
  · intro i thread hi
    have hslot := h.slots i thread hi
    constructor
    · intro hfree
      rw [hheld]
      exact hslot.idle hfree
    · intro hbusy
      rw [hheld]
      exact hslot.busy hbusy
  · intro thread hnone
    rw [hops]
    exact h.strangers thread hnone

/-- A worker takes its operation: the thread has it still. -/
theorem Sound.take (h : s.Sound n) {thread : Name} (hg : guard G (.take thread) s) :
    (update G (.take thread) s).Sound n := by
  rcases hg with ⟨hinbox, hcurrent, hexited, _⟩
  have hw : s.workers thread = ⟨(s.workers thread).inbox, none, false⟩ := by
    rw [← hcurrent, ← hexited]
  have hops : ∀ w : Worker α, w.ops = (s.workers thread).ops → ∀ t,
      (Function.update s.workers thread w t).ops = (s.workers t).ops := by
    intro w hsame t
    by_cases ht : t = thread
    · rw [ht, Function.update_self, hsame]
    · rw [Function.update_of_ne ht]
  rw [update]
  cases hmsg : (s.workers thread).inbox with
  | none => exact absurd hmsg hinbox
  | some msg =>
      rw [hmsg] at hw
      cases msg with
      | op o =>
          refine h.workers (hops _ (by rw [hw]; rfl)) ?_ h.stopped
          intro hrunning t
          by_cases ht : t = thread
          · rw [ht, Function.update_self]
            exact ⟨fun heq => (by cases heq), rfl⟩
          · rw [Function.update_of_ne ht]
            exact h.exits hrunning t
      | exit =>
          refine h.workers (hops _ (by rw [hw]; rfl)) ?_ h.stopped
          intro hrunning
          exact absurd hmsg (h.exits hrunning thread).1

/-! ## A worker is done -/

/-- What a worker makes of an operation goes in the history if the operation does. -/
theorem goesInHistory_of_answers {o answer : Operation α} (h : Answers o answer) :
    answer.process = o.process ∧
    goesInHistory answer.type = goesInHistory o.type ∧
    (goesInHistory answer.type = true →
      answer.type = .ok ∨ answer.type = .info ∨ answer.type = .fail) := by
  rw [Answers] at h
  split at h
  · next hgoes =>
      rcases h with ⟨hprocess, htype⟩
      have hgoes' : goesInHistory answer.type = true := by
        rcases htype with htype | htype | htype
        · rw [htype]
          rfl
        · rw [htype]
          rfl
        · rw [htype]
          rfl
      exact ⟨hprocess, hgoes'.trans hgoes.symm, fun _ => htype⟩
  · next hgoes =>
      rw [h]
      exact ⟨rfl, rfl, fun hyes => absurd hyes hgoes⟩

/-- The thread whose worker has an operation. -/
theorem Sound.thread_of_ops (h : s.Sound n) {thread : Name} {o : Operation α}
    (ho : o ∈ (s.workers thread).ops) : ∃ i < s.ctx.threadCount,
      s.ctx.translationTable.indexToName i = some thread ∧ s.ctx.freeThreads i = false ∧
      s.held thread (s.ctx.threadIndexToProcess i) = [o] ∧
      o.process = s.ctx.threadIndexToProcess i := by
  by_cases hknown : ∃ i, s.ctx.translationTable.indexToName i = some thread
  · rcases hknown with ⟨i, hi⟩
    have hmem : o ∈ s.held thread (s.ctx.threadIndexToProcess i) := List.mem_append_left _ ho
    have hslot := h.slots i thread hi
    cases hfree : s.ctx.freeThreads i with
    | true =>
        rw [(hslot.idle hfree).1] at hmem
        cases hmem
    | false =>
        rcases hslot.busy hfree with ⟨o', hheld, hprocess, _⟩
        rw [hheld, List.mem_singleton] at hmem
        rw [hmem]
        exact ⟨i, TranslationTable.lt_of_indexToName hi, hi, hfree, hheld, hprocess⟩
  · rw [h.strangers thread (fun i hi => hknown ⟨i, hi⟩)] at ho
    cases ho

/-- A worker answers: the operation is on its way back. -/
theorem Sound.finish (h : s.Sound n) {thread : Name} {answer : Operation α}
    (hg : guard G (.finish thread answer) s) : (update G (.finish thread answer) s).Sound n := by
  rcases hg with ⟨⟨o, hmem, hanswers⟩, _, _⟩
  have hcurrent : (s.workers thread).current = some o := Option.mem_def.mp hmem
  rcases goesInHistory_of_answers hanswers with ⟨hprocess, hgoes, htype⟩
  have hmem : o ∈ (s.workers thread).ops := by
    rw [Worker.ops, hcurrent]
    exact List.mem_append_right _ List.mem_cons_self
  rcases h.thread_of_ops hmem with ⟨i, hi, hname, hbusy, hheld, hop⟩
  -- the worker has this operation, and nothing else
  have hparts : (s.workers thread).inbox = none ∨ (s.workers thread).inbox = some .exit := by
    rw [held, Worker.ops, hcurrent] at hheld
    cases hinbox : (s.workers thread).inbox with
    | none => exact .inl rfl
    | some msg =>
        cases msg with
        | exit => exact .inr rfl
        | op o' =>
            rw [hinbox] at hheld
            cases hheld
  have hdone : ({ s.workers thread with current := none } : Worker α).ops = [] := by
    rw [Worker.ops]
    rcases hparts with hnone | hexit
    · rw [hnone]
      rfl
    · rw [hexit]
      rfl
  have hback : s.completions.filter (fun o => o.process = s.ctx.threadIndexToProcess i) = [] := by
    rw [held] at hheld
    have hlength := congrArg List.length hheld
    rw [List.length_append, List.length_singleton] at hlength
    have hpos := List.length_pos_of_mem hmem
    rw [← List.length_eq_zero_iff]
    omega
  have hself : (update G (.finish thread answer) s).held thread (s.ctx.threadIndexToProcess i) =
      [answer] := by
    show (Function.update s.workers thread _ thread).ops ++ (s.completions ++ [answer]).filter _ = _
    rw [Function.update_self, hdone, List.filter_append, hback,
      List.filter_cons_of_pos (by simpa using hprocess.trans hop)]
    rfl
  have hother : ∀ {j : ℕ} {thread' : Name},
      s.ctx.translationTable.indexToName j = some thread' → j ≠ i →
      (update G (.finish thread answer) s).held thread' (s.ctx.threadIndexToProcess j) =
        s.held thread' (s.ctx.threadIndexToProcess j) := by
    intro j thread' hj hji
    have hne : thread' ≠ thread := h.name_inj hj hname hji
    have hp : answer.process ≠ s.ctx.threadIndexToProcess j := by
      rw [hprocess, hop]
      exact h.process_ne hi (TranslationTable.lt_of_indexToName hj) (Ne.symm hji)
    show (Function.update s.workers thread _ thread').ops ++
      (s.completions ++ [answer]).filter _ = _
    rw [Function.update_of_ne hne, List.filter_append, List.filter_cons_of_neg (by simpa using hp),
      List.filter_nil, List.append_nil]
    rfl
  refine ⟨h.table, h.ctx, ?_, ?_, ?_, h.counted, h.known, h.retired, h.indexed, h.opIndex, ?_,
    h.stopped⟩
  · intro j thread' hj
    have hslot := h.slots j thread' hj
    by_cases hji : j = i
    · rw [hji] at hj hslot ⊢
      have hsame : thread' = thread := Option.some.inj (hj.symm.trans hname)
      rw [hsame] at hslot ⊢
      constructor
      · intro hfree
        rw [show (update G (.finish thread answer) s).ctx.freeThreads i =
          s.ctx.freeThreads i from rfl, hbusy] at hfree
        cases hfree
      · intro _
        rcases hslot.busy hbusy with ⟨o', hheld', _, ph, hph, hopen, hready⟩
        have hsame' : o' = o := by
          rw [hheld] at hheld'
          exact (List.cons.inj hheld').1.symm
        rw [hsame'] at hopen hready
        exact ⟨answer, hself, hprocess.trans hop, ph, hph, fun hyes => hopen (hgoes ▸ hyes),
          fun hno => hready (hgoes ▸ hno)⟩
    · constructor
      · intro hfree
        have hidle := hslot.idle hfree
        exact ⟨(hother hj hji).trans hidle.1, hidle.2⟩
      · intro hfree
        rcases hslot.busy hfree with ⟨o', hheld', hrest⟩
        exact ⟨o', (hother hj hji).trans hheld', hrest⟩
  · intro thread' hnone
    have hne : thread' ≠ thread := by
      intro heq
      rw [heq] at hnone
      exact hnone i hname
    show (Function.update s.workers thread _ thread').ops = []
    rw [Function.update_of_ne hne]
    exact h.strangers thread' hnone
  · intro o' ho'
    rcases List.mem_append.mp ho' with hold | hnew
    · exact h.completing o' hold
    · rw [List.mem_singleton.mp hnew]
      exact ⟨⟨i, hi, hprocess.trans hop⟩, htype⟩
  · intro hrunning thread'
    have hexits := h.exits hrunning thread'
    show (Function.update s.workers thread _ thread').inbox ≠ some .exit ∧
      (Function.update s.workers thread _ thread').exited = false
    by_cases ht : thread' = thread
    · rw [ht] at hexits ⊢
      rw [Function.update_self]
      exact hexits
    · rw [Function.update_of_ne ht]
      exact hexits

/-! ## An operation comes back -/

/-- What is journaled. -/
theorem journal_cases (s : Interpreter γ α) (o : Operation α) :
    (goesInHistory o.type = true ∧ (s.journal o).history = s.history ++ [o] ∧
      (s.journal o).opIndex = s.opIndex + 1) ∨
    (goesInHistory o.type = false ∧ (s.journal o).history = s.history ∧
      (s.journal o).opIndex = s.opIndex) := by
  rw [journal]
  cases hgoes : goesInHistory o.type with
  | true => exact .inl ⟨rfl, rfl, rfl⟩
  | false => exact .inr ⟨rfl, rfl, rfl⟩

theorem mem_journal {o x : Operation α} (hx : x ∈ (s.journal o).history) :
    x ∈ s.history ∨ x = o := by
  rcases s.journal_cases o with ⟨_, hhistory, _⟩ | ⟨_, hhistory, _⟩
  · rw [hhistory] at hx
    rcases List.mem_append.mp hx with hold | hnew
    · exact .inl hold
    · exact .inr (List.mem_singleton.mp hnew)
  · rw [hhistory] at hx
    exact .inl hx

theorem phase_journal_ne {o : Operation α} {p : Name} (h : o.process ≠ p) :
    phase p (s.journal o).history = phase p s.history := by
  rcases s.journal_cases o with ⟨_, hhistory, _⟩ | ⟨_, hhistory, _⟩
  · rw [hhistory, phase_append_ne h]
  · rw [hhistory]

/-- Each entry has its index. -/
theorem Sound.journal_indexed (h : s.Sound n) {o : Operation α} (ho : o.index = s.opIndex) :
    (∀ (j : ℕ) x, (s.journal o).history[j]? = some x → x.index = j) ∧
      (s.journal o).opIndex = (s.journal o).history.length := by
  rcases s.journal_cases o with ⟨_, hhistory, hindex⟩ | ⟨_, hhistory, hindex⟩
  · rw [hhistory, hindex, List.length_append, List.length_singleton, h.opIndex]
    refine ⟨?_, rfl⟩
    intro j x hx
    rw [List.getElem?_append] at hx
    split at hx
    · exact h.indexed j x hx
    · next hge =>
        rcases List.getElem?_eq_some_iff.mp hx with ⟨hlt, hxo⟩
        rw [List.length_singleton] at hlt
        have hj : j = s.history.length := by omega
        rw [List.getElem_singleton] at hxo
        rw [← hxo, ho, h.opIndex, hj]
  · rw [hhistory, hindex]
    exact ⟨h.indexed, h.opIndex⟩

/-- Keywords are not crashed: of the threads with a process the nemesis is the one that is no
integer. -/
theorem Sound.endsProcess_eq (h : s.Sound n) {i : ℕ} {thread : Name} {o : Operation α}
    (hi : i < s.ctx.threadCount) (hname : s.ctx.translationTable.indexToName i = some thread)
    (hprocess : o.process = s.ctx.threadIndexToProcess i) :
    endsProcess thread o = o.crashes ∧
      (o.crashes = true → thread = .int i ∧ i < s.ctx.translationTable.intThreadCount) := by
  rw [endsProcess, Operation.crashes, hprocess]
  by_cases hint : i < s.ctx.translationTable.intThreadCount
  · rcases h.ctx.numbered i hint with ⟨k, hk⟩
    rw [TranslationTable.indexToName_int hint] at hname
    rw [hk, ← Option.some.inj hname]
    exact ⟨rfl, fun _ => ⟨rfl, hint⟩⟩
  · rcases h.ctx.keyword i hi (Nat.le_of_not_lt hint) with ⟨x, hx⟩
    have hthread : thread = nemesis := by
      rw [TranslationTable.indexToName, if_neg hint, h.table] at hname
      rcases Option.map_eq_some_iff.mp hname with ⟨y, hy, hthread⟩
      rw [List.getElem?_singleton] at hy
      split at hy
      · rw [← hthread, ← Option.some.inj hy]
        rfl
      · cases hy
    rw [hx, hthread]
    exact ⟨rfl, fun hcrash => by cases hcrash⟩

/-- The operation that comes back is the one its thread was busy with. -/
theorem Sound.back (h : s.Sound n) {o : Operation α} {rest : List (Operation α)}
    (hback : s.completions = o :: rest) : ∃ i thread, i < s.ctx.threadCount ∧
      s.ctx.translationTable.indexToName i = some thread ∧
      o.process = s.ctx.threadIndexToProcess i ∧ s.ctx.freeThreads i = false ∧
      (s.workers thread).ops = [] ∧
      rest.filter (fun o => o.process = s.ctx.threadIndexToProcess i) = [] := by
  have ho : o ∈ s.completions := by
    rw [hback]
    exact List.mem_cons_self
  rcases (h.completing o ho).1 with ⟨i, hi, hprocess⟩
  rcases TranslationTable.exists_indexToName hi with ⟨thread, hname⟩
  have hslot := h.slots i thread hname
  have hheld : s.held thread (s.ctx.threadIndexToProcess i) =
      (s.workers thread).ops ++
        o :: rest.filter fun o => o.process = s.ctx.threadIndexToProcess i := by
    rw [held, hback, List.filter_cons_of_pos (by simpa using hprocess)]
  cases hfree : s.ctx.freeThreads i with
  | true =>
      rw [(hslot.idle hfree).1] at hheld
      have hlength := congrArg List.length hheld
      simp only [List.length_nil, List.length_append, List.length_cons] at hlength
      omega
  | false =>
      rcases hslot.busy hfree with ⟨o', hone, _⟩
      rw [hone] at hheld
      have hlength := congrArg List.length hheld
      simp only [List.length_nil, List.length_append, List.length_cons] at hlength
      refine ⟨i, thread, hi, hname, hprocess, hfree, ?_, ?_⟩
      · rw [← List.length_eq_zero_iff]
        omega
      · rw [← List.length_eq_zero_iff]
        omega

theorem cardinality_le (bits : ℕ → Bool) (size : ℕ) : cardinality bits size ≤ size := by
  have hle := List.countP_le_length (p := bits) (l := List.range size)
  rw [List.length_range] at hle
  exact hle

/-- The round in which `o` comes back, given what becomes of the process of its thread. -/
theorem Sound.completed_of (h : s.Sound n) (hrunning : s.status = .running) {o : Operation α}
    {rest : List (Operation α)} (hback : s.completions = o :: rest) {i : ℕ} {thread : Name}
    (hi : i < s.ctx.threadCount) (hname : s.ctx.translationTable.indexToName i = some thread)
    (hprocess : o.process = s.ctx.threadIndexToProcess i) (hbusy : s.ctx.freeThreads i = false)
    (hops : (s.workers thread).ops = []) (o' : Operation α) (hindex : o'.index = s.opIndex)
    (ho' : o'.process = o.process) {ctx' : Context} {gen' : γ} {time : ℕ} (hctx : ctx'.Sound)
    (htable : ctx'.translationTable = s.ctx.translationTable)
    (hfree : ctx'.freeThreads = Function.update s.ctx.freeThreads i true)
    (hother : ∀ j, j ≠ i → ctx'.threadIndexToProcess j = s.ctx.threadIndexToProcess j)
    (hrest : rest.filter (fun o => o.process = ctx'.threadIndexToProcess i) = [])
    (hready : phase (ctx'.threadIndexToProcess i) (s.journal o').history = some .ready)
    (hgone : ctx'.threadIndexToProcess i = s.ctx.threadIndexToProcess i ∨
      ctx'.Retired (s.ctx.threadIndexToProcess i))
    (hkept : ∀ p, s.ctx.Retired p → ctx'.Retired p)
    (hretired : ∀ p, ctx'.Retired p → Closed p (s.journal o').history) :
    { s.journal o' with
      ctx := ctx', gen := gen', outstanding := s.outstanding - 1, completions := rest,
      clock := time }.Sound n := by
  have hcount : ctx'.threadCount = s.ctx.threadCount := by
    rw [Context.threadCount, htable]
    rfl
  have hworkers : (s.journal o').workers = s.workers := by
    rw [journal]
    split <;> rfl
  have hstatus : (s.journal o').status = s.status := by
    rw [journal]
    split <;> rfl
  have hrest_sub : ∀ x ∈ rest, x ∈ s.completions := by
    intro x hx
    rw [hback]
    exact List.mem_cons_of_mem _ hx
  have hcurrent : ∀ q, (∃ j < s.ctx.threadCount, q = s.ctx.threadIndexToProcess j) →
      (∃ j < ctx'.threadCount, q = ctx'.threadIndexToProcess j) ∨ ctx'.Retired q := by
    intro q hq
    rcases hq with ⟨j, hj, hqj⟩
    rw [hcount]
    by_cases hji : j = i
    · rw [hji] at hqj
      rcases hgone with hsame | hret
      · exact .inl ⟨i, hi, hqj.trans hsame.symm⟩
      · exact .inr (hqj ▸ hret)
    · exact .inl ⟨j, hj, hqj.trans (hother j hji).symm⟩
  refine ⟨htable.trans h.table, hctx, ?_, ?_, ?_, ?_, ?_, hretired, (h.journal_indexed hindex).1,
    (h.journal_indexed hindex).2, ?_, ?_⟩
  · intro j thread' hj
    rw [htable] at hj
    by_cases hji : j = i
    · rw [hji] at hj ⊢
      have hsame : thread' = thread := Option.some.inj (hj.symm.trans hname)
      constructor
      · intro _
        refine ⟨?_, hready⟩
        show ((s.journal o').workers thread').ops ++ rest.filter _ = []
        rw [hworkers, hsame, hops, hrest]
        rfl
      · intro hno
        change ctx'.freeThreads i = false at hno
        rw [hfree, Function.update_self] at hno
        cases hno
    · have hslot := h.slots j thread' hj
      have hjlt := TranslationTable.lt_of_indexToName hj
      have hp : o.process ≠ s.ctx.threadIndexToProcess j := by
        rw [hprocess]
        exact h.process_ne hi hjlt (Ne.symm hji)
      have hphase : phase (s.ctx.threadIndexToProcess j) (s.journal o').history =
          phase (s.ctx.threadIndexToProcess j) s.history := phase_journal_ne (ho' ▸ hp)
      have hheld : ((s.journal o').workers thread').ops ++
          rest.filter (fun o => o.process = s.ctx.threadIndexToProcess j) =
          s.held thread' (s.ctx.threadIndexToProcess j) := by
        rw [held, hback, List.filter_cons_of_neg (by simpa using hp), hworkers]
      constructor
      · intro hyes
        change ctx'.freeThreads j = true at hyes
        rw [hfree, Function.update_of_ne hji] at hyes
        show ((s.journal o').workers thread').ops ++ rest.filter _ = [] ∧ phase _ _ = _
        rw [hother j hji, hheld, hphase]
        exact hslot.idle hyes
      · intro hno
        change ctx'.freeThreads j = false at hno
        rw [hfree, Function.update_of_ne hji] at hno
        show ∃ x, ((s.journal o').workers thread').ops ++ rest.filter _ = [x] ∧ _ ∧
          ∃ ph, phase _ _ = some ph ∧ _
        rw [hother j hji, hheld, hphase]
        exact hslot.busy hno
  · intro thread' hnone
    show ((s.journal o').workers thread').ops = []
    rw [hworkers]
    exact h.strangers thread' fun j hj => hnone j (htable ▸ hj)
  · intro x hx
    rcases h.completing x (hrest_sub x hx) with ⟨⟨j, hj, hxj⟩, htype⟩
    have hji : j ≠ i := by
      intro hji
      rw [hji] at hxj
      -- nothing else of the thread was on its way
      have hmem : x ∈ s.held thread (s.ctx.threadIndexToProcess i) :=
        List.mem_append_right _ (List.mem_filter.mpr ⟨hrest_sub x hx, by simpa using hxj⟩)
      rcases (h.slots i thread hname).busy hbusy with ⟨y, hone, _⟩
      rw [held, hops, hback, List.filter_cons_of_pos (by simpa using hprocess),
        List.nil_append] at hone
      have hnil := (List.cons.inj hone).2
      have hin : x ∈ rest.filter fun o => o.process = s.ctx.threadIndexToProcess i :=
        List.mem_filter.mpr ⟨hx, by simpa using hxj⟩
      rw [hnil] at hin
      cases hin
    exact ⟨⟨j, hcount.symm ▸ hj, hxj.trans (hother j hji).symm⟩, htype⟩
  · show s.outstanding - 1 + cardinality ctx'.freeThreads ctx'.threadCount = ctx'.threadCount
    have hup : cardinality (Function.update s.ctx.freeThreads i true) s.ctx.threadCount + _ = _ :=
      cardinality_update hi true
    have hcounted := h.counted
    have hle := cardinality_le (Function.update s.ctx.freeThreads i true) s.ctx.threadCount
    rw [hbusy] at hup
    change cardinality (Function.update s.ctx.freeThreads i true) s.ctx.threadCount + 0 =
      cardinality s.ctx.freeThreads s.ctx.threadCount + 1 at hup
    rw [hfree, hcount]
    omega
  · intro x hx
    rcases mem_journal hx with hold | hnew
    · rcases h.known x hold with hcur | hret
      · exact hcurrent _ hcur
      · exact .inr (hkept _ hret)
    · rw [hnew, ho']
      exact hcurrent _ ⟨i, hi, hprocess⟩
  · intro _ thread'
    show ((s.journal o').workers thread').inbox ≠ _ ∧ ((s.journal o').workers thread').exited = _
    rw [hworkers]
    exact h.exits hrunning thread'
  · intro hno
    exact absurd (hstatus.trans hrunning) hno

/-- The entry closes what the process had open. -/
theorem Sound.phase_closed (h : s.Sound n) {o : Operation α} (o' : Operation α) (ho : o ∈ s.completions) {i : ℕ}
    {thread : Name} (hname : s.ctx.translationTable.indexToName i = some thread)
    (hprocess : o.process = s.ctx.threadIndexToProcess i) (hbusy : s.ctx.freeThreads i = false)
    (ho' : o'.process = o.process) (htype : o'.type = o.type) :
    Closed (s.ctx.threadIndexToProcess i) (s.journal o').history ∧
      (o'.crashes = false →
        phase (s.ctx.threadIndexToProcess i) (s.journal o').history = some .ready) := by
  rcases (h.slots i thread hname).busy hbusy with ⟨x, hheld, _, ph, hph, hopen, hready⟩
  have hx : x = o := by
    have hmem : o ∈ s.held thread (s.ctx.threadIndexToProcess i) :=
      List.mem_append_right _ (List.mem_filter.mpr ⟨ho, by simpa using hprocess⟩)
    rw [hheld, List.mem_singleton] at hmem
    exact hmem.symm
  rw [hx] at hopen hready
  rcases s.journal_cases o' with ⟨hgoes, hhistory, _⟩ | ⟨hgoes, hhistory, _⟩
  · -- a completion of what is open
    rw [htype] at hgoes
    rcases hopen hgoes with ⟨invocation, hinvocation⟩
    have hcompletion := (h.completing o ho).2 hgoes
    have hnext : phase (s.ctx.threadIndexToProcess i) (s.journal o').history =
        some (if o'.crashes then .crashed else .ready) := by
      rw [hhistory, phase_append_self (ho'.trans hprocess), hph, hinvocation]
      show (Phase.open invocation).next o' = _
      rw [Phase.next, htype, if_pos hcompletion]
    rw [Closed, hnext]
    cases o'.crashes with
    | true => exact ⟨.inr rfl, fun hno => by cases hno⟩
    | false => exact ⟨.inl rfl, fun _ => rfl⟩
  · rw [htype] at hgoes
    rw [hready hgoes] at hph
    rw [Closed, hhistory]
    exact ⟨.inl hph, fun _ => hph⟩

/-- The loop takes a completion: its thread is free again, with the next process after a crash. -/
theorem Sound.complete (h : s.Sound n) {time : ℕ} (hg : guard G (.complete time) s) :
    (update G (.complete time) s).Sound n := by
  rcases hg with ⟨hrunning, _, hsome⟩
  cases hback : s.completions with
  | nil => exact absurd hback hsome
  | cons o rest =>
      rcases h.back hback with ⟨i, thread, hi, hname, hprocess, hbusy, hops, hrest⟩
      have ho : o ∈ s.completions := by
        rw [hback]
        exact List.mem_cons_self
      have hthread : s.ctx.processToThread o.process = some thread := by
        rw [hprocess, h.ctx.executes i hi, hname]
      have hupdate : update G (.complete time) s = s.completed G o rest time thread := by
        simp only [update, hback, hthread]
      have hindex : s.ctx.translationTable.nameToIndex thread = i :=
        TranslationTable.nameToIndex_of_indexToName h.ctx.named hname
      have hfreed : (s.ctx.freeThread time thread).Sound :=
        h.ctx.freeThread time (by rw [hindex]; exact hi)
      have hfree : (s.ctx.freeThread time thread).freeThreads =
          Function.update s.ctx.freeThreads i true := by
        rw [← hindex]
        rfl
      have hends := h.endsProcess_eq (o := { s.stamp o with time := time }) hi hname hprocess
      have hclosed := h.phase_closed { s.stamp o with time := time } ho hname hprocess hbusy rfl
        rfl
      rw [hupdate, completed, hends.1]
      rcases hclosed with ⟨hph, hready⟩
      -- what is retired is not the process of the thread
      have hold : ∀ p, s.ctx.Retired p →
          Closed p (s.journal { s.stamp o with time := time }).history := by
        intro p hp
        have hne : o.process ≠ p := by
          intro heq
          rw [← heq] at hp
          rw [hp.processToThread h.ctx] at hthread
          cases hthread
        rw [Closed, phase_journal_ne (o := { s.stamp o with time := time }) hne]
        exact h.retired p hp
      cases hcrash : Operation.crashes { s.stamp o with time := time } with
      | false =>
          exact h.completed_of hrunning hback hi hname hprocess hbusy hops
            { s.stamp o with time := time } rfl rfl hfreed rfl hfree (fun _ _ => rfl) hrest
            (hready hcrash) (.inl rfl) (fun _ hp => hp) hold
      | true =>
          rcases hends.2 hcrash with ⟨hint, hlt⟩
          have hnew : ((s.ctx.freeThread time thread).withNextProcess thread).threadIndexToProcess i =
              s.ctx.nextProcess (s.ctx.threadIndexToProcess i) := by
            rw [hint]
            exact Function.update_self ..
          rw [hint] at hnew hfreed hfree ⊢
          rw [if_pos rfl]
          refine h.completed_of hrunning hback hi hname hprocess hbusy hops
            { s.stamp o with time := time } rfl rfl (hfreed.withNextProcess hlt) rfl hfree (fun j hj => Function.update_of_ne hj ..) ?_ ?_
            (.inr (hfreed.retired hlt)) (fun p hp => Context.Retired.withNextProcess hp) ?_
          · rw [hnew, List.filter_eq_nil_iff]
            intro x hx
            rcases (h.completing x (by rw [hback]; exact List.mem_cons_of_mem _ hx)).1 with
              ⟨j, hj, hxj⟩
            rw [decide_eq_true_eq, hxj]
            exact h.ctx.nextProcess_fresh hlt hj
          · rw [hnew]
            refine phase_of_not_mem fun x hx => ?_
            rcases mem_journal hx with hmem | hmem
            · rcases h.known x hmem with ⟨j, hj, hxj⟩ | hret
              · rw [hxj]
                exact h.ctx.nextProcess_fresh hlt hj
              · intro heq
                rw [heq] at hret
                exact h.ctx.not_retired_nextProcess hlt hret
            · rw [hmem]
              show o.process ≠ _
              rw [hprocess]
              exact h.ctx.nextProcess_fresh hlt hi
          · intro p hp
            rcases hfreed.of_retired_withNextProcess hlt hp with hret | hgone
            · exact hold p hret
            · rw [hgone]
              exact hph

/-! ## The generator is asked -/

/-- The clock goes on. -/
theorem Sound.later (h : s.Sound n) (time : ℕ) :
    { s with ctx := { s.ctx with time := time }, clock := time }.Sound n := by
  refine ⟨h.table, h.ctx.withTime time, ?_, h.strangers, h.completing, h.counted, h.known,
    h.retired, h.indexed, h.opIndex, h.exits, h.stopped⟩
  intro i thread hi
  have hslot := h.slots i thread hi
  exact ⟨hslot.idle, hslot.busy⟩

/-- What is dispatched goes to a free thread. -/
theorem verdict_eq_dispatch {time : ℕ} {draws : Draws} {o : Operation α} {gen' : γ}
    (h : s.verdict G time draws = .dispatch o gen') :
    validate { s.ctx with time := time } o = true ∧ o.time ≤ time ∧
      G.op s.gen { s.ctx with time := time } draws = some (.op o, gen') := by
  rw [verdict] at h
  split at h
  · cases h
  · cases h
  · next o' gen'' heq =>
      split at h
      · next hvalid =>
          split at h
          · cases h
          · next hnow =>
              rcases Verdict.dispatch.inj h with ⟨ho, hgen⟩
              rw [← ho, ← hgen]
              exact ⟨hvalid, Nat.le_of_not_lt hnow, heq⟩
      · cases h

/-- What passes the validation is an operation of a free thread. -/
theorem validate_eq_true {ctx : Context} {o : Operation α} (h : validate ctx o = true) :
    (o.type = .invoke ∨ o.type = .info ∨ o.type = .sleep ∨ o.type = .log) ∧
      ctx.threadFree (ctx.processToThread o.process) = true := by
  rw [validate, Bool.and_eq_true] at h
  refine ⟨?_, h.2⟩
  have htype := h.1
  simp only [Bool.or_eq_true, beq_iff_eq] at htype
  tauto

/-- The loop gives a free worker its operation, and its process opens it in the history. -/
theorem Sound.dispatch (h : s.Sound n) (hrunning : s.status = .running)
    (hnone : s.completions = []) {o : Operation α} {gen' : γ} {thread : Name}
    (htype : o.type = .invoke ∨ o.type = .info ∨ o.type = .sleep ∨ o.type = .log)
    (hthread : s.ctx.processToThread o.process = some thread)
    (hfree : s.ctx.threadFree (some thread) = true) : (s.dispatch G o gen' thread).Sound n := by
  rcases h.ctx.thread hthread with ⟨hi, hname, hprocess⟩
  generalize hindex : s.ctx.translationTable.nameToIndex thread = i at hi hname
  have hprocess' : o.process = s.ctx.threadIndexToProcess i := by
    rw [← hprocess, Context.threadToProcess, hindex]
  have hidle : s.ctx.freeThreads i = true := by
    rw [← hindex]
    exact hfree
  -- its slot was idle: the worker has nothing, and the process is ready
  rcases (h.slots i thread hname).idle hidle with ⟨hheld, hready⟩
  have hops : (s.workers thread).ops = [] := (List.append_eq_nil_iff.mp hheld).1
  have hcurrent : (s.workers thread).current = none := by
    rw [Worker.ops] at hops
    exact Option.toList_eq_nil_iff.mp (List.append_eq_nil_iff.mp hops).2
  have hsame : ∀ q, o.process ≠ q → phase q (s.journal (s.stamp o)).history = phase q s.history :=
    fun q hq => phase_journal_ne hq
  have hstatus : (s.journal (s.stamp o)).status = s.status := by
    rw [journal]
    split <;> rfl
  have hback : (s.journal (s.stamp o)).completions = [] := by
    rw [journal]
    split
    · exact hnone
    · exact hnone
  have hworkers : (s.journal (s.stamp o)).workers = s.workers := by
    rw [journal]
    split <;> rfl
  have hnow : (s.dispatch G o gen' thread).workers =
      Function.update s.workers thread { s.workers thread with inbox := some (.op (s.stamp o)) } := by
    show Function.update (s.journal (s.stamp o)).workers thread _ = _
    rw [hworkers]
  have hbits : (s.dispatch G o gen' thread).ctx.freeThreads =
      Function.update s.ctx.freeThreads i false := by
    rw [← hindex]
    rfl
  refine ⟨h.table, h.ctx.busyThread _ thread, ?_, ?_, ?_, ?_, ?_, ?_,
    (h.journal_indexed rfl).1, (h.journal_indexed rfl).2, ?_, ?_⟩
  -- the slots: this thread has the operation now, the others are as they were
  · intro j thread' hj
    have hslot := h.slots j thread' hj
    by_cases hji : j = i
    · rw [hji] at hj ⊢
      have hthread' : thread' = thread := Option.some.inj (hj.symm.trans hname)
      rw [hthread']
      constructor
      · intro hyes
        rw [hbits, Function.update_self] at hyes
        cases hyes
      · intro _
        refine ⟨s.stamp o, ?_, hprocess', ?_⟩
        · show ((s.dispatch G o gen' thread).workers thread).ops ++
            (s.journal (s.stamp o)).completions.filter _ = [s.stamp o]
          rw [hnow, Function.update_self, hback, Worker.ops, hcurrent]
          rfl
        · show ∃ ph, phase (s.ctx.threadIndexToProcess i) (s.journal (s.stamp o)).history =
            some ph ∧ _
          rcases s.journal_cases (s.stamp o) with ⟨hgoes, hhistory, _⟩ | ⟨hgoes, hhistory, _⟩
          · -- an invocation
            have hinvoke : o.type = .invoke ∨ o.type = .info := by
              change goesInHistory o.type = true at hgoes
              rcases htype with htype | htype | htype | htype
              · exact .inl htype
              · exact .inr htype
              · rw [htype] at hgoes
                cases hgoes
              · rw [htype] at hgoes
                cases hgoes
            refine ⟨.open (s.stamp o), ?_, fun _ => ⟨_, rfl⟩, ?_⟩
            · rw [hhistory, phase_append_self (o := s.stamp o) hprocess', hready]
              exact if_pos hinvoke
            · intro hno
              rw [hgoes] at hno
              cases hno
          · refine ⟨.ready, by rw [hhistory, hready], ?_, fun _ => rfl⟩
            intro hyes
            rw [hgoes] at hyes
            cases hyes
    · have hne : thread' ≠ thread := h.name_inj hj hname hji
      have hp : o.process ≠ s.ctx.threadIndexToProcess j := by
        rw [hprocess']
        exact h.process_ne hi (TranslationTable.lt_of_indexToName hj) (Ne.symm hji)
      have hheld' : (s.dispatch G o gen' thread).held thread' (s.ctx.threadIndexToProcess j) =
          s.held thread' (s.ctx.threadIndexToProcess j) := by
        show ((s.dispatch G o gen' thread).workers thread').ops ++
          (s.journal (s.stamp o)).completions.filter _ = _
        rw [hnow, Function.update_of_ne hne, hback, held, hnone]
      constructor
      · intro hyes
        rw [hbits, Function.update_of_ne hji] at hyes
        have hold := hslot.idle hyes
        exact ⟨hheld'.trans hold.1, (hsame _ hp).trans hold.2⟩
      · intro hno
        rw [hbits, Function.update_of_ne hji] at hno
        rcases hslot.busy hno with ⟨x, hx, hxp, ph, hph, hrest⟩
        exact ⟨x, hheld'.trans hx, hxp, ph, (hsame _ hp).trans hph, hrest⟩
  -- threads that are none
  · intro thread' hno
    have hne : thread' ≠ thread := by
      intro heq
      rw [heq] at hno
      exact hno i hname
    rw [hnow, Function.update_of_ne hne]
    exact h.strangers thread' hno
  -- nothing is on its way back, or there would have been no round
  · intro x hx
    change x ∈ (s.journal (s.stamp o)).completions at hx
    rw [hback] at hx
    cases hx
  -- one is out more, and one thread is free less
  · show s.outstanding + 1 + cardinality (s.dispatch G o gen' thread).ctx.freeThreads
      s.ctx.threadCount = s.ctx.threadCount
    have hdown : cardinality (Function.update s.ctx.freeThreads i false) s.ctx.threadCount + _ = _ :=
      cardinality_update hi false
    have hcounted := h.counted
    rw [hidle] at hdown
    change cardinality (Function.update s.ctx.freeThreads i false) s.ctx.threadCount + 1 =
      cardinality s.ctx.freeThreads s.ctx.threadCount + 0 at hdown
    rw [hbits]
    omega
  · intro x hx
    rcases mem_journal hx with hold | hnew
    · exact h.known x hold
    · rw [hnew]
      exact .inl ⟨i, hi, hprocess'⟩
  -- a process that is retired is executed by no thread, so it is not this one
  · intro p hp
    have hne : o.process ≠ p := by
      intro heq
      have hp' : s.ctx.Retired p := hp
      rw [← heq] at hp'
      rw [hp'.processToThread h.ctx] at hthread
      cases hthread
    show Closed p (s.journal (s.stamp o)).history
    rw [Closed, hsame p hne]
    exact h.retired p hp
  -- no worker has been told to exit
  · intro _ thread'
    have hexits := h.exits hrunning thread'
    rw [hnow]
    by_cases ht : thread' = thread
    · rw [ht] at hexits ⊢
      rw [Function.update_self]
      exact ⟨fun heq => (by cases heq), hexits.2⟩
    · rw [Function.update_of_ne ht]
      exact hexits
  · intro hno
    exact absurd (hstatus.trans hrunning) hno

/-- A round of the loop that throws nothing keeps the invariant. -/
theorem Sound.ask (h : s.Sound n) {time : ℕ} {draws : Draws} (hg : guard G (.ask time draws) s)
    (hsafe : (update G (.ask time draws) s).status ≠ .thrown) :
    (update G (.ask time draws) s).Sound n := by
  rcases hg with ⟨hrunning, _, hnone, hroom⟩
  change (s.asked G time draws).Sound n
  change (s.asked G time draws).status ≠ .thrown at hsafe
  have hlater := h.later time
  rw [asked] at hsafe ⊢
  rw [Room] at hroom
  cases hverdict : s.verdict G time draws with
  | exhausted =>
      rw [hverdict] at hroom
      by_cases hout : 0 < s.outstanding
      · simp only [if_pos hout]
        exact hlater
      · simp only [if_neg hout]
        have hzero : s.outstanding = 0 := by omega
        refine hlater.workers ?_ (fun hstopping => by cases hstopping) fun _ => hzero
        intro thread
        show (tellExit (s.workers thread)).ops = (s.workers thread).ops
        rw [tellExit, Worker.ops, Worker.ops, hroom hzero thread]
  | pending => exact hlater
  | wait => exact hlater
  | invalid =>
      rw [hverdict] at hsafe
      exact absurd rfl hsafe
  | dispatch o gen' =>
      rw [hverdict] at hsafe
      dsimp only at hsafe ⊢
      rcases verdict_eq_dispatch hverdict with ⟨hvalid, _, _⟩
      rcases validate_eq_true hvalid with ⟨htype, hfree⟩
      cases hthread : s.ctx.processToThread o.process with
      | none =>
          rw [hthread] at hsafe
          exact absurd rfl hsafe
      | some thread =>
          have hfree' : s.ctx.threadFree (some thread) = true := by
            rw [← hthread]
            exact hfree
          exact hlater.dispatch hrunning hnone htype hthread hfree'

/-- Each step that throws nothing keeps the interpreter sound. -/
theorem Sound.update (h : s.Sound n) {l : RunStep α} (hg : guard G l s)
    (hsafe : (update G l s).status ≠ .thrown) : (update G l s).Sound n := by
  cases l with
  | complete time => exact h.complete hg
  | ask time draws => exact h.ask hg hsafe
  | take thread => exact h.take hg
  | finish thread answer => exact h.finish hg
  | join =>
      refine h.workers (fun _ => rfl) (fun hreturned => by cases hreturned) fun _ => ?_
      refine h.stopped ?_
      rw [hg.1]
      exact fun heq => by cases heq

/-- An exception ends the run. -/
theorem not_thrown_of_guard {l : RunStep α} (hg : guard G l s) : s.status ≠ .thrown := by
  have hof : ∀ status : RunStatus, s.status = status → status ≠ .thrown → s.status ≠ .thrown := by
    intro status hstatus hne
    rw [hstatus]
    exact hne
  cases l with
  | complete time => exact hof _ hg.1 (by decide)
  | ask time draws => exact hof _ hg.1 (by decide)
  | take thread => exact hg.2.2.2
  | finish thread answer => exact hg.2.2
  | join => exact hof _ hg.1 (by decide)

/-- Every run that has thrown nothing is sound. -/
theorem sound_reachable {gen : γ} (hr : (interpreter G n gen).Reachable s)
    (hsafe : s.status ≠ .thrown) : s.Sound n := by
  refine (interpreter G n gen).invariant (fun s => s.status ≠ .thrown → s.Sound n) ?_ ?_ s hr hsafe
  · intro s hs _
    rw [hs]
    exact sound_start n gen
  · intro l s _ hg h hsafe'
    exact (h (not_thrown_of_guard hg)).update hg hsafe'

/-! ## The history -/

/-- The entries of every process take turns. -/
theorem Sound.exists_phase (h : s.Sound n) (p : Name) : ∃ ph, phase p s.history = some ph := by
  by_cases hcurrent : ∃ i < s.ctx.threadCount, p = s.ctx.threadIndexToProcess i
  · rcases hcurrent with ⟨i, hi, hp⟩
    rcases TranslationTable.exists_indexToName hi with ⟨thread, hname⟩
    have hslot := h.slots i thread hname
    rw [hp]
    cases hfree : s.ctx.freeThreads i with
    | true => exact ⟨.ready, (hslot.idle hfree).2⟩
    | false =>
        rcases hslot.busy hfree with ⟨_, _, _, ph, hph, _⟩
        exact ⟨ph, hph⟩
  · by_cases hretired : s.ctx.Retired p
    · rcases h.retired p hretired with hready | hcrashed
      · exact ⟨.ready, hready⟩
      · exact ⟨.crashed, hcrashed⟩
    · refine ⟨.ready, phase_of_not_mem fun o ho heq => ?_⟩
      rcases h.known o ho with hcur | hret
      · exact hcurrent (heq ▸ hcur)
      · exact hretired (heq ▸ hret)

/-- With nothing out every thread is free. -/
theorem Sound.all_free (h : s.Sound n) (hzero : s.outstanding = 0) {i : ℕ}
    (hi : i < s.ctx.threadCount) : s.ctx.freeThreads i = true := by
  have hcounted := h.counted
  have hlength : (List.range s.ctx.threadCount).countP s.ctx.freeThreads =
      (List.range s.ctx.threadCount).length := by
    rw [List.length_range]
    show cardinality s.ctx.freeThreads s.ctx.threadCount = s.ctx.threadCount
    omega
  exact List.countP_eq_length.mp hlength i (List.mem_range.mpr hi)

/-- With nothing outstanding no process has anything open. -/
theorem Sound.closed (h : s.Sound n) (hzero : s.outstanding = 0) (p : Name) :
    Closed p s.history := by
  by_cases hcurrent : ∃ i < s.ctx.threadCount, p = s.ctx.threadIndexToProcess i
  · rcases hcurrent with ⟨i, hi, hp⟩
    rcases TranslationTable.exists_indexToName hi with ⟨thread, hname⟩
    rw [hp]
    exact .inl ((h.slots i thread hname).idle (h.all_free hzero hi)).2
  · by_cases hretired : s.ctx.Retired p
    · exact h.retired p hretired
    · left
      refine phase_of_not_mem fun o ho heq => ?_
      rcases h.known o ho with hcur | hret
      · exact hcurrent (heq ▸ hcur)
      · exact hretired (heq ▸ hret)

/-- In the history of a run every entry has its index, the entries of each process are
invocations and completions in turn, with none after a crash, and once the workers have been
told to exit every invocation has its completion. -/
theorem history_takes_turns (G : Generator γ α) (n : ℕ) (gen : γ) :
    ∀ s, (interpreter G n gen).Reachable s → s.status ≠ .thrown →
      (∀ (j : ℕ) o, s.history[j]? = some o → o.index = j) ∧
      (∀ p, ∃ ph, phase p s.history = some ph) ∧
      (s.status ≠ .running → ∀ p, Closed p s.history) := by
  intro s hr hsafe
  have h := sound_reachable hr hsafe
  exact ⟨h.indexed, h.exists_phase, fun hstopped => h.closed (h.stopped hstopped)⟩

/-! ## The queues -/

/-- A thread has one operation at most. -/
theorem Sound.held_length_le (h : s.Sound n) {i : ℕ} {thread : Name}
    (hname : s.ctx.translationTable.indexToName i = some thread) :
    (s.held thread (s.ctx.threadIndexToProcess i)).length ≤ 1 := by
  have hslot := h.slots i thread hname
  cases hfree : s.ctx.freeThreads i with
  | true =>
      rw [(hslot.idle hfree).1]
      exact Nat.zero_le 1
  | false =>
      rcases hslot.busy hfree with ⟨o, hheld, _⟩
      rw [hheld]
      exact Nat.le_refl 1

/-- No two operations of a process are on their way back. -/
theorem Sound.completions_nodup (h : s.Sound n) : (s.completions.map Operation.process).Nodup := by
  rw [List.nodup_iff_count_le_one]
  intro p
  rw [List.count_eq_countP, List.countP_map, List.countP_eq_length_filter]
  have hfilter : s.completions.filter ((fun x => x == p) ∘ Operation.process) =
      s.completions.filter fun o => o.process = p := List.filter_congr fun _ _ => rfl
  rw [hfilter]
  by_cases hcurrent : ∃ i < s.ctx.threadCount, p = s.ctx.threadIndexToProcess i
  · rcases hcurrent with ⟨i, hi, hp⟩
    rcases TranslationTable.exists_indexToName hi with ⟨thread, hname⟩
    have hle := h.held_length_le hname
    rw [held, List.length_append, ← hp] at hle
    omega
  · have hnone : s.completions.filter (fun o => o.process = p) = [] := by
      rw [List.filter_eq_nil_iff]
      intro o ho hop
      rcases (h.completing o ho).1 with ⟨i, hi, hprocess⟩
      rw [decide_eq_true_eq] at hop
      exact hcurrent ⟨i, hi, hop.symm.trans hprocess⟩
    rw [hnone]
    exact Nat.zero_le 1

/-- While a worker is busy there is room for its answer: each of the others has put in one at
most. -/
theorem Sound.length_completions_lt (h : s.Sound n) {thread : Name} {o : Operation α}
    (ho : o ∈ (s.workers thread).ops) : s.completions.length < s.ctx.threadCount := by
  rcases h.thread_of_ops ho with ⟨i, hi, hname, _, hheld, _⟩
  have hnot : s.completions.filter (fun o => o.process = s.ctx.threadIndexToProcess i) = [] := by
    have hlength := congrArg List.length hheld
    rw [held, List.length_append, List.length_singleton] at hlength
    have hpos := List.length_pos_of_mem ho
    rw [← List.length_eq_zero_iff]
    omega
  have hsub : s.completions.map Operation.process ⊆
      ((List.range s.ctx.threadCount).erase i).map s.ctx.threadIndexToProcess := by
    intro p hp
    rcases List.mem_map.mp hp with ⟨x, hx, hxp⟩
    rcases (h.completing x hx).1 with ⟨j, hj, hprocess⟩
    have hji : j ≠ i := by
      intro hji
      rw [hji] at hprocess
      have hin : x ∈ s.completions.filter fun o => o.process = s.ctx.threadIndexToProcess i :=
        List.mem_filter.mpr ⟨hx, by simpa using hprocess⟩
      rw [hnot] at hin
      cases hin
    refine List.mem_map.mpr ⟨j, ?_, hprocess.symm.trans hxp⟩
    exact (List.mem_erase_of_ne hji).mpr (List.mem_range.mpr hj)
  have hle := (h.completions_nodup.subperm hsub).length_le
  rw [List.length_map, List.length_map,
    List.length_erase_of_mem (List.mem_range.mpr hi), List.length_range] at hle
  omega

/-- In the loop the queue of an idle worker is empty. -/
theorem Sound.inbox_of_idle (h : s.Sound n) (hrunning : s.status = .running) {thread : Name}
    (hops : (s.workers thread).ops = []) : (s.workers thread).inbox = none := by
  cases hinbox : (s.workers thread).inbox with
  | none => rfl
  | some msg =>
      cases msg with
      | exit => exact absurd hinbox (h.exits hrunning thread).1
      | op o =>
          rw [Worker.ops, hinbox] at hops
          cases hops

/-- What a round puts into a queue finds it empty. -/
theorem Sound.room (h : s.Sound n) (hrunning : s.status = .running) (time : ℕ) (draws : Draws) :
    s.Room G time draws := by
  rw [Room]
  split
  · -- nothing is outstanding, so all workers are idle
    intro hzero thread
    refine h.inbox_of_idle hrunning ?_
    by_cases hknown : ∃ i, s.ctx.translationTable.indexToName i = some thread
    · rcases hknown with ⟨i, hi⟩
      have hfree := h.all_free hzero (TranslationTable.lt_of_indexToName hi)
      exact (List.append_eq_nil_iff.mp ((h.slots i thread hi).idle hfree).1).1
    · exact h.strangers thread fun i hi => hknown ⟨i, hi⟩
  · next o gen' hverdict =>
      intro thread hthread
      rcases validate_eq_true (verdict_eq_dispatch hverdict).1 with ⟨_, hfree⟩
      rcases h.ctx.thread hthread with ⟨_, hname, _⟩
      have hfree' : s.ctx.freeThreads (s.ctx.translationTable.nameToIndex thread) = true := by
        change s.ctx.threadFree (s.ctx.processToThread o.process) = true at hfree
        rw [hthread] at hfree
        exact hfree
      refine h.inbox_of_idle hrunning ?_
      exact (List.append_eq_nil_iff.mp ((h.slots _ thread hname).idle hfree').1).1
  · trivial

/-- No queue is ever waited for: the loop can always go round, whatever the clock shows and
the generator wants, and a worker with an operation can take it or answer it. -/
theorem queues_never_block (G : Generator γ α) (n : ℕ) (gen : γ) :
    ∀ s, (interpreter G n gen).Reachable s → s.status = .running →
      (∀ time draws, s.clock ≤ time →
        guard G (.complete time) s ∨ guard G (.ask time draws) s) ∧
      (∀ thread o, o ∈ (s.workers thread).ops → guard G (.take thread) s ∨
        ∀ answer, Answers o answer → guard G (.finish thread answer) s) ∧
      s.outstanding + s.ctx.freeThreadCount = s.ctx.threadCount := by
  intro s hr hrunning
  have hsafe : s.status ≠ .thrown := by
    rw [hrunning]
    exact fun heq => by cases heq
  have h := sound_reachable hr hsafe
  refine ⟨?_, ?_, h.counted⟩
  · intro time draws htime
    -- a round takes a completion if there is one, and asks the generator otherwise
    by_cases hnone : s.completions = []
    · exact .inr ⟨hrunning, htime, hnone, h.room hrunning time draws⟩
    · exact .inl ⟨hrunning, htime, hnone⟩
  · intro thread o ho
    rcases h.thread_of_ops ho with ⟨i, hi, hname, _, hheld, _⟩
    -- the worker has this operation and no other
    have hone : (s.workers thread).ops.length ≤ 1 := by
      have hle := h.held_length_le hname
      rw [held, List.length_append] at hle
      omega
    cases hcurrent : (s.workers thread).current with
    | some x =>
        right
        intro answer hanswer
        have hx : x ∈ (s.workers thread).ops := by
          rw [Worker.ops, hcurrent]
          exact List.mem_append_right _ List.mem_cons_self
        have hsame : x = o := by
          rcases List.length_eq_one_iff.mp
            (Nat.le_antisymm hone (List.length_pos_of_mem ho)) with ⟨y, hy⟩
          rw [hy, List.mem_singleton] at hx ho
          rw [hx, ho]
        rw [← hsame] at hanswer
        exact ⟨⟨x, Option.mem_def.mpr hcurrent, hanswer⟩, h.length_completions_lt ho, hsafe⟩
    | none =>
        left
        refine ⟨?_, hcurrent, (h.exits hrunning thread).2, hsafe⟩
        intro hinbox
        rw [Worker.ops, hinbox, hcurrent] at ho
        cases ho

/-- What is enabled with unbounded queues is enabled with the bounds. -/
theorem guard_of_enabled {gen : γ} (hr : (interpreter G n gen).Reachable s) {l : RunStep α}
    (hg : enabled l s) : guard G l s := by
  cases l with
  | complete time => exact hg
  | ask time draws =>
      have hsafe : s.status ≠ .thrown := by
        rw [hg.1]
        exact fun heq => by cases heq
      exact ⟨hg.1, hg.2.1, hg.2.2, (sound_reachable hr hsafe).room hg.1 time draws⟩
  | take thread => exact hg
  | finish thread answer =>
      rcases hg with ⟨⟨o, ho, hanswers⟩, hsafe⟩
      have hmem : o ∈ (s.workers thread).ops := by
        rw [Worker.ops, Option.mem_def.mp ho]
        exact List.mem_append_right _ List.mem_cons_self
      exact ⟨⟨o, ho, hanswers⟩, (sound_reachable hr hsafe).length_completions_lt hmem, hsafe⟩
  | join => exact hg

/-- The bounds of the queues change nothing. -/
theorem reachable_iff_unbounded {gen : γ} : (interpreter G n gen).Reachable s ↔
    (unboundedInterpreter G n gen).Reachable s := by
  constructor
  · intro hr
    refine (interpreter G n gen).invariant (unboundedInterpreter G n gen).Reachable
      (fun s hs => .start hs) ?_ s hr
    intro l s _ hg h
    refine .step l h ?_
    cases l with
    | complete time => exact hg
    | ask time draws => exact ⟨hg.1, hg.2.1, hg.2.2.1⟩
    | take thread => exact hg
    | finish thread answer => exact ⟨hg.1, hg.2.2⟩
    | join => exact hg
  · intro hr
    refine (unboundedInterpreter G n gen).invariant (interpreter G n gen).Reachable
      (fun s hs => .start hs) ?_ s hr
    intro l s _ hg h
    exact .step l h (guard_of_enabled h hg)

/-- Without bounds on the queues the runs are the same, too. -/
theorem valid_of_unbounded {gen : γ} (hr : (interpreter G n gen).Reachable s)
    {ls : List (RunStep α)} (h : (unboundedInterpreter G n gen).Valid s ls) :
    (interpreter G n gen).Valid s ls := by
  induction ls generalizing s with
  | nil => trivial
  | cons l ls ih =>
      have hg := guard_of_enabled hr h.1
      exact ⟨hg, ih (hr.step l hg) h.2⟩

end

/-! ## One operation that crashes, and one more -/

def onePing : OpMap Unit := ⟨none, none, none, (), false⟩

/-- Two operations, for one thread and the nemesis. -/
def twoPings : Gen Unit := .cons (.map onePing) (.single (.map onePing))

def ping (index : ℤ) (time : ℕ) (type : OperationType) (process : Name) : Operation Unit :=
  ⟨index, time, type, process, (), false⟩

def pingRun : List (RunStep Unit) :=
  [.ask 5 [], .take (.int 0), .finish (.int 0) (ping 0 5 .info (.int 0)), .complete 6,
    .ask 7 [], .take nemesis, .finish nemesis (ping 2 7 .ok nemesis), .complete 8, .ask 9 []]

def pingMachine : Machine (Interpreter (Gen Unit) Unit) (RunStep Unit) :=
  unboundedInterpreter (Gen.generator Unit) 1 twoPings

instance (l : RunStep Unit) (s : Interpreter (Gen Unit) Unit) : Decidable (pingMachine.guard l s) :=
  decidableEnabled l s

theorem ping_reachable {ls : List (RunStep Unit)}
    (h : pingMachine.Valid (.start 1 twoPings) ls) :
    (interpreter (Gen.generator Unit) 1 twoPings).Reachable
      (pingMachine.after (.start 1 twoPings) ls) :=
  reachable_iff_unbounded.mpr (pingMachine.reachable_after ls (.start rfl) h)

theorem pingRun_valid : pingMachine.Valid (.start 1 twoPings) pingRun := by decide +kernel

/-- All workers have been told to exit, and every invocation has its completion. -/
theorem history_takes_turns_ping :
    let s := pingMachine.after (.start 1 twoPings) pingRun
    s.status = .stopping ∧ s.history.length = 4 ∧
      (∀ (j : ℕ) o, s.history[j]? = some o → o.index = j) ∧
      (∀ p, ∃ ph, phase p s.history = some ph) ∧ ∀ p, Closed p s.history := by
  intro s
  have hstatus : s.status = .stopping := by decide +kernel
  have hlength : s.history.length = 4 := by decide +kernel
  have hsafe : s.status ≠ .thrown := by
    rw [hstatus]
    exact fun heq => by cases heq
  have h := history_takes_turns (Gen.generator Unit) 1 twoPings s (ping_reachable pingRun_valid)
    hsafe
  refine ⟨hstatus, hlength, h.1, h.2.1, h.2.2 ?_⟩
  rw [hstatus]
  exact fun heq => by cases heq

/-- With the first operation on its way to its worker. -/
theorem queues_never_block_ping :
    let s := pingMachine.after (.start 1 twoPings) (pingRun.take 1)
    s.outstanding = 1 ∧ s.ctx.freeThreadCount = 1 ∧
      (guard (Gen.generator Unit) (.complete 6) s ∨ guard (Gen.generator Unit) (.ask 6 []) s) := by
  intro s
  have hvalid : pingMachine.Valid (.start 1 twoPings) (pingRun.take 1) := by decide +kernel
  have hstatus : s.status = .running := by decide +kernel
  have houtstanding : s.outstanding = 1 := by decide +kernel
  have hclock : s.clock ≤ 6 := by decide +kernel
  have hthreads : s.ctx.threadCount = 2 := by decide +kernel
  have h := queues_never_block (Gen.generator Unit) 1 twoPings s (ping_reachable hvalid) hstatus
  have hcount := h.2.2
  exact ⟨houtstanding, by omega, h.1 6 [] hclock⟩

end Interpreter

end Jepsen

end OmnipaxosKv
