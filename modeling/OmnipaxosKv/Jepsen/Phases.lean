import OmnipaxosKv.Jepsen.Plan

/-! # Phases

`phases` runs generators one after the other. Each starts when every operation of those before
it has come back, and has the last word once it has started.
-/

namespace OmnipaxosKv

namespace Jepsen

variable {α : Type}

namespace Gen

/-! ## Sequences of generators -/

def isNil : Gen α → Bool
  | .nil => true
  | _ => false

def sequence : List (Gen α) → Gen α
  | [] => .nil
  | [gen] => .single gen
  | gen :: gens => .cons gen (sequence gens)

def phases (gens : List (Gen α)) : Gen α :=
  match (gens.filter fun gen => !gen.isNil).map .synchronize with
  | [] => .nil
  | [gen] => gen
  | gens => sequence gens

/-- A weaker condition on the maps. -/
theorem All.mono {P Q : OpMap α → Prop} (h : ∀ m, P m → Q m) {gen : Gen α} (hgen : gen.All P) :
    gen.All Q := by
  induction gen with
  | nil => trivial
  | map m => exact h m hgen
  | fn f => exact fun draws => h _ (hgen draws)
  | single gen ih => exact ih hgen
  | cons gen rest ih ihRest => exact ⟨ih hgen.1, ihRest hgen.2⟩
  | mix i n gens ih => exact fun j => ih j (hgen j)
  | stagger dt nextTime gen ih => exact ih hgen
  | onThreads f gen ih => exact ih hgen
  | timeLimit limit cutoff gen ih => exact ih hgen
  | synchronize gen ih => exact ih hgen

/-! ## The phase of a generator -/

/-- A plain map of phase `k`: the phase of an operation can be told from its fields. -/
def InPhase (f : α → ℕ) (k : ℕ) (m : OpMap α) : Prop := m.Plain ∧ f m.fields = k

/-- The phases from `k` on, none of which has started. -/
inductive Waiting (f : α → ℕ) : ℕ → Gen α → Prop
  | last {k k' : ℕ} {gen : Gen α} : k ≤ k' → gen.All (InPhase f k') →
      Waiting f k (.single (.synchronize gen))
  | more {k k' : ℕ} {gen rest : Gen α} : k ≤ k' → gen.All (InPhase f k') →
      Waiting f (k' + 1) rest → Waiting f k (.cons (.synchronize gen) rest)

/-- Phase `k`, and what waits for it. -/
inductive Phased (f : α → ℕ) : ℕ → Gen α → Prop
  | last {k : ℕ} {gen : Gen α} : gen.All (InPhase f k) → Phased f k gen
  | more {k : ℕ} {gen rest : Gen α} : gen.All (InPhase f k) → Waiting f (k + 1) rest →
      Phased f k (.cons gen rest)

variable {f : α → ℕ} {k : ℕ} {gen gen' : Gen α} {ctx : Context} {draws : Draws} {o : Operation α}

theorem Waiting.all (h : Waiting f k gen) : gen.All OpMap.Plain := by
  induction h with
  | last _ hgen => exact hgen.mono fun _ hm => hm.1
  | more _ hgen _ ih => exact ⟨hgen.mono fun _ hm => hm.1, ih⟩

theorem Phased.all (h : Phased f k gen) : gen.All OpMap.Plain := by
  cases h with
  | last hgen => exact hgen.mono fun _ hm => hm.1
  | more hgen hrest => exact ⟨hgen.mono fun _ hm => hm.1, hrest.all⟩

/-- A phase starts when all threads are free. -/
theorem Waiting.op (h : Waiting f k gen) (hop : (gen.op ctx draws).1 = some (.op o, gen')) :
    ctx.freeThreadCount = ctx.allThreadCount ∧
      ∃ k' ≥ k, Emits (InPhase f k') ctx o ∧ Phased f k' gen' := by
  induction h generalizing draws with
  | @last k k' gen hk hgen =>
      rw [Gen.op, Gen.op] at hop
      split at hop
      · next hfree =>
          have hkept := keeps_op hgen ctx draws _ _ hop
          exact ⟨hfree, k', hk, hkept.2 o rfl, .last hkept.1⟩
      · cases hop
  | @more k k' gen rest hk hgen hrest ih =>
      rw [Gen.op, Gen.op] at hop
      split at hop
      · next e gen'' draws' heq =>
          rcases Prod.mk.inj (Option.some.inj hop) with ⟨he, hgen'⟩
          split at heq
          · next hfree =>
              have hkept := keeps_op hgen ctx draws e gen'' (by rw [heq])
              rw [← hgen']
              exact ⟨hfree, k', hk, hkept.2 o he, .more hkept.1 hrest⟩
          · -- it is not yet time for the phase
            rw [← (Prod.mk.inj (Option.some.inj (Prod.mk.inj heq).1)).1] at he
            cases he
      · rcases ih hop with ⟨hfree, k'', hk'', hrest'⟩
        exact ⟨hfree, k'', by omega, hrest'⟩

/-- A generator goes on with its phase, or starts a later one when all threads are free. -/
theorem Phased.op (h : Phased f k gen) (hop : (gen.op ctx draws).1 = some (.op o, gen')) :
    (Emits (InPhase f k) ctx o ∧ Phased f k gen') ∨
    (ctx.freeThreadCount = ctx.allThreadCount ∧
      ∃ k' > k, Emits (InPhase f k') ctx o ∧ Phased f k' gen') := by
  cases h with
  | last hgen =>
      left
      have hkept := keeps_op hgen ctx draws _ _ hop
      exact ⟨hkept.2 o rfl, .last hkept.1⟩
  | more hgen hrest =>
      rw [Gen.op] at hop
      split at hop
      · next e gen'' draws' heq =>
          left
          rcases Prod.mk.inj (Option.some.inj hop) with ⟨he, hgen'⟩
          have hkept := keeps_op hgen ctx draws e gen'' (by rw [heq])
          rw [← hgen']
          exact ⟨hkept.2 o he, .more hkept.1 hrest⟩
      · right
        exact hrest.op hop

theorem Phased.update (h : Phased f k gen) (event : Operation α) :
    Phased f k (gen.update ctx event) := by
  cases h with
  | last hgen => exact .last (all_update hgen ctx event)
  | more hgen hrest => exact .more (all_update hgen ctx event) hrest

/-! ## The phases of a list -/

/-- The generators have numbers from `k` on, in order. -/
def Numbered (f : α → ℕ) : ℕ → List (Gen α) → Prop
  | _, [] => True
  | k, gen :: gens => ∃ k' ≥ k, gen.All (InPhase f k') ∧ Numbered f (k' + 1) gens

theorem Numbered.mono {gens : List (Gen α)} {l : ℕ} (hle : l ≤ k) (h : Numbered f k gens) :
    Numbered f l gens := by
  cases gens with
  | nil => trivial
  | cons gen gens =>
      rcases h with ⟨k', hk, hrest⟩
      exact ⟨k', Nat.le_trans hle hk, hrest⟩

theorem numbered_of_getElem? {gens : List (Gen α)}
    (h : ∀ (j : ℕ) gen, gens[j]? = some gen → gen.All (InPhase f (k + j))) :
    Numbered f k gens := by
  induction gens generalizing k with
  | nil => trivial
  | cons gen gens ih =>
      refine ⟨k, Nat.le_refl k, h 0 gen rfl, ih ?_⟩
      intro j gen' hj
      have hnext := h (j + 1) gen' hj
      rw [← Nat.add_assoc, Nat.add_right_comm] at hnext
      exact hnext

/-- The order is kept where generators are left out. -/
theorem Numbered.filter {gens : List (Gen α)} (h : Numbered f k gens) (p : Gen α → Bool) :
    Numbered f k (gens.filter p) := by
  induction gens generalizing k with
  | nil => trivial
  | cons gen gens ih =>
      rcases h with ⟨k', hk, hgen, hrest⟩
      rw [List.filter_cons]
      split
      · exact ⟨k', hk, hgen, ih hrest⟩
      · exact (ih hrest).mono (by omega)

/-- Behind barriers the generators wait, in order. -/
theorem waiting_sequence {gen : Gen α} {gens : List (Gen α)} (h : Numbered f k (gen :: gens)) :
    Waiting f k (sequence ((gen :: gens).map .synchronize)) := by
  induction gens generalizing k gen with
  | nil =>
      rcases h with ⟨k', hk, hgen, _⟩
      exact .last hk hgen
  | cons gen' gens ih =>
      rcases h with ⟨k', hk, hgen, hrest⟩
      exact .more hk hgen (ih hrest)

/-- `phases` begins with the first generator that is not `nil`. -/
theorem phased_phases {gens : List (Gen α)}
    (h : ∀ (k : ℕ) gen, gens[k]? = some gen → gen.All (InPhase f k)) :
    ∃ k, Phased f k (phases gens) := by
  have hall : Numbered f 0 gens := by
    refine numbered_of_getElem? fun j gen hj => ?_
    rw [Nat.zero_add]
    exact h j gen hj
  have hnumbered := hall.filter fun gen => !gen.isNil
  rw [phases]
  generalize gens.filter (fun gen => !gen.isNil) = gens at hnumbered
  cases gens with
  | nil => exact ⟨0, .last trivial⟩
  | cons gen gens =>
      rcases hnumbered with ⟨k, _, hgen, hrest⟩
      refine ⟨k, ?_⟩
      cases gens with
      | nil => exact .last hgen
      | cons gen' gens => exact .more hgen (waiting_sequence hrest)

end Gen

namespace Interpreter

variable {f : α → ℕ} {k n : ℕ} {s : Interpreter (Gen α) α}

/-! ## The phase of a run -/

/-- All that the workers have, and all that is open, is of phase `k`. -/
structure Only (f : α → ℕ) (k : ℕ) (s : Interpreter (Gen α) α) : Prop where
  working : ∀ thread, ∀ o ∈ (s.workers thread).ops, f o.fields = k
  opened : ∀ p o, phase p s.history = some (.open o) → f o.fields = k

structure AtPhase (f : α → ℕ) (k : ℕ) (s : Interpreter (Gen α) α) : Prop extends Only f k s where
  gen : s.gen.Phased f k

theorem atPhase_start {gen : Gen α} (hgen : gen.Phased f k) : (start n gen).AtPhase f k := by
  refine ⟨⟨?_, ?_⟩, hgen⟩
  · intro thread o ho
    cases ho
  · intro p o hopen
    cases hopen

/-- When all threads are free nothing is out. -/
theorem Sound.outstanding_eq_zero (h : s.Sound n)
    (hfree : s.ctx.freeThreadCount = s.ctx.allThreadCount) : s.outstanding = 0 := by
  have hall : s.ctx.allThreadCount = s.ctx.threadCount := by
    show (List.range s.ctx.threadCount).countP s.ctx.allThreads = s.ctx.threadCount
    have hlength := List.countP_eq_length.mpr
      fun i hi => h.ctx.all i (List.mem_range.mp hi)
    rw [List.length_range] at hlength
    exact hlength
  have hcounted := h.counted
  rw [hall] at hfree
  change cardinality s.ctx.freeThreads s.ctx.threadCount = s.ctx.threadCount at hfree
  omega

/-- With nothing out no worker has anything. -/
theorem Sound.ops_eq_nil (h : s.Sound n) (hzero : s.outstanding = 0) (thread : Name) :
    (s.workers thread).ops = [] := by
  by_cases hknown : ∃ i, s.ctx.translationTable.indexToName i = some thread
  · rcases hknown with ⟨i, hname⟩
    have hfree := h.all_free hzero (TranslationTable.lt_of_indexToName hname)
    exact (List.append_eq_nil_iff.mp ((h.slots i thread hname).idle hfree).1).1
  · exact h.strangers thread fun i hname => hknown ⟨i, hname⟩

/-- With nothing out there is nothing of another phase, whatever the phase. -/
theorem Sound.only (h : s.Sound n) (hzero : s.outstanding = 0) : s.Only f k := by
  refine ⟨?_, ?_⟩
  · intro thread o ho
    rw [h.ops_eq_nil hzero thread] at ho
    cases ho
  · intro p o hopen
    rcases h.closed hzero p with hready | hcrashed
    · rw [hready] at hopen
      cases hopen
    · rw [hcrashed] at hopen
      cases hopen

/-! ## Steps -/

/-- What is open afterwards was open before, or is what was written. -/
theorem phase_journal_open {o x : Operation α} {p : Name}
    (h : phase p (s.journal o).history = some (.open x)) :
    phase p s.history = some (.open x) ∨
      (x = o ∧ o.process = p ∧ phase p s.history = some .ready) := by
  rcases s.journal_cases o with ⟨_, hhistory, _⟩ | ⟨_, hhistory, _⟩
  · rw [hhistory] at h
    by_cases hp : o.process = p
    · rw [phase_append_self hp] at h
      rcases Option.bind_eq_some_iff.mp h with ⟨ph, hph, hnext⟩
      cases ph with
      | ready =>
          rw [Phase.next] at hnext
          split at hnext
          · exact .inr ⟨(Phase.open.inj (Option.some.inj hnext)).symm, hp, hph⟩
          · cases hnext
      | «open» y =>
          rw [Phase.next] at hnext
          split at hnext
          · -- a completion closes
            split at hnext
            · cases hnext
            · cases hnext
          · cases hnext
      | crashed => cases hnext
    · rw [phase_append_ne hp] at h
      exact .inl h
  · rw [hhistory] at h
    exact .inl h

/-- What comes back opens nothing: its process was busy with an invocation, or with something
that is not journaled. -/
theorem Sound.opened_complete (h : s.Sound n) {time : ℕ}
    (hg : guard (Gen.generator α) (.complete time) s) {p : Name} {x : Operation α}
    (hopen : phase p (Interpreter.update (Gen.generator α) (.complete time) s).history =
      some (.open x)) :
    phase p s.history = some (.open x) := by
  rcases complete_cases h hg with ⟨o, rest, i, thread, hback, _, _, _, hupdate⟩
  rw [hupdate] at hopen
  rcases phase_journal_open hopen with hold | ⟨hx, hp, hready⟩
  · exact hold
  · exfalso
    rcases h.back hback with ⟨j, thread', hj, hname', hprocess', hbusy, hops, hrest⟩
    rcases (h.slots j thread' hname').busy hbusy with ⟨y, hheld, hy, ph, hph, hgoes, _⟩
    have hfiltered : s.completions.filter (fun o => o.process = s.ctx.threadIndexToProcess j) =
        [o] := by
      rw [hback, List.filter_cons_of_pos (by simpa using hprocess'), hrest]
    rw [held, hops, hfiltered, List.nil_append] at hheld
    rw [← List.singleton_inj.mp hheld] at hgoes
    have hsame : p = s.ctx.threadIndexToProcess j := by
      rw [← hprocess', ← hp]
      rfl
    rw [hsame, hph, Option.some.injEq] at hready
    cases hjournaled : goesInHistory o.type with
    | true =>
        rcases hgoes hjournaled with ⟨invocation, hopened⟩
        rw [hready] at hopened
        cases hopened
    | false =>
        change phase p (s.journal { s.stamp o with time := time }).history = _ at hopen
        rw [journal_silent (o := { s.stamp o with time := time }) hjournaled, hsame, hph,
          hready] at hopen
        cases hopen

/-- The loop takes a completion. -/
theorem AtPhase.complete (h : s.AtPhase f k) (hsound : s.Sound n) {time : ℕ}
    (hg : guard (Gen.generator α) (.complete time) s) :
    (update (Gen.generator α) (.complete time) s).AtPhase f k := by
  rcases complete_cases hsound hg with ⟨o, rest, i, thread, _, _, _, _, hupdate⟩
  refine ⟨⟨?_, fun p x hopen => h.opened p x (hsound.opened_complete hg hopen)⟩, ?_⟩
  · intro thread' x hx
    rw [hupdate] at hx
    change x ∈ ((s.journal _).workers thread').ops at hx
    rw [workers_journal] at hx
    exact h.working thread' x hx
  · rw [hupdate]
    exact h.gen.update _

theorem ops_tellExit {w : Worker α} {o : Operation α} (ho : o ∈ (tellExit w).ops) : o ∈ w.ops :=
  List.mem_append_right _ ho

/-- The operation that is dispatched starts its phase or goes on with it. -/
theorem AtPhase.dispatch (h : s.AtPhase f k) (hsound : s.Sound n) {time : ℕ} {draws : Draws}
    {o : Operation α} {gen' : Gen α}
    (hverdict : s.verdict (Gen.generator α) time draws = .dispatch o gen') :
    s.Only f (f o.fields) ∧ k ≤ f o.fields ∧ gen'.Phased f (f o.fields) := by
  rcases verdict_eq_dispatch hverdict with ⟨_, _, hop⟩
  rcases h.gen.op hop with ⟨hemits, hgen'⟩ | ⟨hfree, k', hk, hemits, hgen'⟩
  · rcases hemits with ⟨m, hm, _, hfields, _⟩
    have hphase : f o.fields = k := by
      rw [hfields]
      exact hm.2
    rw [hphase]
    exact ⟨h.toOnly, Nat.le_refl k, hgen'⟩
  · rcases hemits with ⟨m, hm, _, hfields, _⟩
    have hphase : f o.fields = k' := by
      rw [hfields]
      exact hm.2
    rw [hphase]
    exact ⟨hsound.only (hsound.outstanding_eq_zero hfree), Nat.le_of_lt hk, hgen'⟩

/-- The generator is asked, and a phase may start. -/
theorem AtPhase.ask (h : s.AtPhase f k) (hsound : s.Sound n) (time : ℕ) (draws : Draws) :
    (∃ l ≥ k, (update (Gen.generator α) (.ask time draws) s).AtPhase f l) ∧
    ∀ o gen', s.verdict (Gen.generator α) time draws = .dispatch o gen' →
      (update (Gen.generator α) (.ask time draws) s).AtPhase f (f o.fields) := by
  have hread : (s.read time).AtPhase f k := ⟨⟨h.working, h.opened⟩, h.gen⟩
  have hplain : ∀ m : OpMap α, m.Plain → m.Plain := fun _ hm => hm
  have hdispatch : ∀ o gen' thread, s.verdict (Gen.generator α) time draws = .dispatch o gen' →
      ((s.read time).dispatch (Gen.generator α) o gen' thread).AtPhase f (f o.fields) := by
    intro o gen' thread hverdict
    rcases h.dispatch hsound hverdict with ⟨honly, _, hgen'⟩
    refine ⟨⟨?_, ?_⟩, hgen'.update _⟩
    · intro thread' x hx
      change x ∈ (Function.update ((s.read time).journal _).workers thread _ thread').ops at hx
      rw [workers_journal] at hx
      by_cases hthread : thread' = thread
      · rw [hthread, Function.update_self] at hx
        rcases List.mem_append.mp hx with hnew | hcurrent
        · rw [List.mem_singleton.mp hnew]
          rfl
        · exact honly.working thread x (List.mem_append_right _ hcurrent)
      · rw [Function.update_of_ne hthread] at hx
        exact honly.working thread' x hx
    · intro p x hopen
      rcases phase_journal_open (s := s.read time) hopen with hold | ⟨hx, _, _⟩
      · exact honly.opened p x hold
      · rw [hx]
        rfl
  change (∃ l ≥ k, (s.asked (Gen.generator α) time draws).AtPhase f l) ∧
    ∀ o gen', _ → (s.asked (Gen.generator α) time draws).AtPhase f (f (Operation.fields o))
  rcases asked_cases hsound hplain h.gen.all time draws with ⟨hnot, heq | ⟨_, heq⟩⟩ |
    ⟨o, gen', thread, hverdict, _, heq⟩
  · rw [heq]
    exact ⟨⟨k, Nat.le_refl k, hread⟩, fun o gen' hverdict => absurd hverdict (hnot o gen')⟩
  · rw [heq]
    refine ⟨⟨k, Nat.le_refl k, ⟨?_, h.opened⟩, h.gen⟩,
      fun o gen' hverdict => absurd hverdict (hnot o gen')⟩
    intro thread o ho
    exact h.working thread o (ops_tellExit ho)
  · rw [heq]
    refine ⟨⟨f o.fields, (h.dispatch hsound hverdict).2.1, hdispatch o gen' thread hverdict⟩, ?_⟩
    intro o' gen'' hverdict'
    rw [hverdict] at hverdict'
    rw [← (Verdict.dispatch.inj hverdict').1]
    exact hdispatch o gen' thread hverdict

/-- A worker takes its operation. -/
theorem AtPhase.take (h : s.AtPhase f k) (thread : Name) :
    (update (Gen.generator α) (.take thread) s).AtPhase f k := by
  rw [update]
  have hset : ∀ w : Worker α, (∀ o ∈ w.ops, o ∈ (s.workers thread).ops) →
      (s.setWorker thread w).AtPhase f k := by
    intro w hw
    refine ⟨⟨?_, h.opened⟩, h.gen⟩
    intro thread' o ho
    change o ∈ (Function.update s.workers thread w thread').ops at ho
    by_cases hthread : thread' = thread
    · rw [hthread, Function.update_self] at ho
      exact h.working thread o (hw o ho)
    · rw [Function.update_of_ne hthread] at ho
      exact h.working thread' o ho
  split
  · exact h
  · refine hset _ fun o ho => ?_
    cases ho
  · next x hinbox =>
      refine hset _ fun o ho => ?_
      rw [Worker.ops, hinbox]
      exact List.mem_append_left _ ho

/-- A worker answers. -/
theorem AtPhase.finish (h : s.AtPhase f k) (thread : Name) (answer : Operation α) :
    (update (Gen.generator α) (.finish thread answer) s).AtPhase f k := by
  refine ⟨⟨?_, h.opened⟩, h.gen⟩
  intro thread' o ho
  change o ∈ (Function.update s.workers thread _ thread').ops at ho
  by_cases hthread : thread' = thread
  · rw [hthread, Function.update_self] at ho
    refine h.working thread o ?_
    rcases List.mem_append.mp ho with hinbox | hcurrent
    · exact List.mem_append_left _ hinbox
    · cases hcurrent
  · rw [Function.update_of_ne hthread] at ho
    exact h.working thread' o ho

/-- A step leaves the phase as it is or starts a later one. -/
theorem AtPhase.update (h : s.AtPhase f k) (hsound : s.Sound n) {l : RunStep α}
    (hg : guard (Gen.generator α) l s) :
    ∃ k' ≥ k, (update (Gen.generator α) l s).AtPhase f k' := by
  cases l with
  | complete time => exact ⟨k, Nat.le_refl k, h.complete hsound hg⟩
  | ask time draws => exact (h.ask hsound time draws).1
  | take thread => exact ⟨k, Nat.le_refl k, h.take thread⟩
  | finish thread answer => exact ⟨k, Nat.le_refl k, h.finish thread answer⟩
  | join => exact ⟨k, Nat.le_refl k, ⟨h.working, h.opened⟩, h.gen⟩

/-! ## Runs -/

/-- Every run is at some phase. -/
theorem atPhase_reachable {gen : Gen α} (hgen : gen.Phased f k)
    (hr : (interpreter (Gen.generator α) n gen).Reachable s) : ∃ k' ≥ k, s.AtPhase f k' := by
  refine (interpreter (Gen.generator α) n gen).invariant (fun s => ∃ k' ≥ k, s.AtPhase f k') ?_ ?_
    s hr
  · intro s hs
    rw [hs]
    exact ⟨k, Nat.le_refl k, atPhase_start hgen⟩
  · intro l s hs hg h
    rcases h with ⟨k', hk', h⟩
    have hsound := (planned_reachable (fun _ hm => hm) hgen.all hs).2
    rcases h.update hsound hg with ⟨k'', hk'', h'⟩
    exact ⟨k'', by omega, h'⟩

/-- Phases are barriers. When an operation is dispatched, all that is open and all that the
workers have is of its phase, and what is dispatched afterwards is of its phase or a later
one. -/
theorem phases_are_barriers (f : α → ℕ) (gens : List (Gen α))
    (hgens : ∀ (k : ℕ) gen, gens[k]? = some gen → gen.All (Gen.InPhase f k)) (n : ℕ) :
    ∀ s, (interpreter (Gen.generator α) n (Gen.phases gens)).Reachable s →
      ∀ time draws o gen', s.verdict (Gen.generator α) time draws = .dispatch o gen' →
        (∀ p x, phase p s.history = some (.open x) → f x.fields = f o.fields) ∧
        (∀ thread, ∀ x ∈ (s.workers thread).ops, f x.fields = f o.fields) ∧
        ∀ ls, (interpreter (Gen.generator α) n (Gen.phases gens)).Valid s (.ask time draws :: ls) →
          ∀ time' draws' o' gen'', ((interpreter (Gen.generator α) n (Gen.phases gens)).after s
            (.ask time draws :: ls)).verdict (Gen.generator α) time' draws' = .dispatch o' gen'' →
              f o.fields ≤ f o'.fields := by
  intro s hr time draws o gen' hverdict
  rcases Gen.phased_phases hgens with ⟨k₀, hgen⟩
  have hsound := (planned_reachable (fun _ hm => hm) hgen.all hr).2
  rcases atPhase_reachable hgen hr with ⟨k, _, h⟩
  have honly := (h.dispatch hsound hverdict).1
  refine ⟨honly.opened, honly.working, ?_⟩
  intro ls hvalid time' draws' o' gen'' hverdict'
  let M := interpreter (Gen.generator α) n (Gen.phases gens)
  have hnext : M.Reachable (M.update (.ask time draws) s) ∧
      ∃ l ≥ f o.fields, (M.update (.ask time draws) s).AtPhase f l :=
    ⟨hr.step _ hvalid.1, f o.fields, Nat.le_refl _, (h.ask hsound time draws).2 o gen' hverdict⟩
  have hafter := M.after_invariant
    (fun s => M.Reachable s ∧ ∃ l ≥ f o.fields, s.AtPhase f l) hnext hvalid.2 ?_
  · rcases hafter with ⟨hr', l, hl, h'⟩
    have hsound' := (planned_reachable (fun _ hm => hm) hgen.all hr').2
    exact Nat.le_trans hl (h'.dispatch hsound' hverdict').2.1
  · intro label _ s hg hs
    rcases hs with ⟨hr', l, hl, h'⟩
    have hsound' := (planned_reachable (fun _ hm => hm) hgen.all hr').2
    rcases h'.update hsound' hg with ⟨l', hl', h''⟩
    exact ⟨hr'.step label hg, l', by omega, h''⟩

/-! ## Two phases of one operation each -/

def numbered (k : ℕ) : Gen ℕ := .map ⟨none, none, none, k, false⟩

def twoPhases : List (Gen ℕ) := [numbered 0, numbered 1]

theorem all_numbered (k : ℕ) : (numbered k).All (Gen.InPhase id k) :=
  ⟨⟨rfl, rfl, .inl rfl⟩, rfl⟩

theorem twoPhases_numbered (k : ℕ) (gen : Gen ℕ) (h : twoPhases[k]? = some gen) :
    gen.All (Gen.InPhase id k) := by
  match k with
  | 0 =>
      rw [← Option.some.inj h]
      exact all_numbered 0
  | 1 =>
      rw [← Option.some.inj h]
      exact all_numbered 1
  | k + 2 => cases h

def twoPhasesMachine : Machine (Interpreter (Gen ℕ) ℕ) (RunStep ℕ) :=
  unboundedInterpreter (Gen.generator ℕ) 1 (Gen.phases twoPhases)

instance (l : RunStep ℕ) (s : Interpreter (Gen ℕ) ℕ) : Decidable (twoPhasesMachine.guard l s) :=
  decidableEnabled l s

def firstPhase : List (RunStep ℕ) :=
  [.ask 5 [], .take (.int 0), .finish (.int 0) ⟨0, 5, .ok, .int 0, 0, false⟩, .complete 6]

def second : Operation ℕ := ⟨-1, 7, .invoke, nemesis, 1, false⟩

theorem firstPhase_valid :
    twoPhasesMachine.Valid (.start 1 (Gen.phases twoPhases)) firstPhase := by decide +kernel

/-- The second phase starts when the operation of the first has come back. -/
theorem phases_are_barriers_two :
    let s := twoPhasesMachine.after (.start 1 (Gen.phases twoPhases)) firstPhase
    s.history.length = 2 ∧ (∀ p x, phase p s.history = some (.open x) → x.fields = 1) ∧
      ∀ thread, ∀ x ∈ (s.workers thread).ops, x.fields = 1 := by
  intro s
  have hlength : s.history.length = 2 := by decide +kernel
  have hr : (interpreter (Gen.generator ℕ) 1 (Gen.phases twoPhases)).Reachable s :=
    reachable_iff_unbounded.mpr (twoPhasesMachine.reachable_after firstPhase (.start rfl)
      firstPhase_valid)
  have hverdict : ∃ gen', s.verdict (Gen.generator ℕ) 7 [] = .dispatch second gen' := ⟨_, rfl⟩
  rcases hverdict with ⟨gen', hverdict⟩
  have h := phases_are_barriers id twoPhases twoPhases_numbered 1 s hr 7 [] second gen' hverdict
  exact ⟨hlength, h.1, h.2.1⟩

end Interpreter

end Jepsen

end OmnipaxosKv
