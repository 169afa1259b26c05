import Mathlib.Algebra.Order.BigOperators.Group.Finset
import OmnipaxosKv.Jepsen.Workload
import OmnipaxosKv.Lib.Fairness

/-! # The end of a test

The generator of the test sets its cutoff with the first operation. From the cutoff on there is
a message and a pause to come, each when all threads are free, and then nothing. So the test
ends, if only time goes on, the loop goes round, and the workers take and answer what they are
given.
-/

namespace OmnipaxosKv

namespace Jepsen

/-! ## What is left of a generator -/

namespace Gen

variable {α : Type}

/-- The number of maps that are still to be used. -/
def size : Gen α → ℕ
  | .map _ => 1
  | .single gen => gen.size
  | .cons gen rest => gen.size + rest.size
  | .synchronize gen => gen.size
  | _ => 0

/-- Maps, in sequences and behind barriers. -/
def Brief : Gen α → Prop
  | .nil => True
  | .map _ => True
  | .single gen => gen.Brief
  | .cons gen rest => gen.Brief ∧ rest.Brief
  | .synchronize gen => gen.Brief
  | _ => False

/-- Waits for a free process, and for nothing else. -/
def Prompt : Gen α → Prop
  | .nil => True
  | .map _ => True
  | .fn _ => True
  | .single gen => gen.Prompt
  | .cons gen rest => gen.Prompt ∧ rest.Prompt
  | .mix _ _ gens => ∀ j, (gens j).Prompt
  | .stagger _ _ gen => gen.Prompt
  | .timeLimit _ _ gen => gen.Prompt
  | .onThreads _ _ => False
  | .synchronize _ => False

variable {ctx : Context} {gen gen' : Gen α} {draws : Draws} {e : Emission α} {o : Operation α}

/-- A map is filled in at once, if a process is free. -/
theorem fillInOp_ne_pending {m : OpMap α} (hfree : ctx.someFreeProcess ≠ none) :
    fillInOp m ctx ≠ .pending := by
  intro hpending
  rw [fillInOp] at hpending
  split at hpending
  · next hnone => exact hfree hnone
  · cases hpending

theorem time_fillInOp {m : OpMap α} (hm : m.Plain) (h : fillInOp m ctx = .op o) :
    o.time = ctx.time := by
  rw [fillInOp] at h
  split at h
  · cases h
  · rw [← Emission.op.inj h]
    show m.time.getD ctx.time = ctx.time
    rw [hm.time, Option.getD_none]

/-- A brief generator emits at once, when all threads are free and there are some, and then it
is smaller. -/
theorem Brief.op (h : gen.Brief) (hplain : gen.All OpMap.Plain)
    (hop : (gen.op ctx draws).1 = some (e, gen')) :
    (∀ o, e = .op o → gen'.Brief ∧ gen'.size < gen.size ∧ o.time = ctx.time) ∧
    (ctx.freeThreadCount = ctx.allThreadCount → ctx.someFreeProcess ≠ none → e ≠ .pending) := by
  induction gen generalizing ctx draws gen' with
  | nil => cases hop
  | map m =>
      rcases Prod.mk.inj (Option.some.inj hop) with ⟨he, hgen⟩
      rw [← hgen, he]
      refine ⟨?_, ?_⟩
      · intro o ho
        rw [ho]
        exact ⟨trivial, Nat.zero_lt_one, time_fillInOp hplain (he.trans ho)⟩
      · intro _ hfree hpending
        exact fillInOp_ne_pending hfree (he.trans hpending)
  | single gen ih => exact ih h hplain hop
  | cons gen rest ih ihRest =>
      rw [Gen.op] at hop
      split at hop
      · next e₁ gen₁ draws₁ heq =>
          rcases Prod.mk.inj (Option.some.inj hop) with ⟨he, hgen⟩
          have hfirst := ih h.1 hplain.1 (show (gen.op ctx draws).1 = some (e, gen₁) by rw [heq, he])
          rw [← hgen]
          refine ⟨?_, hfirst.2⟩
          intro o ho
          rcases hfirst.1 o ho with ⟨hbrief, hsize, htime⟩
          exact ⟨⟨hbrief, h.2⟩, Nat.add_lt_add_right hsize _, htime⟩
      · rcases ihRest h.2 hplain.2 hop with ⟨hemits, hpending⟩
        refine ⟨?_, hpending⟩
        intro o ho
        rcases hemits o ho with ⟨hbrief, hsize, htime⟩
        exact ⟨hbrief, Nat.lt_of_lt_of_le hsize (Nat.le_add_left _ _), htime⟩
  | synchronize gen ih =>
      rw [Gen.op] at hop
      split at hop
      · exact ih h hplain hop
      · next hbusy =>
          rcases Prod.mk.inj (Option.some.inj hop) with ⟨he, _⟩
          rw [← he]
          refine ⟨?_, fun hfree => absurd hfree hbusy⟩
          intro o ho
          cases ho
  | _ => exact absurd h id

/-- Events do not use up maps. -/
theorem size_update (gen : Gen α) (ctx : Context) (event : Operation α) :
    (gen.update ctx event).size = gen.size := by
  induction gen generalizing ctx with
  | single gen ih => exact ih ctx
  | cons gen rest ih _ => exact congrArg (· + rest.size) (ih ctx)
  | synchronize gen ih => exact ih ctx
  | onThreads f gen ih =>
      rw [update]
      split
      · rfl
      · rfl
  | _ => rfl

theorem Brief.update (h : gen.Brief) (ctx : Context) (event : Operation α) :
    (gen.update ctx event).Brief := by
  induction gen generalizing ctx with
  | nil => trivial
  | map m => trivial
  | single gen ih => exact ih h ctx
  | cons gen rest ih _ => exact ⟨ih h.1 ctx, h.2⟩
  | synchronize gen ih => exact ih h ctx
  | _ => exact absurd h id

/-! ## Generators that do not hesitate -/

theorem prompt_afterMap (m : OpMap α) (e : Emission α) : (afterMap m e).Prompt := by
  cases e with
  | pending => trivial
  | op o => trivial

/-- What is left of a prompt generator is prompt, and it is pending only when no process is
free. -/
def Minds (ctx : Context) (r : Result α) : Prop :=
  ∀ e gen', r.1 = some (e, gen') →
    gen'.Prompt ∧ (ctx.someFreeProcess ≠ none → e ≠ .pending)

/-- A mix of prompt generators is prompt. -/
theorem minds_mixOp {n : ℕ} {gens : Fin n → Gen α} {ops : Fin n → Draws → Result α}
    (hgens : ∀ j, (gens j).Prompt) (hops : ∀ j draws, Minds ctx (ops j draws)) (i : ℕ)
    (draws : Draws) : Minds ctx (mixOp n gens ops i draws) := by
  induction n generalizing i draws with
  | zero =>
      intro e gen' h
      cases h
  | succ n ih =>
      rw [mixOp]
      split
      · next e gen' draws' heq =>
          have hminds := hops (Fin.ofNat (n + 1) i) draws e gen' (by rw [heq])
          intro e' gen'' h
          rcases Prod.mk.inj (Option.some.inj h) with ⟨he, hgen⟩
          rw [← he, ← hgen]
          refine ⟨?_, hminds.2⟩
          intro j
          by_cases hj : j = Fin.ofNat (n + 1) i
          · rw [hj, Function.update_self]
            exact hminds.1
          · rw [Function.update_of_ne hj]
            exact hgens j
      · exact ih (fun j => hgens _) (fun j => hops _) _ _

/-- To stagger a generator does not make it wait for more. -/
theorem minds_staggerOp {dt : ℕ} {nextTime : Option ℕ} (hgen : gen.Prompt) {now : ℕ}
    {r : Result α} (h : Minds ctx r) : Minds ctx (staggerOp dt nextTime gen now r) := by
  rcases r with ⟨_ | ⟨_ | o, gen'⟩, draws⟩
  · intro e gen'' heq
    cases heq
  · have hminds := h _ _ rfl
    intro e gen'' heq
    rcases Prod.mk.inj (Option.some.inj heq) with ⟨he, hgen'⟩
    rw [← he, ← hgen']
    exact ⟨hgen, hminds.2⟩
  · have hminds := h _ _ rfl
    intro e gen'' heq
    rw [staggerOp] at heq
    split at heq
    · rcases Prod.mk.inj (Option.some.inj heq) with ⟨he, hgen'⟩
      rw [← he, ← hgen']
      exact ⟨hminds.1, fun _ hpending => by cases hpending⟩
    · rcases Prod.mk.inj (Option.some.inj heq) with ⟨he, hgen'⟩
      rw [← he, ← hgen']
      exact ⟨hminds.1, fun _ hpending => by cases hpending⟩

/-- Under a time limit a prompt generator is prompt. -/
theorem minds_timeLimitOp {limit : ℕ} {cutoff : Option ℕ} {r : Result α} (h : Minds ctx r) :
    Minds ctx (timeLimitOp limit cutoff r) := by
  rcases r with ⟨_ | ⟨_ | o, gen'⟩, draws⟩
  · intro e gen'' heq
    cases heq
  · have hminds := h _ _ rfl
    intro e gen'' heq
    rcases Prod.mk.inj (Option.some.inj heq) with ⟨he, hgen'⟩
    rw [← he, ← hgen']
    exact hminds
  · have hminds := h _ _ rfl
    intro e gen'' heq
    rw [timeLimitOp] at heq
    split at heq
    · rcases Prod.mk.inj (Option.some.inj heq) with ⟨he, hgen'⟩
      rw [← he, ← hgen']
      exact hminds
    · cases heq

/-- By induction on the generator: a prompt one minds the free processes only. -/
theorem minds_op (h : gen.Prompt) (ctx : Context) (draws : Draws) :
    Minds ctx (gen.op ctx draws) := by
  induction gen generalizing ctx draws with
  | nil =>
      intro e gen' heq
      cases heq
  | map m =>
      intro e gen' heq
      rcases Prod.mk.inj (Option.some.inj heq) with ⟨he, hgen⟩
      rw [← hgen, ← he]
      exact ⟨prompt_afterMap m _, fillInOp_ne_pending⟩
  | fn f =>
      intro e gen' heq
      rcases Prod.mk.inj (Option.some.inj heq) with ⟨he, hgen⟩
      rw [← hgen, ← he]
      exact ⟨⟨prompt_afterMap _ _, trivial⟩, fillInOp_ne_pending⟩
  | single gen ih => exact ih h ctx draws
  | cons gen rest ih ihRest =>
      rw [op]
      split
      · next e gen' draws' heq =>
          have hminds := ih h.1 ctx draws e gen' (by rw [heq])
          intro e' gen'' heq'
          rcases Prod.mk.inj (Option.some.inj heq') with ⟨he, hgen⟩
          rw [← he, ← hgen]
          exact ⟨⟨hminds.1, h.2⟩, hminds.2⟩
      · exact ihRest h.2 ctx _
  | mix i n gens ih => exact minds_mixOp h (fun j => ih j (h j) ctx) i draws
  | stagger dt nextTime gen ih =>
      have hgen : gen.Prompt := h
      exact minds_staggerOp hgen (ih hgen ctx draws)
  | timeLimit limit cutoff gen ih => exact minds_timeLimitOp (ih h ctx draws)
  | onThreads f gen ih => exact absurd h id
  | synchronize gen ih => exact absurd h id

theorem Prompt.update (h : gen.Prompt) (ctx : Context) (event : Operation α) :
    (gen.update ctx event).Prompt := by
  induction gen generalizing ctx with
  | single gen ih => exact ih h ctx
  | cons gen rest ih _ => exact ⟨ih h.1 ctx, h.2⟩
  | stagger dt nextTime gen ih => exact ih h ctx
  | timeLimit limit cutoff gen ih => exact ih h ctx
  | onThreads f gen ih => exact absurd h id
  | synchronize gen ih => exact absurd h id
  | _ => exact h

/-! ## After the cutoff -/

/-- The clients have a cutoff, or it is past and a few maps are left. -/
inductive Expiring (c : ℕ) : Gen α → Prop
  | limited {limit : ℕ} {gen rest : Gen α} : gen.Prompt → rest.Brief →
      Expiring c (.cons (.timeLimit limit (some c) (.clients gen)) rest)
  | brief {gen : Gen α} : gen.Brief → Expiring c gen

/-- A process that is free for the clients is free. -/
theorem someFreeProcess_of_filter {f : Name → Bool}
    (h : (ctx.filter f).someFreeProcess ≠ none) : ctx.someFreeProcess ≠ none := by
  intro hnone
  rcases Option.ne_none_iff_exists'.mp h with ⟨p, hp⟩
  rcases Context.someFreeProcess_eq_some hp with ⟨i, hi, hfree, _⟩
  have hbusy := Context.someFreeProcess_eq_none hnone hi
  change (ctx.freeThreads i && _) = true at hfree
  rw [hbusy] at hfree
  cases hfree

/-- The clients are given something before the cutoff only, and wait only for each other. -/
theorem limited_op {limit c : ℕ} (hprompt : gen.Prompt) (hplain : gen.All OpMap.Plain)
    (hop : ((Gen.timeLimit limit (some c) (.clients gen)).op ctx draws).1 = some (e, gen')) :
    (∃ gen'', gen''.Prompt ∧ gen' = .timeLimit limit (some c) (.clients gen'')) ∧
    (∀ o, e = .op o → ctx.time < c) ∧
    ((ctx.filter isClient).someFreeProcess ≠ none → e ≠ .pending) := by
  rw [Gen.op, Gen.clients, Gen.op] at hop
  split at hop
  · next e₁ gen₁ draws₁ heq =>
      have hinner : (gen.op (ctx.filter isClient) draws).1 = some (e₁, gen₁) := by rw [heq]
      have hminds := minds_op hprompt (ctx.filter isClient) draws e₁ gen₁ hinner
      have hkept := keeps_op hplain (ctx.filter isClient) draws e₁ gen₁ hinner
      cases e₁ with
      | pending =>
          rcases Prod.mk.inj (Option.some.inj hop) with ⟨he, hgen⟩
          rw [← he, ← hgen]
          refine ⟨⟨gen₁, hminds.1, rfl⟩, ?_, hminds.2⟩
          intro o ho
          cases ho
      | op o₁ =>
          rw [timeLimitOp] at hop
          split at hop
          · next hlt =>
              rcases Prod.mk.inj (Option.some.inj hop) with ⟨he, hgen⟩
              rw [← he, ← hgen]
              refine ⟨⟨gen₁, hminds.1, rfl⟩, ?_, fun _ hpending => by cases hpending⟩
              intro o _
              rcases hkept.2 o₁ rfl with ⟨m, hm, _, _, _, hle, _⟩
              rw [hm.time] at hle
              exact Nat.lt_of_le_of_lt hle hlt
          · cases hop
  · cases hop

/-- From the cutoff on an operation is for now, and uses up a map; with all threads free nothing
is pending. -/
theorem Expiring.op {c : ℕ} (h : Expiring c gen) (hplain : gen.All OpMap.Plain)
    (hop : (gen.op ctx draws).1 = some (e, gen')) :
    (∀ o, e = .op o → Expiring c gen' ∧
      (c ≤ ctx.time → gen'.size < gen.size ∧ o.time = ctx.time)) ∧
    (ctx.freeThreadCount = ctx.allThreadCount →
      (ctx.filter isClient).someFreeProcess ≠ none → e ≠ .pending) := by
  -- behind the cutoff only maps are left
  have hbrief : ∀ {gen : Gen α} {draws : Draws}, gen.Brief → gen.All OpMap.Plain →
      (gen.op ctx draws).1 = some (e, gen') →
      (∀ o, e = .op o → Expiring c gen' ∧ gen'.size < gen.size ∧ o.time = ctx.time) ∧
      (ctx.freeThreadCount = ctx.allThreadCount →
        (ctx.filter isClient).someFreeProcess ≠ none → e ≠ .pending) := by
    intro gen draws hbrief hplain hop
    rcases hbrief.op hplain hop with ⟨hemits, hpending⟩
    refine ⟨?_, fun hall hfree => hpending hall (someFreeProcess_of_filter hfree)⟩
    intro o ho
    rcases hemits o ho with ⟨hleft, hrest⟩
    exact ⟨.brief hleft, hrest⟩
  cases h with
  | brief hgen =>
      rcases hbrief hgen hplain hop with ⟨hemits, hpending⟩
      exact ⟨fun o ho => ⟨(hemits o ho).1, fun _ => (hemits o ho).2⟩, hpending⟩
  | @limited limit gen rest hgen hrest =>
      rw [Gen.op] at hop
      split at hop
      · next e₁ gen₁ draws₁ heq =>
          rcases Prod.mk.inj (Option.some.inj hop) with ⟨he, hgen'⟩
          have hfirst : ((Gen.timeLimit limit (some c) (.clients gen)).op ctx draws).1 =
              some (e, gen₁) := by
            rw [heq, he]
          rcases limited_op hgen hplain.1 hfirst with ⟨⟨gen₂, hgen₂, hshape⟩, hbefore, hpending⟩
          refine ⟨?_, fun _ => hpending⟩
          intro o ho
          rw [← hgen', hshape]
          refine ⟨.limited hgen₂ hrest, ?_⟩
          -- an operation of the clients is before the cutoff
          intro hpast
          have hlt := hbefore o ho
          omega
      · -- the clients have had their time
        rcases hbrief hrest hplain.2 hop with ⟨hemits, hpending⟩
        refine ⟨?_, hpending⟩
        intro o ho
        rcases hemits o ho with ⟨hleft, hsize, htime⟩
        exact ⟨hleft, fun _ => ⟨Nat.lt_of_lt_of_le hsize (Nat.le_add_left _ _), htime⟩⟩

/-- Events keep the cutoff. -/
theorem Expiring.update {c : ℕ} (h : Expiring c gen) (ctx : Context) (event : Operation α) :
    Expiring c (gen.update ctx event) := by
  cases h with
  | brief hgen => exact .brief (hgen.update ctx event)
  | limited hgen hrest =>
      rw [Gen.update, Gen.update, Gen.clients, Gen.update]
      split
      · exact .limited (hgen.update _ event) hrest
      · exact .limited hgen hrest

end Gen

/-- The reads and writes of the test are prompt. -/
theorem prompt_workload (i : ℕ) :
    (Gen.staggerBy (1 / 10) (Gen.mixOf i [.fn r, .fn w])).Prompt := by
  intro j
  have hfn : ∀ gen ∈ [Gen.fn r, Gen.fn w], gen.Prompt := by
    intro gen hgen
    rcases List.mem_cons.mp hgen with heq | hgen
    · rw [heq]
      trivial
    · rw [List.mem_singleton.mp hgen]
      trivial
  exact hfn _ (List.get_mem ..)

/-- The first read or write is for now. -/
theorem workload_op (i : ℕ) {ctx : Context} (draws : Draws) (hfree : ctx.someFreeProcess ≠ none) :
    ∃ o gen' draws', (Gen.staggerBy (1 / 10) (Gen.mixOf i [.fn r, .fn w])).op ctx draws =
      (some (.op o, gen'), draws') ∧ o.time = ctx.time := by
  -- one of the two functions is called
  have hfn : ∃ f, (∀ draws, (f draws).1.Plain) ∧
      [Gen.fn r, Gen.fn w].get (Fin.ofNat 2 i) = .fn f := by
    rcases List.mem_cons.mp (List.get_mem [Gen.fn r, Gen.fn w] (Fin.ofNat 2 i)) with hr | hw
    · exact ⟨r, fun draws => (kvMap_r draws).plain, hr⟩
    · exact ⟨w, fun draws => (kvMap_w draws).plain, List.mem_singleton.mp hw⟩
  rcases hfn with ⟨f, hplain, hget⟩
  cases hfill : fillInOp (f draws).1 ctx with
  | pending => exact absurd hfill (Gen.fillInOp_ne_pending hfree)
  | op o =>
      have hcalled : ([Gen.fn r, Gen.fn w].get (Fin.ofNat 2 i)).op ctx draws =
          (some (.op o, .cons .nil (.single (.fn f))), (f draws).2) := by
        rw [hget, Gen.op, hfill]
        rfl
      have htime : o.time = ctx.time := Gen.time_fillInOp (hplain draws) hfill
      have hmix : ∃ gen' draws', (Gen.mixOf i [.fn r, .fn w]).op ctx draws =
          (some (.op o, gen'), draws') := by
        rw [Gen.mixOf, Gen.op]
        show ∃ gen' draws', Gen.mixOp 2 _ (fun j => ([Gen.fn r, Gen.fn w].get j).op ctx) i draws =
          (some (.op o, gen'), draws')
        rw [Gen.mixOp, hcalled]
        exact ⟨_, _, rfl⟩
      rcases hmix with ⟨gen', draws', hmix⟩
      rw [Gen.staggerBy, Gen.op, hmix, Gen.staggerOp]
      have hnow : (none : Option ℕ).getD ctx.time ≤ o.time := Nat.le_of_eq htime.symm
      rw [if_pos hnow]
      exact ⟨o, _, _, rfl, htime⟩

/-- With a free client the generator of a test starts at once. -/
theorem omnipaxosTest_op {timeLimit : ℚ} (hpos : 0 < timeLimit) (i : ℕ) {ctx : Context}
    (draws : Draws) (hall : ctx.freeThreadCount = ctx.allThreadCount)
    (hfree : (ctx.filter Gen.isClient).someFreeProcess ≠ none) :
    ∃ o gen' c, ((omnipaxosTest timeLimit i).op ctx draws).1 = some (.op o, gen') ∧
      o.time = ctx.time ∧ gen'.Expiring c := by
  rcases workload_op i draws hfree with ⟨o, gen₁, draws₁, hop, htime⟩
  have hprompt := (Gen.minds_op (prompt_workload i) _ draws (.op o) gen₁ (by rw [hop])).1
  have hclients : (Gen.clients (Gen.staggerBy (1 / 10) (Gen.mixOf i [.fn r, .fn w]))).op ctx
      draws = (some (.op o, .clients gen₁), draws₁) := by
    rw [Gen.clients, Gen.op, hop]
    rfl
  have hbrief : (Gen.cons (.synchronize (.log "Test complete, waiting before final check"))
      (.single (.synchronize (.sleep 5)))).Brief := ⟨trivial, trivial⟩
  rw [omnipaxosTest, testPhases, Gen.timeLimitOf, if_pos hpos]
  show ∃ o gen' c, ((Gen.cons (.synchronize (.timeLimit (secsToNanos timeLimit) none _))
    (.cons (.synchronize (.log _)) (.single (.synchronize (.sleep 5))))).op ctx draws).1 =
      some (.op o, gen') ∧ o.time = ctx.time ∧ gen'.Expiring c
  rw [Gen.op, Gen.op, if_pos hall, Gen.op, hclients, Gen.timeLimitOp]
  by_cases hlt : o.time < (none : Option ℕ).getD (o.time + secsToNanos timeLimit)
  · rw [if_pos hlt]
    exact ⟨o, _, _, rfl, htime, .limited hprompt hbrief⟩
  · -- with a limit of less than a nanosecond the message is the first
    rw [if_neg hlt]
    show ∃ o gen' c, ((Gen.cons (.synchronize (.map _)) (.single (.synchronize (.sleep 5)))).op ctx
      draws₁).1 = some (.op o, gen') ∧ o.time = ctx.time ∧ gen'.Expiring c
    rw [Gen.op, Gen.op, if_pos hall, Gen.op]
    cases hfill : fillInOp (⟨none, some .log, none,
        .message "Test complete, waiting before final check", false⟩ : OpMap Payload) ctx with
    | pending =>
        exact absurd hfill (Gen.fillInOp_ne_pending (Gen.someFreeProcess_of_filter hfree))
    | op o' =>
        refine ⟨o', _, 0, rfl, Gen.time_fillInOp (all_log _).plain hfill, .brief ?_⟩
        exact ⟨trivial, trivial⟩

/-! ## Ranks -/

/-- The threads of a test. -/
def threads (n : ℕ) : Finset Name := (⟨n, ["nemesis"]⟩ : TranslationTable).allNames.toFinset

/-- The steps that are ahead of what a worker has. -/
def Worker.weight {α : Type} (w : Worker α) : ℕ :=
  (match w.inbox with
    | some (.op _) => 3
    | _ => 0) + if w.current.isSome then 2 else 0

def Worker.staying {α : Type} (w : Worker α) : ℕ := if w.exited then 0 else 1

/-- What goes on in a run on its own: the loop, and each worker. -/
inductive Task where
  | loop
  | worker (thread : Name)
deriving DecidableEq, Repr

def Task.does {α : Type} : Task → RunStep α → Prop
  | .loop, .complete _ => True
  | .loop, .ask _ _ => True
  | .loop, .join => True
  | .worker thread, .take thread' => thread' = thread
  | .worker thread, .finish thread' _ => thread' = thread
  | _, _ => False

/-- What the clock shows in a step. -/
def RunStep.reading {α : Type} : RunStep α → Option ℕ
  | .complete time => some time
  | .ask time _ => some time
  | _ => none

/-- What an update at one place does to a sum. -/
theorem sum_update {ι β : Type} [DecidableEq ι] {S : Finset ι} (f : ι → β) (weight : β → ℕ) {i : ι}
    (hi : i ∈ S) (b : β) :
    ∑ x ∈ S, weight (Function.update f i b x) + weight (f i) = ∑ x ∈ S, weight (f x) + weight b := by
  have hrest : ∑ x ∈ S.erase i, weight (Function.update f i b x) =
      ∑ x ∈ S.erase i, weight (f x) := by
    refine Finset.sum_congr rfl fun x hx => ?_
    rw [Function.update_of_ne (Finset.ne_of_mem_erase hx)]
  rw [← Finset.add_sum_erase S _ hi, hrest, Function.update_self, ← Finset.add_sum_erase S _ hi]
  omega

namespace Interpreter

variable {α : Type} {n c : ℕ} {s : Interpreter (Gen α) α}

/-- Each operation that the generator has left takes four steps. Then all workers exit. -/
def rank (n : ℕ) (s : Interpreter (Gen α) α) : ℕ :=
  match s.status with
  | .running => 4 * s.gen.size + (∑ t ∈ threads n, (s.workers t).weight + s.completions.length) +
      ((threads n).card + 2)
  | .stopping => ∑ t ∈ threads n, (s.workers t).staying + 1
  | _ => 0

def Helps (n : ℕ) : Task → Interpreter (Gen α) α → Prop
  | .loop, s => match s.status with
      | .running => s.completions ≠ [] ∨ s.outstanding = 0
      | .stopping => ∀ t ∈ threads n, (s.workers t).exited = true
      | _ => False
  | .worker thread, s => thread ∈ threads n ∧ match s.status with
      | .running => (s.workers thread).ops ≠ []
      | .stopping => (s.workers thread).exited = false
      | _ => False

/-- A worker that has been told to exit exits, and does nothing else. -/
def Leaving (s : Interpreter (Gen α) α) : Prop :=
  s.status = .stopping → ∀ thread, (s.workers thread).exited = true ∨
    ((s.workers thread).inbox = some .exit ∧ (s.workers thread).current = none)

/-- The run is well under way, its cutoff known. -/
structure Ending (n c : ℕ) (s : Interpreter (Gen α) α) : Prop where
  sound : s.Sound n
  safe : s.status ≠ .thrown
  plain : s.gen.All OpMap.Plain
  expiring : s.gen.Expiring c
  leaving : s.Leaving

theorem Sound.mem_threads (h : s.Sound n) {i : ℕ} {thread : Name}
    (hname : s.ctx.translationTable.indexToName i = some thread) : thread ∈ threads n := by
  rw [h.table] at hname
  exact List.mem_toFinset.mpr (Context.mem_allNames.mpr ⟨i, hname⟩)

theorem Sound.mem_threads_of_ops (h : s.Sound n) {thread : Name}
    (hops : (s.workers thread).ops ≠ []) : thread ∈ threads n := by
  rcases List.exists_mem_of_ne_nil _ hops with ⟨o, ho⟩
  rcases h.thread_of_ops ho with ⟨i, _, hname, _⟩
  exact h.mem_threads hname

/-! ## Steps -/

theorem rank_running (hrunning : s.status = .running) : s.rank n =
    4 * s.gen.size + (∑ t ∈ threads n, (s.workers t).weight + s.completions.length) +
      ((threads n).card + 2) := by
  rw [rank, hrunning]

theorem rank_stopping (hstopping : s.status = .stopping) :
    s.rank n = ∑ t ∈ threads n, (s.workers t).staying + 1 := by
  rw [rank, hstopping]

/-- To take a completion lowers the rank. -/
theorem rank_complete (h : s.Sound n) {time : ℕ}
    (hg : guard (Gen.generator α) (.complete time) s) :
    (update (Gen.generator α) (.complete time) s).rank n < s.rank n := by
  rcases complete_cases h hg with ⟨o, rest, i, thread, hback, _, _, _, hupdate⟩
  have hstatus : (s.completed (Gen.generator α) o rest time thread).status = .running :=
    (status_journal _).trans hg.1
  have hworkers : (s.completed (Gen.generator α) o rest time thread).workers = s.workers :=
    workers_journal _
  have hsize : (s.completed (Gen.generator α) o rest time thread).gen.size = s.gen.size :=
    Gen.size_update _ _ _
  rw [hupdate, rank_running hstatus, rank_running hg.1, hsize, hworkers, hback]
  show _ + (_ + rest.length) + _ < _
  rw [List.length_cons]
  omega

/-- A worker that takes its operation lowers the rank. -/
theorem rank_take (h : s.Sound n) (hrunning : s.status = .running) {thread : Name}
    (hg : guard (Gen.generator α) (.take thread) s) :
    (update (Gen.generator α) (.take thread) s).rank n < s.rank n := by
  rcases hg with ⟨hinbox, hcurrent, _, _⟩
  cases hmsg : (s.workers thread).inbox with
  | none => exact absurd hmsg hinbox
  | some msg =>
      cases msg with
      | exit => exact absurd hmsg (h.exits hrunning thread).1
      | op o =>
          have hmem : thread ∈ threads n := by
            refine h.mem_threads_of_ops ?_
            rw [Worker.ops, hmsg]
            exact List.cons_ne_nil _ _
          have hold : (s.workers thread).weight = 3 := by
            rw [Worker.weight, hmsg, hcurrent]
            rfl
          have hnew : (⟨none, some o, false⟩ : Worker α).weight = 2 := rfl
          have hsum := sum_update s.workers Worker.weight hmem ⟨none, some o, false⟩
          have hupdate : update (Gen.generator α) (.take thread) s =
              s.setWorker thread ⟨none, some o, false⟩ := by
            rw [update, hmsg]
          have hstatus : (s.setWorker thread ⟨none, some o, false⟩).status = .running := hrunning
          rw [hupdate, rank_running hstatus, rank_running hrunning]
          show 4 * s.gen.size + (∑ t ∈ threads n, (Function.update s.workers thread _ t).weight +
            s.completions.length) + _ < _
          omega

/-- A worker that answers its operation lowers the rank. -/
theorem rank_finish (h : s.Sound n) (hrunning : s.status = .running) {thread : Name}
    {answer : Operation α} (hg : guard (Gen.generator α) (.finish thread answer) s) :
    (update (Gen.generator α) (.finish thread answer) s).rank n < s.rank n := by
  rcases hg with ⟨⟨o, ho, _⟩, _⟩
  have hcurrent : (s.workers thread).current = some o := ho
  have hmem : thread ∈ threads n := by
    refine h.mem_threads_of_ops ?_
    rw [Worker.ops, hcurrent]
    exact List.append_ne_nil_of_right_ne_nil _ (List.cons_ne_nil _ _)
  have hless : ({ s.workers thread with current := none } : Worker α).weight + 2 =
      (s.workers thread).weight := by
    rw [Worker.weight, Worker.weight, hcurrent]
    rfl
  have hsum := sum_update s.workers Worker.weight hmem { s.workers thread with current := none }
  have hstatus : (update (Gen.generator α) (.finish thread answer) s).status = .running := hrunning
  rw [rank_running hstatus, rank_running hrunning]
  show 4 * s.gen.size + (∑ t ∈ threads n, (Function.update s.workers thread _ t).weight +
    (s.completions ++ [answer]).length) + _ < _
  rw [List.length_append, List.length_singleton]
  omega

/-- The worker of a thread is given an operation. -/
theorem weight_tell (w : Worker α) (o : Operation α) :
    ({ w with inbox := some (.op o) } : Worker α).weight ≤ w.weight + 3 := by
  rw [Worker.weight, Worker.weight]
  show 3 + (if w.current.isSome then 2 else 0) ≤ _ + (if w.current.isSome then 2 else 0) + 3
  omega

/-- Past the cutoff a dispatch uses up a map, which weighs more than the operation of the
worker. -/
theorem Ending.dispatch (h : s.Ending n c) (hrunning : s.status = .running) {time : ℕ}
    (hpast : c ≤ time) {draws : Draws} {o : Operation α} {gen' : Gen α} {thread : Name}
    (hthread : s.ctx.processToThread o.process = some thread)
    (hverdict : s.verdict (Gen.generator α) time draws = .dispatch o gen') :
    ((s.read time).dispatch (Gen.generator α) o gen' thread).rank n < s.rank n := by
  rcases verdict_eq_dispatch hverdict with ⟨_, _, hop⟩
  have hsmaller := (((h.expiring.op h.plain hop).1 o rfl).2 hpast).1
  rcases h.sound.ctx.thread hthread with ⟨_, hname, _⟩
  have hmem := h.sound.mem_threads hname
  have hsize : ((s.read time).dispatch (Gen.generator α) o gen' thread).gen.size = gen'.size :=
    Gen.size_update _ _ _
  have hstatus : ((s.read time).dispatch (Gen.generator α) o gen' thread).status = .running :=
    (status_journal _).trans hrunning
  have hcompletions : ((s.read time).dispatch (Gen.generator α) o gen' thread).completions =
      s.completions := completions_journal _
  let w : Worker α := { s.workers thread with inbox := some (.op ((s.read time).stamp o)) }
  have hworkers : ((s.read time).dispatch (Gen.generator α) o gen' thread).workers =
      Function.update s.workers thread w := by
    show Function.update ((s.read time).journal _).workers thread _ = _
    rw [workers_journal]
    rfl
  have hsum := sum_update s.workers Worker.weight hmem w
  have hweight : w.weight ≤ (s.workers thread).weight + 3 := weight_tell _ _
  rw [rank_running hstatus, rank_running hrunning, hsize, hcompletions, hworkers]
  omega

/-! ## With nothing out -/

/-- With nothing out all threads are free. -/
theorem Sound.free_eq_all (h : s.Sound n) (hzero : s.outstanding = 0) :
    s.ctx.freeThreadCount = s.ctx.allThreadCount := by
  have hall : ∀ bits : ℕ → Bool, (∀ i < s.ctx.threadCount, bits i = true) →
      cardinality bits s.ctx.threadCount = s.ctx.threadCount := by
    intro bits hbits
    have hlength := List.countP_eq_length.mpr fun i hi => hbits i (List.mem_range.mp hi)
    rw [List.length_range] at hlength
    exact hlength
  show cardinality s.ctx.freeThreads _ = cardinality s.ctx.allThreads _
  rw [hall _ fun i hi => h.all_free hzero hi, hall _ h.ctx.all]

/-- The first client is free then. -/
theorem Sound.free_client (h : s.Sound n) (hzero : s.outstanding = 0) (hn : 0 < n) (time : ℕ) :
    (Context.filter { s.ctx with time := time } Gen.isClient).someFreeProcess ≠ none := by
  have hint : 0 < s.ctx.translationTable.intThreadCount := by
    rw [h.table]
    exact hn
  have hlt : 0 < s.ctx.threadCount := Nat.lt_of_lt_of_le hint (Nat.le_add_right _ _)
  intro hnone
  have hbusy := Context.someFreeProcess_eq_none hnone (i := 0) hlt
  change (s.ctx.freeThreads 0 && (s.ctx.translationTable.indexToName 0).any Gen.isClient) = false
    at hbusy
  rw [h.all_free hzero hlt, TranslationTable.indexToName_int hint] at hbusy
  exact absurd hbusy (by decide)

/-- An operation that is for now is dispatched. -/
theorem verdict_of_op (hctx : s.ctx.Sound) (hplain : s.gen.All OpMap.Plain) {time : ℕ}
    {draws : Draws} {o : Operation α} {gen' : Gen α}
    (hop : (Gen.generator α).op s.gen { s.ctx with time := time } draws = some (.op o, gen'))
    (htime : o.time ≤ time) : s.verdict (Gen.generator α) time draws = .dispatch o gen' := by
  have hemits := (Gen.keeps_op hplain { s.ctx with time := time } draws _ _ hop).2 o rfl
  rw [verdict, hop]
  show (if validate { s.ctx with time := time } o then _ else _) = _
  rw [if_pos (validate_of_emits hctx (fun _ hm => hm) hemits), if_neg (Nat.not_lt.mpr htime)]

/-- From the cutoff on the generator emits at once, or is exhausted. -/
theorem Ending.verdict_idle (h : s.Ending n c) (hzero : s.outstanding = 0) (hn : 0 < n) {time : ℕ}
    (hpast : c ≤ time) (draws : Draws) :
    s.verdict (Gen.generator α) time draws = .exhausted ∨
      ∃ o gen', s.verdict (Gen.generator α) time draws = .dispatch o gen' := by
  rcases verdict_cases (s := s) (Gen.generator α) time draws with ⟨heq, _⟩ | ⟨gen', _, hop⟩ |
    ⟨o, gen', hop, _⟩
  · exact .inl heq
  · exact absurd rfl ((h.expiring.op h.plain hop).2 (h.sound.free_eq_all hzero)
      (h.sound.free_client hzero hn time))
  · have htime : o.time = time := (((h.expiring.op h.plain hop).1 o rfl).2 hpast).2
    exact .inr ⟨o, gen', verdict_of_op h.sound.ctx h.plain hop (Nat.le_of_eq htime)⟩

/-- To stop lowers the rank: the workers have only to exit. -/
theorem rank_stop (hrunning : s.status = .running) (time : ℕ) :
    ({ s.read time with
      workers := fun name => tellExit (s.workers name), status := .stopping } :
        Interpreter (Gen α) α).rank n < s.rank n := by
  have hcard : ∑ t ∈ threads n, (tellExit (s.workers t)).staying ≤ (threads n).card := by
    have hone : ∀ t ∈ threads n, (tellExit (s.workers t)).staying ≤ 1 := by
      intro t _
      rw [Worker.staying]
      split
      · exact Nat.zero_le 1
      · exact Nat.le_refl 1
    calc ∑ t ∈ threads n, (tellExit (s.workers t)).staying
      _ ≤ ∑ _t ∈ threads n, 1 := Finset.sum_le_sum hone
      _ = (threads n).card := (Finset.card_eq_sum_ones _).symm
  rw [rank_running hrunning, rank_stopping rfl]
  show ∑ t ∈ threads n, (tellExit (s.workers t)).staying + 1 < _
  omega

/-- A round without an operation changes nothing, or is the last. -/
theorem Ending.ask (h : s.Ending n c) (hn : 0 < n) {time : ℕ} {draws : Draws} (hpast : c ≤ time)
    (hg : guard (Gen.generator α) (.ask time draws) s) :
    (update (Gen.generator α) (.ask time draws) s).rank n < s.rank n ∨
      (update (Gen.generator α) (.ask time draws) s = s.read time ∧ s.outstanding ≠ 0) := by
  show (s.asked (Gen.generator α) time draws).rank n < _ ∨
    (s.asked (Gen.generator α) time draws = _ ∧ _)
  rcases asked_cases h.sound (fun _ hm => hm) h.plain time draws with ⟨hnot, heq | ⟨_, heq⟩⟩ |
    ⟨o, gen', thread, hverdict, hthread, heq⟩
  · by_cases hzero : s.outstanding = 0
    · left
      rcases h.verdict_idle hzero hn hpast draws with hexhausted | ⟨o, gen', hverdict⟩
      · rw [asked, hexhausted]
        show (if 0 < s.outstanding then _ else _ : Interpreter (Gen α) α).rank n < _
        rw [if_neg (by omega)]
        exact rank_stop hg.1 time
      · exact absurd hverdict (hnot o gen')
    · exact .inr ⟨heq, hzero⟩
  · left
    rw [heq]
    exact rank_stop hg.1 time
  · left
    rw [heq]
    exact h.dispatch hg.1 hpast hthread hverdict

/-! ## What helps -/

/-- There is an answer to every operation. -/
theorem exists_answers (o : Operation α) : ∃ answer, Answers o answer := by
  by_cases hgoes : goesInHistory o.type = true
  · refine ⟨{ o with type := .info }, ?_⟩
    rw [Answers, if_pos hgoes]
    exact ⟨rfl, .inr (.inl rfl)⟩
  · refine ⟨o, ?_⟩
    rw [Answers, if_neg hgoes]

/-- Until the run has returned there is a task that brings the end nearer. -/
theorem Ending.helpful (h : s.Ending n c) (hend : s.status ≠ .returned) :
    ∃ k, Helps n k s := by
  cases hstatus : s.status with
  | returned => exact absurd hstatus hend
  | thrown => exact absurd hstatus h.safe
  | stopping =>
      by_cases hall : ∀ t ∈ threads n, (s.workers t).exited = true
      · refine ⟨.loop, ?_⟩
        rw [Helps, hstatus]
        exact hall
      · simp only [not_forall, Bool.not_eq_true] at hall
        rcases hall with ⟨t, ht, hstays⟩
        refine ⟨.worker t, ht, ?_⟩
        rw [hstatus]
        exact hstays
  | running =>
      by_cases hloop : s.completions ≠ [] ∨ s.outstanding = 0
      · refine ⟨.loop, ?_⟩
        rw [Helps, hstatus]
        exact hloop
      · rcases not_or.mp hloop with ⟨hnone, hout⟩
        -- some thread is busy, and its operation is with its worker
        have hbusy : ∃ i < s.ctx.threadCount, s.ctx.freeThreads i = false := by
          by_contra hfree
          apply hout
          have hcounted := h.sound.counted
          have hall : cardinality s.ctx.freeThreads s.ctx.threadCount = s.ctx.threadCount := by
            have hlength := List.countP_eq_length (p := s.ctx.freeThreads)
              (l := List.range s.ctx.threadCount) |>.mpr ?_
            · rw [List.length_range] at hlength
              exact hlength
            · intro i hi
              cases hbit : s.ctx.freeThreads i with
              | true => rfl
              | false => exact absurd ⟨i, List.mem_range.mp hi, hbit⟩ hfree
          omega
        rcases hbusy with ⟨i, hi, hbit⟩
        rcases TranslationTable.exists_indexToName hi with ⟨thread, hname⟩
        rcases (h.sound.slots i thread hname).busy hbit with ⟨o, hheld, _⟩
        rw [held, not_ne_iff.mp hnone] at hheld
        refine ⟨.worker thread, h.sound.mem_threads hname, ?_⟩
        rw [hstatus]
        intro hops
        rw [hops] at hheld
        cases hheld

/-- A task that helps can go on. -/
theorem Ending.enabled (h : s.Ending n c) {k : Task} (hk : Helps n k s) :
    ∃ l, k.does l ∧ guard (Gen.generator α) l s := by
  cases hstatus : s.status with
  | returned =>
      cases k with
      | loop =>
          rw [Helps, hstatus] at hk
          exact absurd hk id
      | worker t =>
          rw [Helps, hstatus] at hk
          exact absurd hk.2 id
  | thrown => exact absurd hstatus h.safe
  | stopping =>
      cases k with
      | loop =>
          rw [Helps, hstatus] at hk
          refine ⟨.join, trivial, hstatus, ?_⟩
          intro name hname
          rw [h.sound.table] at hname
          exact hk name (List.mem_toFinset.mpr hname)
      | worker t =>
          rw [Helps, hstatus] at hk
          -- a worker that has not exited finds the word to exit in its queue
          rcases h.leaving hstatus t with hexited | ⟨hinbox, hcurrent⟩
          · rw [hk.2] at hexited
            cases hexited
          · refine ⟨.take t, rfl, ?_, hcurrent, hk.2, h.safe⟩
            rw [hinbox]
            exact Option.some_ne_none _
  | running =>
      cases k with
      | loop =>
          by_cases hnone : s.completions = []
          · exact ⟨.ask s.clock [], trivial, hstatus, Nat.le_refl _, hnone,
              h.sound.room hstatus _ _⟩
          · exact ⟨.complete s.clock, trivial, hstatus, Nat.le_refl _, hnone⟩
      -- a worker with an operation takes it or answers it; it has one at most
      | worker t =>
          rw [Helps, hstatus] at hk
          rcases List.exists_mem_of_ne_nil _ hk.2 with ⟨o, ho⟩
          rcases h.sound.thread_of_ops ho with ⟨i, _, hname, _⟩
          have hlength := h.sound.held_length_le hname
          rw [held, List.length_append, Worker.ops] at hlength
          rw [Worker.ops] at ho
          cases hinbox : (s.workers t).inbox with
          | some msg =>
              cases msg with
              | exit => exact absurd hinbox (h.sound.exits hstatus t).1
              | op o' =>
                  have hcurrent : (s.workers t).current = none := by
                    cases hcurrent : (s.workers t).current with
                    | none => rfl
                    | some o'' =>
                        rw [hinbox, hcurrent] at hlength
                        simp only [List.length_append, List.length_singleton,
                          Option.toList_some] at hlength
                        omega
                  refine ⟨.take t, rfl, ?_, hcurrent, (h.sound.exits hstatus t).2, h.safe⟩
                  rw [hinbox]
                  exact Option.some_ne_none _
          | none =>
              rw [hinbox, List.nil_append, Option.mem_toList] at ho
              rcases exists_answers o with ⟨answer, hanswer⟩
              have hops : o ∈ (s.workers t).ops :=
                List.mem_append_right _ (Option.mem_toList.mpr ho)
              exact ⟨.finish t answer, rfl, ⟨o, ho, hanswer⟩,
                h.sound.length_completions_lt hops, h.safe⟩

/-- In the loop a step lowers the rank, or leaves it to the task that helps. -/
theorem Ending.step_running (h : s.Ending n c) (hn : 0 < n) (hrunning : s.status = .running)
    {k : Task} (hk : Helps n k s) {l : RunStep α} (hpast : ∀ time ∈ l.reading, c ≤ time)
    (hg : guard (Gen.generator α) l s) :
    (update (Gen.generator α) l s).rank n < s.rank n ∨
      ((update (Gen.generator α) l s).rank n = s.rank n ∧
        Helps n k (update (Gen.generator α) l s) ∧ ¬ k.does l) := by
  cases l with
  | complete time => exact .inl (rank_complete h.sound hg)
  | take thread => exact .inl (rank_take h.sound hrunning hg)
  | finish thread answer => exact .inl (rank_finish h.sound hrunning hg)
  | join =>
      rw [hg.1] at hrunning
      cases hrunning
  | ask time draws =>
      rcases h.ask hn (hpast time rfl) hg with hlower | ⟨heq, hout⟩
      · exact .inl hlower
      · right
        rw [heq]
        cases k with
        | loop =>
            -- then the round would not have been without an operation
            rw [Helps, hrunning] at hk
            rcases hk with hback | hzero
            · exact absurd hg.2.2.1 hback
            · exact absurd hzero hout
        | worker t => exact ⟨rfl, hk, id⟩

/-- While the workers exit a helpful step lowers the rank too, unless the run returns. -/
theorem Ending.step_stopping (h : s.Ending n c) (hstopping : s.status = .stopping)
    {k : Task} (hk : Helps n k s) {l : RunStep α} (hg : guard (Gen.generator α) l s) :
    (update (Gen.generator α) l s).status = .returned ∨
      (update (Gen.generator α) l s).rank n < s.rank n ∨
      ((update (Gen.generator α) l s).rank n = s.rank n ∧
        Helps n k (update (Gen.generator α) l s) ∧ ¬ k.does l) := by
  -- nothing is out, so only exits and the return are left
  have hzero : s.outstanding = 0 := by
    refine h.sound.stopped ?_
    rw [hstopping]
    exact fun heq => by cases heq
  cases l with
  | complete time =>
      rw [hg.1] at hstopping
      cases hstopping
  | ask time draws =>
      rw [hg.1] at hstopping
      cases hstopping
  | join => exact .inl rfl
  | finish thread answer =>
      rcases hg.1 with ⟨o, ho, _⟩
      have hops : o ∈ (s.workers thread).ops :=
        List.mem_append_right _ (Option.mem_toList.mpr ho)
      rw [h.sound.ops_eq_nil hzero thread] at hops
      cases hops
  | take thread =>
      right
      rcases h.leaving hstopping thread with hexited | ⟨hinbox, _⟩
      · rw [hg.2.2.1] at hexited
        cases hexited
      · have hupdate : update (Gen.generator α) (.take thread) s =
            s.setWorker thread ⟨none, none, true⟩ := by
          rw [update, hinbox]
        have hstatus : (s.setWorker thread ⟨none, none, true⟩).status = .stopping := hstopping
        rw [hupdate]
        by_cases hmem : thread ∈ threads n
        -- one of those that are counted has exited
        · left
          have hsum := sum_update s.workers Worker.staying hmem ⟨none, none, true⟩
          have hbefore : (s.workers thread).staying = 1 := by
            rw [Worker.staying, hg.2.2.1]
            rfl
          have hafter : (⟨none, none, true⟩ : Worker α).staying = 0 := rfl
          rw [rank_stopping hstatus, rank_stopping hstopping]
          show ∑ t ∈ threads n, (Function.update s.workers thread _ t).staying + 1 < _
          omega
        · -- no thread of the test
          have hsame : ∀ t ∈ threads n,
              (s.setWorker thread ⟨none, none, true⟩).workers t = s.workers t := by
            intro t ht
            refine Function.update_of_ne ?_ _ _
            intro heq
            exact hmem (heq ▸ ht)
          right
          refine ⟨?_, ?_⟩
          · rw [rank_stopping hstatus, rank_stopping hstopping]
            exact congrArg (· + 1) (Finset.sum_congr rfl fun t ht => by rw [hsame t ht])
          · cases k with
            | loop =>
                rw [Helps, hstopping] at hk
                refine ⟨?_, id⟩
                rw [Helps, hstatus]
                intro t ht
                rw [hsame t ht]
                exact hk t ht
            | worker t =>
                rw [Helps, hstopping] at hk
                refine ⟨?_, ?_⟩
                · rw [Helps, hstatus, hsame t hk.1]
                  exact hk
                · intro hdoes
                  have heq : thread = t := hdoes
                  exact hmem (heq ▸ hk.1)

/-- From the cutoff on every step brings the end nearer, or leaves it to the task that
helps. -/
theorem descent {c : ℕ} (hn : 0 < n) {gen : Gen α} : Machine.Run.Descent
    (interpreter (Gen.generator α) n gen) (Ending n c) (fun s => s.status = .returned)
    (fun l : RunStep α => ∀ time ∈ l.reading, c ≤ time) (Helps n) Task.does (rank n) := by
  refine ⟨?_, ?_, ?_⟩
  · intro s h hend
    exact h.helpful hend
  · intro s k h _ hk
    exact h.enabled hk
  · intro s k l h hend hk hpast hg
    cases hstatus : s.status with
    | running => exact .inr (h.step_running hn hstatus hk hpast hg)
    | stopping => exact h.step_stopping hstatus hk hg
    | returned => exact absurd hstatus hend
    | thrown => exact absurd hstatus h.safe

/-! ## Until the cutoff is known -/

/-- With nothing out nothing is on its way back. -/
theorem Sound.completions_eq_nil (h : s.Sound n) (hzero : s.outstanding = 0) :
    s.completions = [] := by
  apply List.eq_nil_iff_forall_not_mem.mpr
  intro o ho
  rcases (h.completing o ho).1 with ⟨i, hi, hprocess⟩
  rcases TranslationTable.exists_indexToName hi with ⟨thread, hname⟩
  have hnone := ((h.slots i thread hname).idle (h.all_free hzero hi)).1
  have hheld : o ∈ s.held thread (s.ctx.threadIndexToProcess i) :=
    List.mem_append_right _ (List.mem_filter.mpr ⟨ho, by simpa using hprocess⟩)
  rw [hnone] at hheld
  cases hheld

theorem leaving_of_running (h : s.status = .running) : s.Leaving := by
  intro hstopping
  rw [h] at hstopping
  cases hstopping

/-- In every run the workers that are told to exit do nothing else. -/
theorem leaving_reachable {gen : Gen α} (hgen : gen.All OpMap.Plain)
    (hr : (interpreter (Gen.generator α) n gen).Reachable s) : s.Leaving := by
  refine (interpreter (Gen.generator α) n gen).invariant Leaving ?_ ?_ s hr
  · intro s hs
    rw [hs]
    exact leaving_of_running rfl
  · intro l s hs hg h
    rcases planned_reachable (fun _ hm => hm) hgen hs with ⟨hplanned, hsound⟩
    have hidle : s.outstanding = 0 → ∀ thread, (s.workers thread).current = none := by
      intro hzero thread
      have hnone := hsound.ops_eq_nil hzero thread
      rw [Worker.ops, List.append_eq_nil_iff] at hnone
      exact Option.toList_eq_nil_iff.mp hnone.2
    cases l with
    | complete time =>
        have hg' : guard (Gen.generator α) (.complete time) s := hg
        rcases complete_cases hsound hg' with ⟨o, rest, i, thread, _, _, _, _, hupdate⟩
        show (update (Gen.generator α) (.complete time) s).Leaving
        rw [hupdate]
        exact leaving_of_running ((status_journal _).trans hg.1)
    | ask time draws =>
        show (s.asked (Gen.generator α) time draws).Leaving
        rcases asked_cases hsound (fun _ hm => hm) hplanned.gen time draws with
          ⟨_, heq | ⟨hzero, heq⟩⟩ | ⟨o, gen', thread, _, _, heq⟩
        · rw [heq]
          exact leaving_of_running hg.1
        · rw [heq]
          exact fun _ thread => .inr ⟨rfl, hidle hzero thread⟩
        · rw [heq]
          exact leaving_of_running ((status_journal _).trans hg.1)
    | take thread =>
        show (update (Gen.generator α) (.take thread) s).Leaving
        rw [update]
        split
        · exact h
        · intro hstopping thread'
          show (Function.update s.workers thread _ thread').exited = true ∨
            (Function.update s.workers thread _ thread').inbox = _ ∧
              (Function.update s.workers thread _ thread').current = _
          by_cases hthread : thread' = thread
          · left
            rw [hthread, Function.update_self]
          · rw [Function.update_of_ne hthread]
            exact h hstopping thread'
        · next o hinbox =>
            -- it would have been told to exit
            intro hstopping
            rcases h hstopping thread with hexited | ⟨hexit, _⟩
            · rw [hg.2.2.1] at hexited
              cases hexited
            · rw [hinbox] at hexit
              cases hexit
    | finish thread answer =>
        intro hstopping
        rcases hg.1 with ⟨o, ho, _⟩
        have hzero : s.outstanding = 0 := by
          refine hsound.stopped ?_
          rw [show s.status = .stopping from hstopping]
          exact fun heq => by cases heq
        rw [Option.mem_def, hidle hzero thread] at ho
        cases ho
    | join =>
        intro hstopping
        cases hstopping

/-- Once the cutoff is known it stays. -/
theorem expiring_update {gen : Gen α} (hgen : gen.All OpMap.Plain)
    (hr : (interpreter (Gen.generator α) n gen).Reachable s) (h : s.gen.Expiring c)
    {l : RunStep α} (hg : guard (Gen.generator α) l s) :
    (update (Gen.generator α) l s).gen.Expiring c := by
  rcases planned_reachable (fun _ hm => hm) hgen hr with ⟨hplanned, hsound⟩
  cases l with
  | complete time =>
      rcases complete_cases hsound hg with ⟨o, rest, i, thread, _, _, _, _, hupdate⟩
      rw [hupdate]
      exact h.update _ _
  | ask time draws =>
      show (s.asked (Gen.generator α) time draws).gen.Expiring c
      rcases asked_cases hsound (fun _ hm => hm) hplanned.gen time draws with
        ⟨_, heq | ⟨_, heq⟩⟩ | ⟨o, gen', thread, hverdict, _, heq⟩
      · rw [heq]
        exact h
      · rw [heq]
        exact h
      · rw [heq]
        rcases verdict_eq_dispatch hverdict with ⟨_, _, hop⟩
        exact ((h.op hplanned.gen hop).1 o rfl).1.update _ _
  | take thread =>
      rw [update]
      split
      · exact h
      · exact h
      · exact h
  | finish thread answer => exact h
  | join => exact h

/-- Nothing has happened yet. -/
structure Fresh (gen : Gen α) (s : Interpreter (Gen α) α) : Prop where
  gen : s.gen = gen
  outstanding : s.outstanding = 0
  running : s.status = .running

/-- Nothing can happen but a round. -/
theorem Fresh.ask_of_guard {gen : Gen α} (h : s.Fresh gen) (hsound : s.Sound n) {l : RunStep α}
    (hg : guard (Gen.generator α) l s) : ∃ time draws, l = .ask time draws := by
  have hops := hsound.ops_eq_nil h.outstanding
  cases l with
  | ask time draws => exact ⟨time, draws, rfl⟩
  | complete time => exact absurd (hsound.completions_eq_nil h.outstanding) hg.2.2
  | take thread => exact absurd (hsound.inbox_of_idle h.running (hops thread)) hg.1
  | finish thread answer =>
      rcases hg.1 with ⟨o, ho, _⟩
      have hmem : o ∈ (s.workers thread).ops :=
        List.mem_append_right _ (Option.mem_toList.mpr ho)
      rw [hops thread] at hmem
      cases hmem
  | join =>
      have hrunning := h.running
      rw [hg.1] at hrunning
      cases hrunning

/-! ## The test -/

section

variable {s : Interpreter (Gen Payload) Payload} {timeLimit : ℚ} {i : ℕ}

/-- The first round sets the cutoff. -/
theorem Fresh.starts (h : s.Fresh (omnipaxosTest timeLimit i)) (hpos : 0 < timeLimit)
    (hn : 0 < n) (hsound : s.Sound n) (time : ℕ) (draws : Draws) :
    ∃ c, (update (Gen.generator Payload) (.ask time draws) s).gen.Expiring c := by
  have hplain : s.gen.All OpMap.Plain := by
    rw [h.gen]
    exact (limited_omnipaxosTest hpos i).all
  have hall : Context.freeThreadCount { s.ctx with time := time } =
      Context.allThreadCount { s.ctx with time := time } := hsound.free_eq_all h.outstanding
  rcases omnipaxosTest_op hpos i draws hall
    (hsound.free_client h.outstanding hn time) with ⟨o, gen', c, hop, htime, hexpiring⟩
  rw [← h.gen] at hop
  have hverdict := verdict_of_op hsound.ctx hplain hop (Nat.le_of_eq htime)
  refine ⟨c, ?_⟩
  show (s.asked (Gen.generator Payload) time draws).gen.Expiring c
  rcases asked_cases hsound (fun _ hm => hm) hplain time draws with
    ⟨hnot, _⟩ | ⟨o', gen'', thread, hverdict', _, heq⟩
  · exact absurd hverdict (hnot o gen')
  · rw [hverdict] at hverdict'
    rw [heq, ← (Verdict.dispatch.inj hverdict').2]
    exact hexpiring.update _ _

/-- In every run of the test nothing has happened yet, or the cutoff is known. -/
theorem begun_reachable (hpos : 0 < timeLimit) (hn : 0 < n)
    (hr : (interpreter (Gen.generator Payload) n (omnipaxosTest timeLimit i)).Reachable s) :
    s.Fresh (omnipaxosTest timeLimit i) ∨ ∃ c, s.gen.Expiring c := by
  refine (interpreter (Gen.generator Payload) n (omnipaxosTest timeLimit i)).invariant
    (fun s => s.Fresh (omnipaxosTest timeLimit i) ∨ ∃ c, s.gen.Expiring c) ?_ ?_ s hr
  · intro s hs
    rw [hs]
    exact .inl ⟨rfl, rfl, rfl⟩
  · intro l s hs hg h
    right
    rcases h with hfresh | ⟨c, hexpiring⟩
    · rcases ofTest_reachable hpos hs with ⟨_, _, hsound⟩
      rcases hfresh.ask_of_guard hsound hg with ⟨time, draws, hl⟩
      rw [hl]
      exact hfresh.starts hpos hn hsound time draws
    · exact ⟨c, expiring_update (limited_omnipaxosTest hpos i).all hs hexpiring hg⟩

/-- The first round comes. -/
theorem descent_begin (hpos : 0 < timeLimit) (hn : 0 < n) : Machine.Run.Descent
    (interpreter (Gen.generator Payload) n (omnipaxosTest timeLimit i))
    (interpreter (Gen.generator Payload) n (omnipaxosTest timeLimit i)).Reachable
    (fun s => ∃ c, s.gen.Expiring c) (fun _ => True) (fun k _ => k = Task.loop) Task.does
    (fun _ => 0) := by
  refine ⟨?_, ?_, ?_⟩
  · intro s _ _
    exact ⟨.loop, rfl⟩
  · intro s k hr hnot hk
    rcases begun_reachable hpos hn hr with hfresh | hexpiring
    · rcases ofTest_reachable hpos hr with ⟨_, _, hsound⟩
      rw [hk]
      exact ⟨.ask s.clock [], trivial, hfresh.running, Nat.le_refl _,
        hsound.completions_eq_nil hfresh.outstanding, hsound.room hfresh.running _ _⟩
    · exact absurd hexpiring hnot
  · intro s k l hr hnot _ _ hg
    left
    rcases begun_reachable hpos hn hr with hfresh | hexpiring
    · rcases ofTest_reachable hpos hr with ⟨_, _, hsound⟩
      rcases hfresh.ask_of_guard hsound hg with ⟨time, draws, hl⟩
      rw [hl]
      exact hfresh.starts hpos hn hsound time draws
    · exact absurd hexpiring hnot

/-- Every test ends: if the loop goes round, each worker takes and answers what it is given, and
time goes on, then the run returns, and every invocation has its completion. -/
theorem omnipaxosTest_returns (timeLimit : ℚ) (hpos : 0 < timeLimit) (i n : ℕ) (hn : 0 < n)
    (r : (interpreter (Gen.generator Payload) n (omnipaxosTest timeLimit i)).Run)
    (hloop : r.Fair Task.loop.does)
    (hworkers : ∀ thread ∈ threads n, r.Fair (Task.worker thread).does)
    (htime : ∀ time, ∃ m, ∀ j l, m ≤ j → r.label j = some l → ∀ t ∈ l.reading, time ≤ t) :
    ∃ j, (r.state j).status = .returned ∧ ∀ p, Closed p (r.state j).history := by
  rcases (descent_begin hpos hn).eventually r (fun k s hk => hk ▸ hloop) 0
    (fun j _ => r.reachable j) (fun _ _ _ _ => trivial) with ⟨m, _, c, hexpiring⟩
  have hstays : ∀ j, m ≤ j → (r.state j).gen.Expiring c := by
    intro j hj
    induction j, hj using Nat.le_induction with
    | base => exact hexpiring
    | succ j _ ih =>
        cases hlabel : r.label j with
        | none =>
            rw [r.idle j hlabel]
            exact ih
        | some l =>
            rcases r.move j l hlabel with ⟨hg, hnext⟩
            rw [hnext]
            exact expiring_update (limited_omnipaxosTest hpos i).all (r.reachable j) ih hg
  -- from some time on the clock is past the cutoff
  rcases htime c with ⟨m', hpast⟩
  have hending : ∀ j, max m m' ≤ j → (r.state j).Ending n c := by
    intro j hj
    rcases ofTest_reachable hpos (r.reachable j) with ⟨_, hplanned, hsound⟩
    exact ⟨hsound, hplanned.safe, hplanned.gen, hstays j (Nat.le_trans (Nat.le_max_left m m') hj),
      leaving_reachable (limited_omnipaxosTest hpos i).all (r.reachable j)⟩
  have hfair : ∀ (k : Task) (s : Interpreter (Gen Payload) Payload), Helps n k s →
      r.Fair k.does := by
    intro k s hk
    cases k with
    | loop => exact hloop
    | worker thread => exact hworkers thread hk.1
  have hlate : ∀ j l, max m m' ≤ j → r.label j = some l → ∀ time ∈ l.reading, c ≤ time :=
    fun j l hj hlabel => hpast j l (Nat.le_trans (Nat.le_max_right m m') hj) hlabel
  rcases (descent hn).eventually r hfair (max m m') hending hlate with ⟨j, hj, hreturned⟩
  refine ⟨j, hreturned, ?_⟩
  have hsound := (hending j hj).sound
  refine hsound.closed (hsound.stopped ?_)
  rw [hreturned]
  exact fun heq => by cases heq

end

/-! ## A test that ends -/

def pauseMessage : Operation Payload :=
  ⟨2, 60000000007, .sleep, .int 0, .seconds 5, false⟩

/-- After the write come the message and the pause, and the workers exit. -/
def wholeRun : List (RunStep Payload) :=
  writeRun ++ [.ask 60000000005 [], .take nemesis,
    .finish nemesis { completeMessage with index := 2 }, .complete 60000000006,
    .ask 60000000007 [], .take (.int 0), .finish (.int 0) pauseMessage, .complete 65000000008,
    .ask 65000000009 [], .take (.int 0), .take nemesis, .join]

theorem wholeRun_valid : minuteTest.Valid (.start 1 (omnipaxosTest 60 1)) wholeRun := by
  decide +kernel

theorem wholeRun_returns :
    let s := minuteTest.after (.start 1 (omnipaxosTest 60 1)) wholeRun
    s.status = .returned ∧ s.workers (.int 0) = ⟨none, none, true⟩ ∧
      s.workers nemesis = ⟨none, none, true⟩ := by
  decide +kernel

/-- Once the workers have exited none of the tasks can go on. -/
theorem not_guard_of_returned {s : Interpreter (Gen Payload) Payload}
    (hreturned : s.status = .returned) {k : Task}
    (hworker : ∀ thread, k = .worker thread → s.workers thread = ⟨none, none, true⟩)
    {l : RunStep Payload} (hl : k.does l) : ¬ guard (Gen.generator Payload) l s := by
  intro hg
  cases l with
  | complete time =>
      rw [hg.1] at hreturned
      cases hreturned
  | ask time draws =>
      rw [hg.1] at hreturned
      cases hreturned
  | join =>
      rw [hg.1] at hreturned
      cases hreturned
  | take thread =>
      cases k with
      | loop => exact hl
      | worker thread' =>
          have hthread : thread = thread' := hl
          have hinbox := hg.1
          rw [hthread, hworker thread' rfl] at hinbox
          exact hinbox rfl
  | finish thread answer =>
      cases k with
      | loop => exact hl
      | worker thread' =>
          have hthread : thread = thread' := hl
          rcases hg.1 with ⟨o, ho, _⟩
          rw [hthread, hworker thread' rfl] at ho
          cases ho

/-- The run that ends with `wholeRun` is fair. -/
theorem omnipaxosTest_returns_write :
    ∃ r : (interpreter (Gen.generator Payload) 1 (omnipaxosTest 60 1)).Run,
      ∃ j, (r.state j).status = .returned ∧ ∀ p, Closed p (r.state j).history := by
  let M := interpreter (Gen.generator Payload) 1 (omnipaxosTest 60 1)
  have hstart : M.init (.start 1 (omnipaxosTest 60 1)) := rfl
  have hvalid : M.Valid (.start 1 (omnipaxosTest 60 1)) wholeRun :=
    valid_of_unbounded (.start hstart) wholeRun_valid
  rcases wholeRun_returns with ⟨hreturned, hclient, hnemesis⟩
  have hfair : ∀ k : Task, (∀ thread, k = .worker thread → thread = .int 0 ∨ thread = nemesis) →
      (Machine.Run.ofList M hstart wholeRun hvalid).Fair k.does := by
    intro k hk
    refine Machine.Run.fair_ofList hstart hvalid fun l hl => ?_
    refine not_guard_of_returned hreturned (fun thread hthread => ?_) hl
    rcases hk thread hthread with heq | heq
    · rw [heq]
      exact hclient
    · rw [heq]
      exact hnemesis
  refine ⟨Machine.Run.ofList M hstart wholeRun hvalid, ?_⟩
  refine omnipaxosTest_returns 60 (by decide) 1 1 (by decide) _ (hfair .loop ?_) ?_ ?_
  · intro thread hthread
    cases hthread
  · intro thread hthread
    refine hfair (.worker thread) fun thread' heq => ?_
    rw [← Task.worker.inj heq]
    have hmem : thread ∈ [Name.int 0, nemesis] := List.mem_toFinset.mp hthread
    rcases List.mem_cons.mp hmem with h | h
    · exact .inl h
    · exact .inr (List.mem_singleton.mp h)
  · -- the clock has been read for the last time
    intro time
    refine ⟨wholeRun.length, fun j l hj hl => ?_⟩
    have hlt := (List.getElem?_eq_some_iff.mp hl).1
    omega

end Interpreter

end Jepsen

end OmnipaxosKv
