import Mathlib.Data.Fin.SuccPred
import Mathlib.Data.Int.Notation
import OmnipaxosKv.Jepsen.Context

/-! # Generators (`jepsen/generator.clj`)

A generator is asked for an operation: it has one, it may have one later (`:pending`), or it
is exhausted. With the operation it returns what is left of it; and it is told of every
invocation and completion. Of the generators those are here that the test is built of, with
maps, functions that return maps, and sequences.

Random numbers are drawn from a list, and are 0 once it is empty.
-/

namespace OmnipaxosKv

namespace Jepsen

/-! ## Operations -/

inductive OperationType where
  | invoke
  | ok
  | info
  | fail
  | sleep
  | log
deriving DecidableEq, Repr

/-- `jepsen.history.Op`: `fields` is `:f`, `:value` and the rest. -/
structure Operation (α : Type) where
  index : ℤ
  time : ℕ
  type : OperationType
  process : Name
  fields : α
  endProcess : Bool
deriving DecidableEq, Repr

/-- A map that stands for an operation; what is `none` is filled in. -/
structure OpMap (α : Type) where
  time : Option ℕ
  type : Option OperationType
  process : Option Name
  fields : α
  endProcess : Bool
deriving DecidableEq, Repr

abbrev Draws := List ℕ

/-- `(rand-int n)`, and `(long (rand n))` -/
def randInt (n : ℕ) : Draws → ℕ × Draws
  | [] => (0, [])
  | d :: draws => (if n = 0 then 0 else d % n, draws)

/-- A random index is within its bound. -/
theorem randInt_lt {n : ℕ} (hn : 0 < n) (draws : Draws) : (randInt n draws).1 < n := by
  cases draws with
  | nil => exact hn
  | cons d draws =>
      show (if n = 0 then 0 else d % n) < n
      rw [if_neg (by omega)]
      exact Nat.mod_lt _ hn

/-- The first of the two that a generator returns. -/
inductive Emission (α : Type) where
  | pending
  | op (o : Operation α)
deriving DecidableEq, Repr

def fillInOp {α : Type} (m : OpMap α) (ctx : Context) : Emission α :=
  match ctx.someFreeProcess with
  | none => .pending
  | some p => .op
      { index := -1
        time := m.time.getD ctx.time
        type := m.type.getD .invoke
        process := m.process.getD p
        fields := m.fields
        endProcess := m.endProcess }

/-! ## Generators -/

/-- A sequence is `single` or `cons`; the generators of a `mix` are a vector. -/
inductive Gen (α : Type) where
  | nil
  | map (m : OpMap α)
  | fn (f : Draws → OpMap α × Draws)
  | single (gen : Gen α)
  | cons (gen rest : Gen α)
  | mix (i n : ℕ) (gens : Fin n → Gen α)
  | stagger (dt : ℕ) (nextTime : Option ℕ) (gen : Gen α)
  | onThreads (f : Name → Bool) (gen : Gen α)
  | timeLimit (limit : ℕ) (cutoff : Option ℕ) (gen : Gen α)
  | synchronize (gen : Gen α)

/-- `none` where a generator returns `nil`, and the draws that are left. -/
abbrev Result (α : Type) := Option (Emission α × Gen α) × Draws

namespace Gen

variable {α : Type}

/-- Generators that are exhausted are taken out of a mix, until one has something. -/
def mixOp : (n : ℕ) → (Fin n → Gen α) → (Fin n → Draws → Result α) → ℕ → Draws → Result α
  | 0, _, _, _, draws => (none, draws)
  | n + 1, gens, ops, i, draws =>
      match ops (Fin.ofNat (n + 1) i) draws with
      | (some (e, gen'), draws) =>
          let r := randInt (n + 1) draws
          (some (e, .mix r.1 (n + 1) (Function.update gens (Fin.ofNat (n + 1) i) gen')), r.2)
      | (none, draws) =>
          let r := randInt n draws
          mixOp n (fun j => gens ((Fin.ofNat (n + 1) i).succAbove j))
            (fun j => ops ((Fin.ofNat (n + 1) i).succAbove j)) r.1 r.2

/-- What is left of a map: nothing, once it has been used. -/
def afterMap (m : OpMap α) : Emission α → Gen α
  | .pending => .map m
  | .op _ => .nil

/-- Schedules an operation no sooner than `nextTime`. -/
def staggerOp (dt : ℕ) (nextTime : Option ℕ) (gen : Gen α) (now : ℕ) : Result α → Result α
  | (none, draws) => (none, draws)
  | (some (.pending, _), draws) => (some (.pending, .stagger dt nextTime gen), draws)
  | (some (.op o, gen'), draws) =>
      let next := nextTime.getD now
      let r := randInt dt draws
      if next ≤ o.time then (some (.op o, .stagger dt (some (o.time + r.1)) gen'), r.2)
      else (some (.op { o with time := next }, .stagger dt (some (next + r.1)) gen'), r.2)

/-- The cutoff is set by the first operation. -/
def timeLimitOp (limit : ℕ) (cutoff : Option ℕ) : Result α → Result α
  | (none, draws) => (none, draws)
  | (some (.pending, gen'), draws) => (some (.pending, .timeLimit limit cutoff gen'), draws)
  | (some (.op o, gen'), draws) =>
      let cutoff := cutoff.getD (o.time + limit)
      if o.time < cutoff then (some (.op o, .timeLimit limit (some cutoff) gen'), draws)
      else (none, draws)

def op : Gen α → Context → Draws → Result α
  | .nil, _, draws => (none, draws)
  | .map m, ctx, draws => (some (fillInOp m ctx, afterMap m (fillInOp m ctx)), draws)
  -- a function is called, and comes back after what it returned
  | .fn f, ctx, draws =>
      let m := f draws
      (some (fillInOp m.1 ctx, .cons (afterMap m.1 (fillInOp m.1 ctx)) (.single (.fn f))), m.2)
  | .single gen, ctx, draws => op gen ctx draws
  | .cons gen rest, ctx, draws =>
      match op gen ctx draws with
      | (some (e, gen'), draws) => (some (e, .cons gen' rest), draws)
      | (none, draws) => op rest ctx draws
  | .mix i n gens, ctx, draws => mixOp n gens (fun j => op (gens j) ctx) i draws
  | .stagger dt nextTime gen, ctx, draws =>
      staggerOp dt nextTime gen ctx.time (op gen ctx draws)
  | .onThreads f gen, ctx, draws =>
      match op gen (ctx.filter f) draws with
      | (some (e, gen'), draws) => (some (e, .onThreads f gen'), draws)
      | (none, draws) => (none, draws)
  | .timeLimit limit cutoff gen, ctx, draws => timeLimitOp limit cutoff (op gen ctx draws)
  | .synchronize gen, ctx, draws =>
      if ctx.freeThreadCount = ctx.allThreadCount then op gen ctx draws
      else (some (.pending, .synchronize gen), draws)

/-- Told of an invocation or a completion. Mixes ignore it. -/
def update : Gen α → Context → Operation α → Gen α
  | .nil, _, _ => .nil
  | .map m, _, _ => .map m
  | .fn f, _, _ => .fn f
  | .single gen, ctx, event => .single (update gen ctx event)
  | .cons gen rest, ctx, event => .cons (update gen ctx event) rest
  | .mix i n gens, _, _ => .mix i n gens
  | .stagger dt nextTime gen, ctx, event => .stagger dt nextTime (update gen ctx event)
  | .onThreads f gen, ctx, event =>
      if (ctx.processToThread event.process).any f then
        .onThreads f (update gen (ctx.filter f) event)
      else .onThreads f gen
  | .timeLimit limit cutoff gen, ctx, event => .timeLimit limit cutoff (update gen ctx event)
  | .synchronize gen, ctx, event => .synchronize (update gen ctx event)

/-! ## What a generator can emit -/

/-- All maps of the generator are such. -/
def All (P : OpMap α → Prop) : Gen α → Prop
  | .nil => True
  | .map m => P m
  | .fn f => ∀ draws, P (f draws).1
  | .single gen => gen.All P
  | .cons gen rest => gen.All P ∧ rest.All P
  | .mix _ _ gens => ∀ j, (gens j).All P
  | .stagger _ _ gen => gen.All P
  | .onThreads _ gen => gen.All P
  | .timeLimit _ _ gen => gen.All P
  | .synchronize gen => gen.All P

/-- The operation is that of a map, for a thread that is free, and not before its time. -/
def Emits (P : OpMap α → Prop) (ctx : Context) (o : Operation α) : Prop :=
  ∃ m, P m ∧ o.type = m.type.getD .invoke ∧ o.fields = m.fields ∧ o.endProcess = m.endProcess ∧
    m.time.getD ctx.time ≤ o.time ∧ ∃ i < ctx.threadCount, ctx.freeThreads i = true ∧
      o.process = m.process.getD (ctx.threadIndexToProcess i)

/-- A result keeps to `P`: so does its operation, and so does what is left. -/
def Keeps (P : OpMap α → Prop) (ctx : Context) (r : Result α) : Prop :=
  ∀ e gen', r.1 = some (e, gen') → gen'.All P ∧ ∀ o, e = .op o → Emits P ctx o

variable {P : OpMap α → Prop} {ctx : Context}

/-- A map that is filled in is emitted. -/
theorem emits_fillInOp {m : OpMap α} (hm : P m) {o : Operation α} (h : fillInOp m ctx = .op o) :
    Emits P ctx o := by
  rw [fillInOp] at h
  split at h
  · cases h
  · next p hp =>
      rcases Context.someFreeProcess_eq_some hp with ⟨i, hi, hfree, hprocess⟩
      rw [← Emission.op.inj h]
      refine ⟨m, hm, rfl, rfl, rfl, Nat.le_refl _, i, hi, hfree, ?_⟩
      rw [hprocess]

theorem all_afterMap {m : OpMap α} (hm : P m) (e : Emission α) : (afterMap m e).All P := by
  cases e with
  | pending => exact hm
  | op o => trivial

/-- The filter takes threads away. -/
theorem Emits.of_filter {f : Name → Bool} {o : Operation α} (h : Emits P (ctx.filter f) o) :
    Emits P ctx o := by
  rcases h with ⟨m, hm, htype, hfields, hend, htime, i, hi, hfree, hprocess⟩
  refine ⟨m, hm, htype, hfields, hend, htime, i, hi, ?_, hprocess⟩
  change (ctx.freeThreads i && _) = true at hfree
  rw [Bool.and_eq_true] at hfree
  exact hfree.1

theorem Emits.later {o : Operation α} (h : Emits P ctx o) {time : ℕ} (hle : o.time ≤ time) :
    Emits P ctx { o with time := time } := by
  rcases h with ⟨m, hm, htype, hfields, hend, htime, hrest⟩
  exact ⟨m, hm, htype, hfields, hend, Nat.le_trans htime hle, hrest⟩

/-- A mix emits what its parts emit, wherever it starts among them. -/
theorem keeps_mixOp {n : ℕ} {gens : Fin n → Gen α} {ops : Fin n → Draws → Result α}
    (hgens : ∀ j, (gens j).All P) (hops : ∀ j draws, Keeps P ctx (ops j draws)) (i : ℕ)
    (draws : Draws) : Keeps P ctx (mixOp n gens ops i draws) := by
  induction n generalizing i draws with
  | zero =>
      intro e gen' h
      cases h
  | succ n ih =>
      rw [mixOp]
      split
      · next e gen' draws' heq =>
          have hkept := hops (Fin.ofNat (n + 1) i) draws e gen' (by rw [heq])
          intro e' gen'' h
          rcases Prod.mk.inj (Option.some.inj h) with ⟨he, hgen⟩
          rw [← he, ← hgen]
          refine ⟨?_, hkept.2⟩
          intro j
          by_cases hj : j = Fin.ofNat (n + 1) i
          · rw [hj, Function.update_self]
            exact hkept.1
          · rw [Function.update_of_ne hj]
            exact hgens j
      · next draws' heq =>
          exact ih (fun j => hgens _) (fun j => hops _) _ _

/-- Staggered operations are moved in time only. -/
theorem keeps_staggerOp {dt : ℕ} {nextTime : Option ℕ} {gen : Gen α} (hgen : gen.All P) {now : ℕ}
    {r : Result α} (h : Keeps P ctx r) : Keeps P ctx (staggerOp dt nextTime gen now r) := by
  rcases r with ⟨_ | ⟨_ | o, gen'⟩, draws⟩
  · intro e gen'' heq
    cases heq
  · intro e gen'' heq
    rcases Prod.mk.inj (Option.some.inj heq) with ⟨he, hgen'⟩
    rw [← he, ← hgen']
    refine ⟨hgen, ?_⟩
    intro o ho
    cases ho
  · have hkept := h _ _ rfl
    intro e gen'' heq
    rw [staggerOp] at heq
    split at heq
    · rcases Prod.mk.inj (Option.some.inj heq) with ⟨he, hgen'⟩
      rw [← he, ← hgen']
      exact hkept
    · next hlt =>
        rcases Prod.mk.inj (Option.some.inj heq) with ⟨he, hgen'⟩
        rw [← he, ← hgen']
        refine ⟨hkept.1, ?_⟩
        intro o' ho'
        rw [← Emission.op.inj ho']
        exact (hkept.2 o rfl).later (by omega)

/-- A time limit drops operations. -/
theorem keeps_timeLimitOp {limit : ℕ} {cutoff : Option ℕ} {r : Result α} (h : Keeps P ctx r) :
    Keeps P ctx (timeLimitOp limit cutoff r) := by
  rcases r with ⟨_ | ⟨_ | o, gen'⟩, draws⟩
  · intro e gen'' heq
    cases heq
  · have hkept := h _ _ rfl
    intro e gen'' heq
    rcases Prod.mk.inj (Option.some.inj heq) with ⟨he, hgen'⟩
    rw [← he, ← hgen']
    exact hkept
  · have hkept := h _ _ rfl
    intro e gen'' heq
    rw [timeLimitOp] at heq
    split at heq
    · rcases Prod.mk.inj (Option.some.inj heq) with ⟨he, hgen'⟩
      rw [← he, ← hgen']
      exact hkept
    · cases heq

/-- By induction on the generator: it emits what its maps say, and so does what is left. -/
theorem keeps_op {gen : Gen α} (h : gen.All P) (ctx : Context) (draws : Draws) :
    Keeps P ctx (gen.op ctx draws) := by
  induction gen generalizing ctx draws with
  | nil =>
      intro e gen' heq
      cases heq
  | map m =>
      intro e gen' heq
      rcases Prod.mk.inj (Option.some.inj heq) with ⟨he, hgen⟩
      rw [← hgen, he]
      exact ⟨all_afterMap h e, fun o ho => emits_fillInOp h (he.trans ho)⟩
  | fn f =>
      intro e gen' heq
      rcases Prod.mk.inj (Option.some.inj heq) with ⟨he, hgen⟩
      rw [← hgen, he]
      refine ⟨⟨all_afterMap (h draws) e, h⟩, ?_⟩
      intro o ho
      exact emits_fillInOp (h draws) (he.trans ho)
  | single gen ih => exact ih h ctx draws
  | cons gen rest ih ihRest =>
      rw [op]
      split
      · next e gen' draws' heq =>
          have hkept := ih h.1 ctx draws e gen' (by rw [heq])
          intro e' gen'' heq'
          rcases Prod.mk.inj (Option.some.inj heq') with ⟨he, hgen⟩
          rw [← he, ← hgen]
          exact ⟨⟨hkept.1, h.2⟩, hkept.2⟩
      -- the first of the sequence is exhausted
      · exact ihRest h.2 ctx _
  | mix i n gens ih => exact keeps_mixOp h (fun j => ih j (h j) ctx) i draws
  | stagger dt nextTime gen ih =>
      have hgen : gen.All P := h
      exact keeps_staggerOp hgen (ih hgen ctx draws)
  | onThreads f gen ih =>
      rw [op]
      split
      · next e gen' draws' heq =>
          -- the inner generator sees the filtered context
          have hkept := ih h (ctx.filter f) draws e gen' (by rw [heq])
          intro e' gen'' heq'
          rcases Prod.mk.inj (Option.some.inj heq') with ⟨he, hgen⟩
          rw [← he, ← hgen]
          exact ⟨hkept.1, fun o ho => (hkept.2 o ho).of_filter⟩
      · intro e gen' heq
        cases heq
  | timeLimit limit cutoff gen ih => exact keeps_timeLimitOp (ih h ctx draws)
  | synchronize gen ih =>
      rw [op]
      split
      · exact ih h ctx draws
      -- behind the barrier it is pending
      · intro e gen' heq
        rcases Prod.mk.inj (Option.some.inj heq) with ⟨he, hgen⟩
        rw [← he, ← hgen]
        refine ⟨h, ?_⟩
        intro o ho
        cases ho

/-- Events do not add maps to a generator. -/
theorem all_update {gen : Gen α} (h : gen.All P) (ctx : Context) (event : Operation α) :
    (gen.update ctx event).All P := by
  induction gen generalizing ctx with
  | cons gen rest ih _ => exact ⟨ih h.1 ctx, h.2⟩
  | single gen ih => exact ih h ctx
  | stagger dt nextTime gen ih => exact ih h ctx
  | onThreads f gen ih =>
      rw [update]
      split
      · exact ih h (ctx.filter f)
      · exact h
  | timeLimit limit cutoff gen ih => exact ih h ctx
  | synchronize gen ih => exact ih h ctx
  | _ => exact h

end Gen

end Jepsen

end OmnipaxosKv
