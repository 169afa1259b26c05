import Mathlib.Data.Rat.Floor
import OmnipaxosKv.Jepsen.Client
import OmnipaxosKv.Jepsen.Phases

/-! # The workload (`jepsen/omnipaxos/core.clj`)

Reads and writes of a few keys, mixed and spread over time, by the clients, for as long as the
test is to last. Then a message and a pause.
-/

namespace OmnipaxosKv

namespace Jepsen

/-- `:f` and what belongs to it, with the `:error` of a completion; or the `:value` of `log`
and of `sleep`. -/
inductive Payload where
  | kv (op : Op) (error : Option OpError)
  | message (text : String)
  | seconds (dt : ℕ)
deriving DecidableEq, Repr

/-! ## Generators -/

def secsToNanos (s : ℚ) : ℕ := (s * 1000000000).floor.toNat

namespace Gen

variable {α : Type}

/-- All but the nemesis. -/
def isClient (thread : Name) : Bool := thread != nemesis

def clients (gen : Gen α) : Gen α := .onThreads isClient gen

/-- `i` is drawn. -/
def mixOf (i : ℕ) (gens : List (Gen α)) : Gen α :=
  .mix i gens.length fun j => gens.get j

def staggerBy (dt : ℚ) (gen : Gen α) : Gen α := .stagger (secsToNanos (2 * dt)) none gen

def timeLimitOf (dt : ℚ) (gen : Gen α) : Gen α :=
  if 0 < dt then .timeLimit (secsToNanos dt) none gen else .nil

def log (message : String) : Gen Payload :=
  .map ⟨none, some .log, none, .message message, false⟩

def sleep (dt : ℕ) : Gen Payload := .map ⟨none, some .sleep, none, .seconds dt, false⟩

end Gen

/-! ## The test -/

def keyCount : ℕ := 1

def testKey (k : ℕ) : String := "k" ++ toString k

def w (draws : Draws) : OpMap Payload × Draws :=
  let k := randInt keyCount draws
  let v := randInt 100 k.2
  (⟨none, some .invoke, none, .kv ⟨.write, testKey k.1, some v.1⟩ none, false⟩, v.2)

def r (draws : Draws) : OpMap Payload × Draws :=
  let k := randInt keyCount draws
  (⟨none, some .invoke, none, .kv ⟨.read, testKey k.1, none⟩ none, false⟩, k.2)

/-- `i` is drawn. -/
def testPhases (timeLimit : ℚ) (i : ℕ) : List (Gen Payload) :=
  [.timeLimitOf timeLimit (.clients (.staggerBy (1 / 10) (.mixOf i [.fn r, .fn w]))),
    .log "Test complete, waiting before final check",
    .sleep 5]

/-- `:generator` of the test. -/
def omnipaxosTest (timeLimit : ℚ) (i : ℕ) : Gen Payload := .phases (testPhases timeLimit i)

/-- The phase of an operation of the test. -/
def Payload.phase : Payload → ℕ
  | .kv _ _ => 0
  | .message _ => 1
  | .seconds _ => 2

/-- The operations of the test. -/
def Op.OfTest (op : Op) : Prop :=
  (∃ k < keyCount, op.key = testKey k) ∧
  match op.f with
  | .read => op.value = none
  | .write => ∃ v : ℕ, v < 100 ∧ op.value = some (v : ℤ)

structure KvMap (m : OpMap Payload) : Prop where
  plain : m.Plain
  type : m.type = some .invoke
  fields : ∃ op : Op, op.OfTest ∧ m.fields = .kv op none
  endProcess : m.endProcess = false

/-- A message or a pause. -/
structure IdleMap (m : OpMap Payload) : Prop where
  plain : m.Plain
  type : m.type = some .log ∨ m.type = some .sleep
  fields : m.fields.phase ≠ 0

/-- Messages and pauses are not journaled. -/
theorem IdleMap.goesInHistory {m : OpMap Payload} (h : IdleMap m) :
    Jepsen.goesInHistory (m.type.getD .invoke) = false := by
  rcases h.type with hlog | hsleep
  · rw [hlog]
    rfl
  · rw [hsleep]
    rfl

theorem kvMap_r (draws : Draws) : KvMap (r draws).1 := by
  refine ⟨⟨rfl, rfl, .inl rfl⟩, rfl, ⟨_, ?_, rfl⟩, rfl⟩
  exact ⟨⟨_, randInt_lt (by decide) draws, rfl⟩, rfl⟩

theorem kvMap_w (draws : Draws) : KvMap (w draws).1 := by
  refine ⟨⟨rfl, rfl, .inl rfl⟩, rfl, ⟨_, ?_, rfl⟩, rfl⟩
  exact ⟨⟨_, randInt_lt (by decide) draws, rfl⟩, _, randInt_lt (by decide) _, rfl⟩

theorem all_mixOf {α : Type} {P : OpMap α → Prop} (i : ℕ) {gens : List (Gen α)}
    (h : ∀ gen ∈ gens, gen.All P) : (Gen.mixOf i gens).All P :=
  fun _ => h _ (List.get_mem ..)

/-- The clients of the test read and write. -/
theorem all_workload (i : ℕ) :
    (Gen.staggerBy (1 / 10) (Gen.mixOf i [.fn r, .fn w])).All KvMap := by
  refine all_mixOf i ?_
  intro gen hgen
  rcases List.mem_cons.mp hgen with heq | hgen
  · rw [heq]
    exact kvMap_r
  · rw [List.mem_singleton.mp hgen]
    exact kvMap_w

theorem all_log (message : String) : (Gen.log message).All IdleMap :=
  ⟨⟨rfl, rfl, .inr (.inr (.inr rfl))⟩, .inl rfl, Nat.succ_ne_zero 0⟩

theorem all_sleep (dt : ℕ) : (Gen.sleep dt).All IdleMap :=
  ⟨⟨rfl, rfl, .inr (.inr (.inl rfl))⟩, .inr rfl, Nat.succ_ne_zero 1⟩

/-! ## The time limit -/

/-- The generator of a test of `limit` nanoseconds, with its cutoff once that is known. -/
inductive Limited (limit : ℕ) : Option ℕ → Gen Payload → Prop
  | fresh {gen rest : Gen Payload} : gen.All KvMap → rest.All IdleMap →
      Limited limit none (.cons (.synchronize (.timeLimit limit none (.clients gen))) rest)
  | started {cutoff : ℕ} {gen rest : Gen Payload} : gen.All KvMap → rest.All IdleMap →
      Limited limit (some cutoff) (.cons (.timeLimit limit (some cutoff) (.clients gen)) rest)
  | expired {cutoff : Option ℕ} {gen : Gen Payload} : gen.All IdleMap → Limited limit cutoff gen

section

variable {limit : ℕ} {cutoff : Option ℕ} {gen gen' : Gen Payload} {ctx : Context} {draws : Draws}
  {o : Operation Payload}

/-- An operation of the clients sets the cutoff or is before it. -/
theorem timeLimit_op (hgen : gen.All KvMap)
    (hop : ((Gen.timeLimit limit cutoff (.clients gen)).op ctx draws).1 = some (.op o, gen')) :
    ∃ c gen'', Gen.Emits KvMap (ctx.filter Gen.isClient) o ∧ gen''.All KvMap ∧
      gen' = .timeLimit limit (some c) (.clients gen'') ∧ o.time < c ∧
      c = cutoff.getD (o.time + limit) := by
  rw [Gen.op, Gen.clients, Gen.op] at hop
  split at hop
  · next e gen'' draws' heq =>
      have hkept := Gen.keeps_op hgen (ctx.filter Gen.isClient) draws e gen'' (by rw [heq])
      cases e with
      | pending => cases hop
      | op o' =>
          rw [Gen.timeLimitOp] at hop
          split at hop
          · next hlt =>
              rcases Prod.mk.inj (Option.some.inj hop) with ⟨ho, hgen'⟩
              rw [← Emission.op.inj ho, ← hgen']
              exact ⟨_, gen'', hkept.2 o' rfl, hkept.1, rfl, hlt, rfl⟩
          · cases hop
  · cases hop

/-- An operation is one of the clients before the cutoff, which the first one sets, or it is a
message or a pause. -/
theorem Limited.op (h : Limited limit cutoff gen)
    (hop : (gen.op ctx draws).1 = some (.op o, gen')) :
    (∃ c, Gen.Emits KvMap (ctx.filter Gen.isClient) o ∧ Limited limit (some c) gen' ∧
      o.time < c ∧ c = cutoff.getD (o.time + limit)) ∨
    (Gen.Emits IdleMap ctx o ∧ gen'.All IdleMap) := by
  -- behind the clients there are messages and pauses only
  have hidle : ∀ {gen : Gen Payload} {draws : Draws}, gen.All IdleMap →
      (gen.op ctx draws).1 = some (.op o, gen') →
      Gen.Emits IdleMap ctx o ∧ gen'.All IdleMap := by
    intro gen draws hgen hop
    have hkept := Gen.keeps_op hgen ctx draws _ _ hop
    exact ⟨hkept.2 o rfl, hkept.1⟩
  cases h with
  -- the cutoff is not known yet
  | @fresh gen rest hgen hrest =>
      rw [Gen.op, Gen.op] at hop
      split at hop
      · next e gen'' draws' heq =>
          rcases Prod.mk.inj (Option.some.inj hop) with ⟨he, hgen'⟩
          split at heq
          · left
            have hfirst : ((Gen.timeLimit limit none (.clients gen)).op ctx draws).1 =
                some (.op o, gen'') := by
              rw [heq, he]
            rcases timeLimit_op hgen hfirst with
              ⟨c, gen₁, hemits, hgen₁, hshape, hlt, hc⟩
            rw [← hgen', hshape]
            exact ⟨c, hemits, .started hgen₁ hrest, hlt, hc⟩
          -- a barrier that is not passed emits nothing
          · rw [← (Prod.mk.inj (Option.some.inj (Prod.mk.inj heq).1)).1] at he
            cases he
      · right
        exact hidle hrest hop
  | @started c gen rest hgen hrest =>
      rw [Gen.op] at hop
      split at hop
      · next e gen'' draws' heq =>
          left
          rcases Prod.mk.inj (Option.some.inj hop) with ⟨he, hgen'⟩
          have hfirst : ((Gen.timeLimit limit (some c) (.clients gen)).op ctx draws).1 =
              some (.op o, gen'') := by
            rw [heq, he]
          rcases timeLimit_op hgen hfirst with
            ⟨c', gen₁, hemits, hgen₁, hshape, hlt, hc⟩
          rw [← hgen', hshape]
          exact ⟨c', hemits, .started hgen₁ hrest, hlt, hc⟩
      -- the clients are exhausted
      · right
        exact hidle hrest hop
  | expired hgen => exact .inr (hidle hgen hop)

/-- Events leave the cutoff as it is. -/
theorem Limited.update (h : Limited limit cutoff gen) (event : Operation Payload) :
    Limited limit cutoff (gen.update ctx event) := by
  have hclients : ∀ {gen : Gen Payload}, gen.All KvMap → ∃ gen', gen'.All KvMap ∧
      (Gen.clients gen).update ctx event = Gen.clients gen' := by
    intro gen hgen
    rw [Gen.clients, Gen.update]
    split
    · exact ⟨_, Gen.all_update hgen _ event, rfl⟩
    · exact ⟨gen, hgen, rfl⟩
  cases h with
  | fresh hgen hrest =>
      rcases hclients hgen with ⟨gen', hgen', heq⟩
      rw [Gen.update, Gen.update, Gen.update, heq]
      exact .fresh hgen' hrest
  | started hgen hrest =>
      rcases hclients hgen with ⟨gen', hgen', heq⟩
      rw [Gen.update, Gen.update, heq]
      exact .started hgen' hrest
  | expired hgen => exact .expired (Gen.all_update hgen ctx event)

theorem Limited.all (h : Limited limit cutoff gen) : gen.All OpMap.Plain := by
  cases h with
  | fresh hgen hrest =>
      exact ⟨hgen.mono fun _ hm => hm.plain, hrest.mono fun _ hm => hm.plain⟩
  | started hgen hrest =>
      exact ⟨hgen.mono fun _ hm => hm.plain, hrest.mono fun _ hm => hm.plain⟩
  | expired hgen => exact hgen.mono fun _ hm => hm.plain

end

theorem limited_omnipaxosTest {timeLimit : ℚ} (hpos : 0 < timeLimit) (i : ℕ) :
    Limited (secsToNanos timeLimit) none (omnipaxosTest timeLimit i) := by
  rw [omnipaxosTest, testPhases, Gen.timeLimitOf, if_pos hpos]
  exact .fresh (all_workload i) ⟨all_log _, all_sleep 5⟩

/-! ## The invariant -/

/-- An operation that a client is to invoke. -/
structure Operation.OfClient (o : Operation Payload) : Prop where
  type : o.type = .invoke
  process : o.process.isInt = true
  fields : ∃ op : Op, op.OfTest ∧ o.fields = .kv op none
  endProcess : o.endProcess = false

/-- The times between the first invocation and the cutoff. -/
def Within (limit : ℕ) (clock : ℕ) (history : List (Operation Payload)) : Option ℕ → Prop
  | none => ∀ o ∈ history, o.type ≠ .invoke
  | some cutoff => ∃ first ≤ clock, cutoff = first + limit ∧
      ∀ o ∈ history, o.type = .invoke → first ≤ o.time ∧ o.time < cutoff

/-- Time goes on without another invocation. -/
theorem Within.later {limit clock clock' : ℕ} {history history' : List (Operation Payload)}
    {cutoff : Option ℕ} (h : Within limit clock history cutoff) (hclock : clock ≤ clock')
    (hhistory : ∀ o ∈ history', o.type = .invoke → o ∈ history) :
    Within limit clock' history' cutoff := by
  cases cutoff with
  | none =>
      intro o ho htype
      exact h o (hhistory o ho htype) htype
  | some c =>
      rcases h with ⟨first, hfirst, hc, hall⟩
      exact ⟨first, Nat.le_trans hfirst hclock, hc,
        fun o ho htype => hall o (hhistory o ho htype) htype⟩

namespace Interpreter

variable {limit n : ℕ} {s : Interpreter (Gen Payload) Payload}

structure OfTest (limit : ℕ) (s : Interpreter (Gen Payload) Payload) : Prop where
  client : ∀ o ∈ s.history, o.type = .invoke → o.OfClient
  opened : ∀ p o, phase p s.history = some (.open o) → o.type = .invoke
  limited : ∃ cutoff, Limited limit cutoff s.gen ∧ Within limit s.clock s.history cutoff

/-- The clock goes on and nothing else. -/
theorem OfTest.later (h : s.OfTest limit) {s' : Interpreter (Gen Payload) Payload}
    (hgen : s'.gen = s.gen) (hclock : s.clock ≤ s'.clock) (hhistory : s'.history = s.history) :
    s'.OfTest limit := by
  refine ⟨?_, ?_, ?_⟩
  · rw [hhistory]
    exact h.client
  · rw [hhistory]
    exact h.opened
  · rcases h.limited with ⟨cutoff, hlimited, hwithin⟩
    rw [hgen, hhistory]
    exact ⟨cutoff, hlimited, hwithin.later hclock fun o ho _ => ho⟩

/-- A thread that is not the nemesis executes a process that is an integer. -/
theorem isInt_of_filter (h : s.Sound n) {i : ℕ} (time : ℕ)
    (hfree : (Context.filter { s.ctx with time := time } Gen.isClient).freeThreads i = true) :
    (s.ctx.threadIndexToProcess i).isInt = true := by
  change (s.ctx.freeThreads i && (s.ctx.translationTable.indexToName i).any Gen.isClient) = true
    at hfree
  rw [Bool.and_eq_true] at hfree
  have hname := hfree.2
  by_cases hint : i < s.ctx.translationTable.intThreadCount
  · rcases h.ctx.numbered i hint with ⟨k, hk⟩
    rw [hk]
    rfl
  · -- the one thread that is no integer is the nemesis
    exfalso
    rw [TranslationTable.indexToName, if_neg hint, h.table] at hname
    rcases Option.any_eq_true _ _ |>.mp hname with ⟨thread, hthread, hclient⟩
    rcases Option.map_eq_some_iff.mp hthread with ⟨x, hx, hkeyword⟩
    rw [List.getElem?_singleton] at hx
    split at hx
    · rw [← hkeyword, ← Option.some.inj hx] at hclient
      exact absurd hclient (by decide)
    · cases hx

/-- What the clients' generator emits is for a client. -/
theorem ofClient_of_emits (h : s.Sound n) {time : ℕ} {o : Operation Payload}
    (hemits : Gen.Emits KvMap (Context.filter { s.ctx with time := time } Gen.isClient) o) :
    o.OfClient := by
  rcases hemits with ⟨m, hm, htype, hfields, hend, _, i, _, hfree, hprocess⟩
  rw [hm.plain.process, Option.getD_none] at hprocess
  refine ⟨?_, ?_, ?_, hend.trans hm.endProcess⟩
  · rw [htype, hm.type]
    rfl
  · rw [hprocess]
    exact isInt_of_filter h time hfree
  · rcases hm.fields with ⟨op, hop, hkv⟩
    exact ⟨op, hop, hfields.trans hkv⟩

/-- What is dispatched is a read or a write of a client, or it is not journaled. -/
theorem OfTest.kinds (h : s.OfTest limit) (hsound : s.Sound n) {time : ℕ} {draws : Draws}
    {o : Operation Payload} {gen' : Gen Payload}
    (hverdict : s.verdict (Gen.generator Payload) time draws = .dispatch o gen') :
    o.OfClient ∨ (goesInHistory o.type = false ∧ o.fields.phase ≠ 0) := by
  rcases h.limited with ⟨cutoff, hlimited, _⟩
  rcases verdict_eq_dispatch hverdict with ⟨_, _, hop⟩
  rcases hlimited.op hop with ⟨_, hemits, _⟩ | ⟨hemits, _⟩
  · exact .inl (ofClient_of_emits hsound hemits)
  · rcases hemits with ⟨m, hm, htype, hfields, _⟩
    right
    rw [htype, hfields]
    exact ⟨hm.goesInHistory, hm.fields⟩

/-- The loop dispatches what the generator emits. -/
theorem OfTest.dispatch (h : s.OfTest limit) (hsound : s.Sound n) {time : ℕ}
    (hclock : s.clock ≤ time) {draws : Draws} {o : Operation Payload} {gen' : Gen Payload}
    (hverdict : s.verdict (Gen.generator Payload) time draws = .dispatch o gen') (thread : Name) :
    ((s.read time).dispatch (Gen.generator Payload) o gen' thread).OfTest limit := by
  rcases h.limited with ⟨cutoff, hlimited, hwithin⟩
  rcases verdict_eq_dispatch hverdict with ⟨_, htime, hop⟩
  have hclock' : ((s.read time).dispatch (Gen.generator Payload) o gen' thread).clock = time :=
    clock_journal _
  have hmem : ∀ x ∈ ((s.read time).dispatch (Gen.generator Payload) o gen' thread).history,
      x ∈ s.history ∨ x = (s.read time).stamp o := fun x hx => mem_journal (s := s.read time) hx
  rcases hlimited.op hop with ⟨c, hemits, hgen', hlt, hc⟩ | ⟨hemits, hgen'⟩
  · have hclient := ofClient_of_emits hsound hemits
    have hnew : ((s.read time).stamp o).OfClient :=
      ⟨hclient.type, hclient.process, hclient.fields, hclient.endProcess⟩
    rcases hemits with ⟨m, hm, _, _, _, hlate, _⟩
    rw [hm.plain.time, Option.getD_none] at hlate
    have hnow : o.time = time := Nat.le_antisymm htime hlate
    refine ⟨?_, ?_, some c, hgen'.update _, ?_⟩
    · intro x hx hxtype
      rcases hmem x hx with hold | hxnew
      · exact h.client x hold hxtype
      · rw [hxnew]
        exact hnew
    · intro p x hopen
      rcases phase_journal_open (s := s.read time) hopen with hold | ⟨hx, _, _⟩
      · exact h.opened p x hold
      · rw [hx]
        exact hnew.type
    · rw [hclock']
      cases cutoff with
      | none =>
          -- the first of all
          refine ⟨time, Nat.le_refl time, ?_, ?_⟩
          · rw [hc, hnow]
            rfl
          · intro x hx hxtype
            rcases hmem x hx with hold | hxnew
            · exact absurd hxtype (hwithin x hold)
            · rw [hxnew]
              exact ⟨hlate, hlt⟩
      | some c' =>
          rcases hwithin with ⟨first, hfirst, hcutoff, hall⟩
          have hsame : c = c' := hc
          refine ⟨first, Nat.le_trans hfirst hclock, hsame.trans hcutoff, ?_⟩
          intro x hx hxtype
          rcases hmem x hx with hold | hxnew
          · rw [hsame]
            exact hall x hold hxtype
          · rw [hxnew]
            exact ⟨Nat.le_trans hfirst (Nat.le_trans hclock hlate), hlt⟩
  · rcases hemits with ⟨m, hm, htype, _⟩
    -- a message or a pause is not journaled
    have hsilent : ((s.read time).dispatch (Gen.generator Payload) o gen' thread).history =
        s.history := by
      have hgoes : goesInHistory ((s.read time).stamp o).type = false := by
        show goesInHistory o.type = false
        rw [htype, hm.goesInHistory]
      show ((s.read time).journal ((s.read time).stamp o)).history = s.history
      rw [journal_silent hgoes]
      rfl
    refine ⟨?_, ?_, cutoff, .expired (Gen.all_update hgen' _ _), ?_⟩
    · rw [hsilent]
      exact h.client
    · rw [hsilent]
      exact h.opened
    · rw [hclock', hsilent]
      exact hwithin.later hclock fun o ho _ => ho

/-- The loop takes a completion. -/
theorem OfTest.complete (h : s.OfTest limit) (hsound : s.Sound n) {time : ℕ}
    (hg : guard (Gen.generator Payload) (.complete time) s) :
    (update (Gen.generator Payload) (.complete time) s).OfTest limit := by
  rcases complete_cases hsound hg with ⟨o, rest, i, thread, hback, _, _, _, hupdate⟩
  have hmem : o ∈ s.completions := by
    rw [hback]
    exact List.mem_cons_self
  have hnot := hsound.type_ne_invoke hmem
  rw [hupdate]
  have hold : ∀ x ∈ (s.completed (Gen.generator Payload) o rest time thread).history,
      x.type = .invoke → x ∈ s.history := by
    intro x hx hxtype
    rcases mem_journal (s := s) hx with hold | hxnew
    · exact hold
    · rw [hxnew] at hxtype
      exact absurd hxtype hnot
  have hopened := fun p x hopen => h.opened p x (hsound.opened_complete hg hopen)
  rw [hupdate] at hopened
  refine ⟨fun x hx hxtype => h.client x (hold x hx hxtype) hxtype, hopened, ?_⟩
  rcases h.limited with ⟨cutoff, hlimited, hwithin⟩
  exact ⟨cutoff, hlimited.update _, hwithin.later hg.2.1 hold⟩

/-- Every step keeps the invariant of the test. -/
theorem OfTest.update (h : s.OfTest limit) (hsound : s.Sound n) {l : RunStep Payload}
    (hg : guard (Gen.generator Payload) l s) :
    (update (Gen.generator Payload) l s).OfTest limit := by
  cases l with
  | complete time => exact h.complete hsound hg
  | ask time draws =>
      show (s.asked (Gen.generator Payload) time draws).OfTest limit
      rcases h.limited with ⟨_, hlimited, _⟩
      rcases asked_cases hsound (fun _ hm => hm) hlimited.all time draws with
        ⟨_, heq | ⟨_, heq⟩⟩ | ⟨o, gen', thread, hverdict, _, heq⟩
      · rw [heq]
        exact h.later rfl hg.2.1 rfl
      · rw [heq]
        exact h.later rfl hg.2.1 rfl
      · rw [heq]
        exact h.dispatch hsound hg.2.1 hverdict thread
  | take thread =>
      rw [Interpreter.update]
      split
      · exact h
      · exact h.later rfl (Nat.le_refl _) rfl
      · exact h.later rfl (Nat.le_refl _) rfl
  | finish thread answer => exact h.later rfl (Nat.le_refl _) rfl
  | join => exact h.later rfl (Nat.le_refl _) rfl

/-- The invariant of the test holds in every run. -/
theorem ofTest_reachable {timeLimit : ℚ} (hpos : 0 < timeLimit) {i : ℕ}
    (hr : (interpreter (Gen.generator Payload) n (omnipaxosTest timeLimit i)).Reachable s) :
    s.OfTest (secsToNanos timeLimit) ∧ s.Planned OpMap.Plain ∧ s.Sound n := by
  have hplanned : ∀ {s : Interpreter (Gen Payload) Payload},
      (interpreter (Gen.generator Payload) n (omnipaxosTest timeLimit i)).Reachable s →
        s.Planned OpMap.Plain ∧ s.Sound n := fun hr =>
    planned_reachable (fun _ hm => hm) (limited_omnipaxosTest hpos i).all hr
  refine ⟨?_, hplanned hr⟩
  refine (interpreter (Gen.generator Payload) n (omnipaxosTest timeLimit i)).invariant
    (OfTest (secsToNanos timeLimit)) ?_ ?_ s hr
  · intro s hs
    rw [hs]
    refine ⟨?_, ?_, none, limited_omnipaxosTest hpos i, ?_⟩
    · intro o ho
      cases ho
    · intro p o hopen
      cases hopen
    · intro o ho
      cases ho
  · intro l s hs hg h
    exact h.update (hplanned hs).2 hg

/-- The test never ends with an exception. Its invocations are reads and writes of the keys of
the test by clients, the times of its history are in order, and there is less than the time
limit between any two invocations. -/
theorem omnipaxosTest_history (timeLimit : ℚ) (hpos : 0 < timeLimit) (i n : ℕ) :
    ∀ s, (interpreter (Gen.generator Payload) n (omnipaxosTest timeLimit i)).Reachable s →
      s.status ≠ .thrown ∧
      (∀ o ∈ s.history, o.type = .invoke → o.OfClient) ∧
      s.history.Pairwise (fun o o' => o.time ≤ o'.time) ∧
      ∀ o ∈ s.history, ∀ o' ∈ s.history, o.type = .invoke → o'.type = .invoke →
        o'.time < o.time + secsToNanos timeLimit := by
  intro s hr
  rcases ofTest_reachable hpos hr with ⟨h, hplanned, _⟩
  refine ⟨hplanned.safe, h.client, hplanned.sorted, ?_⟩
  intro o ho o' ho' htype htype'
  rcases h.limited with ⟨cutoff, _, hwithin⟩
  cases cutoff with
  | none => exact absurd htype (hwithin o ho)
  | some c =>
      rcases hwithin with ⟨first, _, hc, hall⟩
      have hfirst := (hall o ho htype).1
      have hlast := (hall o' ho' htype').2
      omega

/-! ## The end of the test -/

/-- Only messages and pauses are left. -/
structure Quiet (s : Interpreter (Gen Payload) Payload) : Prop where
  gen : s.gen.All IdleMap
  working : ∀ thread, ∀ o ∈ (s.workers thread).ops, goesInHistory o.type = false
  completing : ∀ o ∈ s.completions, goesInHistory o.type = false

/-- Something that is not journaled goes to its worker. -/
theorem quiet_dispatch {gen' : Gen Payload} (hgen' : gen'.All IdleMap)
    (hworking : ∀ thread, ∀ o ∈ (s.workers thread).ops, goesInHistory o.type = false)
    (hcompleting : ∀ o ∈ s.completions, goesInHistory o.type = false) {o : Operation Payload}
    (ho : goesInHistory o.type = false) (thread : Name) :
    (s.dispatch (Gen.generator Payload) o gen' thread).Quiet ∧
      (s.dispatch (Gen.generator Payload) o gen' thread).history = s.history := by
  have hsilent : s.journal (s.stamp o) = s := journal_silent ho
  rw [dispatch, hsilent]
  refine ⟨⟨Gen.all_update hgen' _ _, ?_, hcompleting⟩, rfl⟩
  intro thread' x hx
  change x ∈ (Function.update s.workers thread _ thread').ops at hx
  by_cases hthread : thread' = thread
  · rw [hthread, Function.update_self] at hx
    rcases List.mem_append.mp hx with hnew | hcurrent
    · rw [List.mem_singleton.mp hnew]
      exact ho
    · exact hworking thread x (List.mem_append_right _ hcurrent)
  · rw [Function.update_of_ne hthread] at hx
    exact hworking thread' x hx

/-- A message is dispatched, or a pause: nothing is open then. -/
theorem OfTest.quiet (h : s.OfTest limit) (hsound : s.Sound n) {k : ℕ}
    (hphase : s.AtPhase Payload.phase k) {time : ℕ} {draws : Draws}
    (hg : guard (Gen.generator Payload) (.ask time draws) s) {o : Operation Payload}
    {gen' : Gen Payload}
    (hverdict : s.verdict (Gen.generator Payload) time draws = .dispatch o gen')
    (htype : o.type ≠ .invoke) :
    (∀ p, Closed p s.history) ∧
      (Interpreter.update (Gen.generator Payload) (.ask time draws) s).Quiet ∧
      (Interpreter.update (Gen.generator Payload) (.ask time draws) s).history = s.history := by
  rcases h.limited with ⟨cutoff, hlimited, _⟩
  rcases verdict_eq_dispatch hverdict with ⟨_, _, hop⟩
  rcases hlimited.op hop with ⟨_, hemits, _⟩ | ⟨hemits, hgen'⟩
  · rcases hemits with ⟨m, hm, hinvoke, _⟩
    rw [hm.type] at hinvoke
    exact absurd hinvoke htype
  · rcases hemits with ⟨m, hm, hidle, hfields, _⟩
    have honly := (hphase.dispatch hsound hverdict).1
    -- what is open would be of the same phase as the message
    have hnone : ∀ p x, phase p s.history ≠ some (.open x) := by
      intro p x hopen
      rcases (h.client x (mem_of_phase_open hopen).1 (h.opened p x hopen)).fields with ⟨op, _, hkv⟩
      have hsame := honly.opened p x hopen
      rw [hkv, hfields] at hsame
      exact hm.fields hsame.symm
    have hworking : ∀ thread, ∀ x ∈ (s.workers thread).ops, goesInHistory x.type = false := by
      intro thread x hx
      rcases hsound.thread_of_ops hx with ⟨i, hi, hname, hbusy, hheld, _⟩
      rcases (hsound.slots i thread hname).busy hbusy with ⟨y, hheld', _, ph, hph, hgoes, _⟩
      rw [hheld] at hheld'
      rw [← List.singleton_inj.mp hheld'] at hgoes
      cases hjournaled : goesInHistory x.type with
      | false => rfl
      | true =>
          rcases hgoes hjournaled with ⟨invocation, hopened⟩
          rw [hopened] at hph
          exact absurd hph (hnone _ _)
    refine ⟨?_, ?_⟩
    · intro p
      rcases hsound.exists_phase p with ⟨ph, hph⟩
      cases ph with
      | ready => exact .inl hph
      | «open» x => exact absurd hph (hnone p x)
      | crashed => exact .inr hph
    · show (s.asked (Gen.generator Payload) time draws).Quiet ∧
        (s.asked (Gen.generator Payload) time draws).history = s.history
      rcases asked_cases hsound (fun _ hm => hm) hlimited.all time draws with ⟨hnot, _⟩ |
        ⟨o', gen'', thread, hverdict', _, heq⟩
      · exact absurd hverdict (hnot o gen')
      · rw [hverdict] at hverdict'
        rcases Verdict.dispatch.inj hverdict' with ⟨ho, hgen⟩
        rw [heq, ← ho, ← hgen]
        have hgoes : goesInHistory o.type = false := by
          rw [hidle, hm.goesInHistory]
        refine quiet_dispatch (s := s.read time) hgen' hworking ?_ hgoes thread
        intro x hx
        change x ∈ s.completions at hx
        rw [hg.2.2.1] at hx
        cases hx

/-- From then on the history stays as it is. -/
theorem Quiet.update (h : s.Quiet) (hsound : s.Sound n) {l : RunStep Payload}
    (hg : guard (Gen.generator Payload) l s) :
    (update (Gen.generator Payload) l s).Quiet ∧
      (update (Gen.generator Payload) l s).history = s.history := by
  -- a worker has what it had, or less
  have hworker : ∀ thread (w : Worker Payload), (∀ o ∈ w.ops, o ∈ (s.workers thread).ops) →
      ∀ thread', ∀ o ∈ ((s.setWorker thread w).workers thread').ops,
        goesInHistory o.type = false := by
    intro thread w hw thread' o ho
    change o ∈ (Function.update s.workers thread w thread').ops at ho
    by_cases hthread : thread' = thread
    · rw [hthread, Function.update_self] at ho
      exact h.working thread o (hw o ho)
    · rw [Function.update_of_ne hthread] at ho
      exact h.working thread' o ho
  cases l with
  | complete time =>
      rcases complete_cases hsound hg with ⟨o, rest, i, thread, hback, _, _, _, hupdate⟩
      -- what comes back is not journaled
      have ho : goesInHistory o.type = false := by
        refine h.completing o ?_
        rw [hback]
        exact List.mem_cons_self
      have hsilent : s.journal { s.stamp o with time := time } = s := journal_silent ho
      rw [hupdate, completed, hsilent]
      refine ⟨⟨Gen.all_update h.gen _ _, h.working, ?_⟩, rfl⟩
      intro x hx
      refine h.completing x ?_
      rw [hback]
      exact List.mem_cons_of_mem _ hx
  | ask time draws =>
      show (s.asked (Gen.generator Payload) time draws).Quiet ∧
        (s.asked (Gen.generator Payload) time draws).history = s.history
      have hplain : s.gen.All OpMap.Plain := h.gen.mono fun _ hm => hm.plain
      rcases asked_cases hsound (fun _ hm => hm) hplain time draws with ⟨_, heq | ⟨_, heq⟩⟩ |
        ⟨o, gen', thread, hverdict, _, heq⟩
      · rw [heq]
        exact ⟨⟨h.gen, h.working, h.completing⟩, rfl⟩
      -- all are told to exit
      · rw [heq]
        exact ⟨⟨h.gen, fun thread o ho => h.working thread o (ops_tellExit ho), h.completing⟩, rfl⟩
      · rcases dispatched_of_verdict (fun _ hm => hm.plain) h.gen hverdict with
          ⟨⟨m, hm, htype, _⟩, hgen'⟩
        rw [heq]
        -- what is dispatched is a message or a pause
        have hgoes : goesInHistory o.type = false := by
          rw [htype, hm.goesInHistory]
        exact quiet_dispatch (s := s.read time) hgen' h.working h.completing hgoes thread
  | take thread =>
      rw [Interpreter.update]
      split
      · exact ⟨h, rfl⟩
      · refine ⟨⟨h.gen, hworker thread _ fun o ho => ?_, h.completing⟩, rfl⟩
        cases ho
      · next x hinbox =>
          refine ⟨⟨h.gen, hworker thread _ fun o ho => ?_, h.completing⟩, rfl⟩
          rw [Worker.ops, hinbox]
          exact List.mem_append_left _ ho
  | finish thread answer =>
      rcases hg with ⟨⟨o, ho, hanswers⟩, _⟩
      have hops : ∀ x ∈ ({ s.workers thread with current := none } : Worker Payload).ops,
          x ∈ (s.workers thread).ops := by
        intro x hx
        rcases List.mem_append.mp hx with hinbox | hcurrent
        · exact List.mem_append_left _ hinbox
        · cases hcurrent
      refine ⟨⟨h.gen, hworker thread _ hops, ?_⟩, rfl⟩
      intro x hx
      rcases List.mem_append.mp hx with hold | hnew
      · exact h.completing x hold
      -- a message or a pause comes back as it is
      · have hquiet : goesInHistory o.type = false := by
          refine h.working thread o ?_
          rw [Worker.ops, Option.mem_def.mp ho]
          exact List.mem_append_right _ List.mem_cons_self
        rw [List.mem_singleton.mp hnew]
        rw [Answers, hquiet, if_neg Bool.false_ne_true] at hanswers
        rw [hanswers]
        exact hquiet
  | join => exact ⟨⟨h.gen, h.working, h.completing⟩, rfl⟩

/-- The generators of the test are its phases, in order. -/
theorem testPhases_phased (timeLimit : ℚ) (i k : ℕ) (gen : Gen Payload)
    (h : (testPhases timeLimit i)[k]? = some gen) :
    gen.All (Gen.InPhase Payload.phase k) := by
  match k with
  | 0 =>
      rw [← Option.some.inj h, Gen.timeLimitOf]
      split
      · refine (all_workload i).mono fun m hm => ⟨hm.plain, ?_⟩
        rcases hm.fields with ⟨op, _, hkv⟩
        rw [hkv]
        rfl
      · trivial
  | 1 =>
      rw [← Option.some.inj h]
      exact ⟨(all_log _).plain, rfl⟩
  | 2 =>
      rw [← Option.some.inj h]
      exact ⟨(all_sleep 5).plain, rfl⟩
  | k + 3 => cases h

/-- The message that the test is complete tells the truth: when it is dispatched, or the pause
after it, every invocation has its completion, and nothing is added to the history any
more. -/
theorem omnipaxosTest_complete (timeLimit : ℚ) (hpos : 0 < timeLimit) (i n : ℕ) :
    ∀ s, (interpreter (Gen.generator Payload) n (omnipaxosTest timeLimit i)).Reachable s →
      ∀ time draws o gen', s.verdict (Gen.generator Payload) time draws = .dispatch o gen' →
        o.type ≠ .invoke →
        ∀ ls, (interpreter (Gen.generator Payload) n (omnipaxosTest timeLimit i)).Valid s
            (.ask time draws :: ls) →
          (∀ p, Closed p s.history) ∧
          ((interpreter (Gen.generator Payload) n (omnipaxosTest timeLimit i)).after s
            (.ask time draws :: ls)).history = s.history := by
  intro s hr time draws o gen' hverdict htype ls hvalid
  let M := interpreter (Gen.generator Payload) n (omnipaxosTest timeLimit i)
  rcases ofTest_reachable hpos hr with ⟨h, _, hsound⟩
  rcases Gen.phased_phases (testPhases_phased timeLimit i) with ⟨k₀, hgen⟩
  rcases atPhase_reachable hgen hr with ⟨k, _, hphase⟩
  rcases h.quiet hsound hphase hvalid.1 hverdict htype with ⟨hclosed, hquiet, hsame⟩
  refine ⟨hclosed, ?_⟩
  have hafter := M.after_invariant
    (fun s' => M.Reachable s' ∧ s'.Quiet ∧ s'.history = s.history)
    ⟨hr.step _ hvalid.1, hquiet, hsame⟩ hvalid.2 ?_
  · exact hafter.2.2
  · intro l _ s' hg hs'
    rcases hs' with ⟨hr', hquiet', hsame'⟩
    have hnext := hquiet'.update (ofTest_reachable hpos hr').2.2 hg
    exact ⟨hr'.step l hg, hnext.1, hnext.2.trans hsame'⟩

/-! ## A test with one write -/

def writeRun : List (RunStep Payload) :=
  [.ask 5 [0, 7], .take (.int 0),
    .finish (.int 0) ⟨0, 5, .ok, .int 0, .kv ⟨.write, "k0", some 7⟩ none, false⟩, .complete 6]

def minuteTest : Machine (Interpreter (Gen Payload) Payload) (RunStep Payload) :=
  unboundedInterpreter (Gen.generator Payload) 1 (omnipaxosTest 60 1)

instance (l : RunStep Payload) (s : Interpreter (Gen Payload) Payload) :
    Decidable (minuteTest.guard l s) :=
  decidableEnabled l s

theorem writeRun_valid :
    minuteTest.Valid (.start 1 (omnipaxosTest 60 1)) (writeRun ++ [.ask 60000000005 []]) := by
  decide +kernel

theorem writeRun_reachable : (interpreter (Gen.generator Payload) 1 (omnipaxosTest 60 1)).Reachable
    (minuteTest.after (.start 1 (omnipaxosTest 60 1)) writeRun) :=
  reachable_iff_unbounded.mpr (minuteTest.reachable_after writeRun (.start rfl)
    ((minuteTest.valid_append _ writeRun [.ask 60000000005 []]).mp writeRun_valid).1)

theorem omnipaxosTest_history_write :
    let s := minuteTest.after (.start 1 (omnipaxosTest 60 1)) writeRun
    s.history.map Operation.fields =
      [.kv ⟨.write, "k0", some 7⟩ none, .kv ⟨.write, "k0", some 7⟩ none] ∧
    ∀ o ∈ s.history, o.type = .invoke → o.OfClient := by
  intro s
  have hfields : s.history.map Operation.fields =
      [.kv ⟨.write, "k0", some 7⟩ none, .kv ⟨.write, "k0", some 7⟩ none] := by decide +kernel
  exact ⟨hfields, (omnipaxosTest_history 60 (by decide) 1 1 s writeRun_reachable).2.1⟩

def completeMessage : Operation Payload :=
  ⟨-1, 60000000005, .log, nemesis, .message "Test complete, waiting before final check", false⟩

/-- A minute after the write the message is dispatched. -/
theorem omnipaxosTest_complete_write :
    let s := minuteTest.after (.start 1 (omnipaxosTest 60 1)) writeRun
    s.history.length = 2 ∧ ∀ p, Closed p s.history := by
  intro s
  have hlength : s.history.length = 2 := by decide +kernel
  have hmessage : (match s.verdict (Gen.generator Payload) 60000000005 [] with
      | .dispatch o _ => some o
      | _ => none) = some completeMessage := by decide +kernel
  have hdispatch : ∃ gen', s.verdict (Gen.generator Payload) 60000000005 [] =
      .dispatch completeMessage gen' := by
    split at hmessage
    · next o gen' heq =>
        rw [← Option.some.inj hmessage]
        exact ⟨gen', heq⟩
    · cases hmessage
  rcases hdispatch with ⟨gen', hverdict⟩
  have htype : completeMessage.type ≠ .invoke := by decide
  have hvalid : (interpreter (Gen.generator Payload) 1 (omnipaxosTest 60 1)).Valid s
      [.ask 60000000005 []] := by
    have hlast := ((minuteTest.valid_append _ writeRun [.ask 60000000005 []]).mp
      writeRun_valid).2.1
    have hsound := sound_reachable writeRun_reachable (by decide +kernel)
    exact ⟨⟨hlast.1, hlast.2.1, hlast.2.2, hsound.room hlast.1 _ _⟩, trivial⟩
  exact ⟨hlength, (omnipaxosTest_complete 60 (by decide) 1 1 s writeRun_reachable 60000000005 []
    completeMessage gen' hverdict htype [] hvalid).1⟩

end Interpreter

end Jepsen

end OmnipaxosKv
