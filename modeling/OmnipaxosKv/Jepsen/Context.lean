import Mathlib.Data.List.Basic
import Mathlib.Logic.Function.Basic

/-! # Contexts (`jepsen/generator/context.clj`, `translation_table.clj`)

A context says what time it is, which threads are free and which process each thread is
executing. Threads are kept by their index, under the integers `0 … n - 1` and a few
keywords; a bit set is its characteristic function, on the indices of threads.

A thread whose process crashed goes on under the next process, whose number is larger by the
number of integer threads: processes of different threads never meet, and the number of a
process that crashed is never used again.
-/

namespace OmnipaxosKv

namespace Jepsen

/-- The name of a thread, and of a process: at first every thread executes itself. -/
inductive Name where
  | int (n : ℕ)
  | keyword (s : String)
deriving DecidableEq, Repr

def nemesis : Name := .keyword "nemesis"

/-! ## Translation tables -/

structure TranslationTable where
  intThreadCount : ℕ
  namedThreads : List String
deriving DecidableEq, Repr

namespace TranslationTable

def threadCount (tt : TranslationTable) : ℕ := tt.intThreadCount + tt.namedThreads.length

/-- All names, in the order of their indices. -/
def allNames (tt : TranslationTable) : List Name :=
  (List.range tt.intThreadCount).map .int ++ tt.namedThreads.map .keyword

/-- The position of a keyword is looked up, but not added. -/
def nameToIndex (tt : TranslationTable) : Name → ℕ
  | .int n => n
  | .keyword _ => tt.intThreadCount

/-- `none` where the array of named threads is too short. -/
def indexToName (tt : TranslationTable) (i : ℕ) : Option Name :=
  if i < tt.intThreadCount then some (.int i)
  else (tt.namedThreads[i - tt.intThreadCount]?).map .keyword

variable {tt : TranslationTable}

theorem indexToName_int {i : ℕ} (h : i < tt.intThreadCount) :
    tt.indexToName i = some (.int i) := if_pos h

/-- Each thread has a name. -/
theorem exists_indexToName {i : ℕ} (h : i < tt.threadCount) : ∃ name, tt.indexToName i = some name := by
  by_cases hi : i < tt.intThreadCount
  · exact ⟨.int i, indexToName_int hi⟩
  · have hlt : i - tt.intThreadCount < tt.namedThreads.length := by
      rw [threadCount] at h
      omega
    refine ⟨.keyword tt.namedThreads[i - tt.intThreadCount], ?_⟩
    rw [indexToName, if_neg hi, List.getElem?_eq_getElem hlt]
    rfl

theorem lt_of_indexToName {i : ℕ} {name : Name} (h : tt.indexToName i = some name) :
    i < tt.threadCount := by
  rw [indexToName] at h
  rw [threadCount]
  split at h
  · omega
  · rcases Option.map_eq_some_iff.mp h with ⟨s, hs, _⟩
    have hlt := (List.getElem?_eq_some_iff.mp hs).1
    omega

/-- With one named thread at most, an index comes back from its name. -/
theorem nameToIndex_of_indexToName (hone : tt.namedThreads.length ≤ 1) {i : ℕ} {name : Name}
    (h : tt.indexToName i = some name) : tt.nameToIndex name = i := by
  have hlt := lt_of_indexToName h
  rw [threadCount] at hlt
  rw [indexToName] at h
  split at h
  · rw [← Option.some.inj h]
    rfl
  · rcases Option.map_eq_some_iff.mp h with ⟨s, _, hname⟩
    rw [← hname]
    show tt.intThreadCount = i
    omega

/-- The two directions of the table agree just if it has at most one named thread. -/
theorem nameToIndex_indexToName_iff : (∀ i name, tt.indexToName i = some name →
    tt.nameToIndex name = i) ↔ tt.namedThreads.length ≤ 1 := by
  constructor
  · intro h
    by_contra hmany
    -- the second keyword has the index of the first
    have hlt : tt.intThreadCount + 1 < tt.threadCount := by
      rw [threadCount]
      omega
    rcases exists_indexToName hlt with ⟨name, hname⟩
    have hindex := h _ _ hname
    rw [indexToName, if_neg (by omega)] at hname
    rcases Option.map_eq_some_iff.mp hname with ⟨s, _, hs⟩
    rw [← hs] at hindex
    have habsurd : tt.intThreadCount = tt.intThreadCount + 1 := hindex
    omega
  · intro hone i name h
    exact nameToIndex_of_indexToName hone h

end TranslationTable

/-! ## Contexts -/

structure Context where
  time : ℕ
  nextThreadIndex : ℕ
  translationTable : TranslationTable
  allThreads : ℕ → Bool
  freeThreads : ℕ → Bool
  threadIndexToProcess : ℕ → Name
  processToThread : Name → Option Name

/-- The context of a test: all threads are free and execute themselves. -/
def context (concurrency : ℕ) : Context :=
  let translationTable : TranslationTable := ⟨concurrency, ["nemesis"]⟩
  { time := 0
    nextThreadIndex := 0
    translationTable := translationTable
    allThreads := fun i => decide (i < translationTable.threadCount)
    freeThreads := fun i => decide (i < translationTable.threadCount)
    threadIndexToProcess := fun i => (translationTable.indexToName i).getD nemesis
    processToThread := fun name => if name ∈ translationTable.allNames then some name else none }

/-- `BitSet.nextSetBit`, on the indices below `size`. -/
def nextSetBit (bits : ℕ → Bool) (size start : ℕ) : Option ℕ :=
  (List.range size).find? fun i => decide (start ≤ i) && bits i

def cardinality (bits : ℕ → Bool) (size : ℕ) : ℕ := (List.range size).countP bits

namespace Context

def threadCount (ctx : Context) : ℕ := ctx.translationTable.threadCount

def allThreadCount (ctx : Context) : ℕ := cardinality ctx.allThreads ctx.threadCount

def freeThreadCount (ctx : Context) : ℕ := cardinality ctx.freeThreads ctx.threadCount

/-- `nil` has the index of a keyword. -/
def indexOf (ctx : Context) : Option Name → ℕ
  | some thread => ctx.translationTable.nameToIndex thread
  | none => ctx.translationTable.intThreadCount

def threadToProcess (ctx : Context) (thread : Name) : Name :=
  ctx.threadIndexToProcess (ctx.translationTable.nameToIndex thread)

def threadFree (ctx : Context) (thread : Option Name) : Bool := ctx.freeThreads (ctx.indexOf thread)

def someFreeProcess (ctx : Context) : Option Name :=
  match nextSetBit ctx.freeThreads ctx.threadCount ctx.nextThreadIndex with
  | some i => some (ctx.threadIndexToProcess i)
  | none =>
      if ctx.nextThreadIndex = 0 then none
      else (nextSetBit ctx.freeThreads ctx.threadCount 0).map ctx.threadIndexToProcess

def freeThread (ctx : Context) (time : ℕ) (thread : Name) : Context :=
  { ctx with
    time := time
    freeThreads :=
      Function.update ctx.freeThreads (ctx.translationTable.nameToIndex thread) true }

/-- The next thread index is bumped, so that ops are rotated through the threads. -/
def busyThread (ctx : Context) (time : ℕ) (thread : Name) : Context :=
  { ctx with
    time := time
    nextThreadIndex := (ctx.nextThreadIndex + 1) % ctx.threadCount
    freeThreads :=
      Function.update ctx.freeThreads (ctx.translationTable.nameToIndex thread) false }

def nextProcess (ctx : Context) : Name → Name
  | .int n => .int (ctx.translationTable.intThreadCount + n)
  | .keyword s => .keyword s

def withNextProcess (ctx : Context) (thread : Name) : Context :=
  let process := ctx.threadToProcess thread
  { ctx with
    threadIndexToProcess := Function.update ctx.threadIndexToProcess
      (ctx.translationTable.nameToIndex thread) (ctx.nextProcess process)
    processToThread := Function.update (Function.update ctx.processToThread process none)
      (ctx.nextProcess process) (some thread) }

/-- `make-thread-filter`, which computes the set of threads once: the contexts that a filter
gets differ in their free threads only. -/
def filter (ctx : Context) (f : Name → Bool) : Context :=
  { ctx with
    allThreads := fun i => ctx.allThreads i && (ctx.translationTable.indexToName i).any f
    freeThreads := fun i => ctx.freeThreads i && (ctx.translationTable.indexToName i).any f }

end Context

/-! ## Bit sets -/

/-- The bit that is found is set, and not before the start. -/
theorem nextSetBit_eq_some {bits : ℕ → Bool} {size start i : ℕ}
    (h : nextSetBit bits size start = some i) : start ≤ i ∧ i < size ∧ bits i = true := by
  rw [nextSetBit] at h
  have hfound := List.find?_some h
  have hmem := List.mem_of_find?_eq_some h
  rw [Bool.and_eq_true, decide_eq_true_eq] at hfound
  exact ⟨hfound.1, List.mem_range.mp hmem, hfound.2⟩

/-- If none is found then none is set. -/
theorem nextSetBit_eq_none {bits : ℕ → Bool} {size start : ℕ}
    (h : nextSetBit bits size start = none) {i : ℕ} (hstart : start ≤ i) (hi : i < size) :
    bits i = false := by
  rw [nextSetBit, List.find?_eq_none] at h
  have hnot := h i (List.mem_range.mpr hi)
  rw [decide_eq_true hstart, Bool.true_and, Bool.not_eq_true] at hnot
  exact hnot

/-- What an update of one bit does to the number of bits. -/
theorem cardinality_update {bits : ℕ → Bool} {size i : ℕ} (hi : i < size) (b : Bool) :
    cardinality (Function.update bits i b) size + (bits i).toNat =
      cardinality bits size + b.toNat := by
  have hperm : (List.range size).Perm (i :: (List.range size).erase i) :=
    List.perm_cons_erase (List.mem_range.mpr hi)
  have hrest : ((List.range size).erase i).countP (Function.update bits i b) =
      ((List.range size).erase i).countP bits := by
    refine List.countP_congr fun j hj => ?_
    -- the other indices are not `i`
    have hne : j ≠ i := by
      intro heq
      rw [heq] at hj
      exact (List.nodup_range.not_mem_erase) hj
    rw [Function.update_of_ne hne]
  have hone : ∀ c : Bool, (if c = true then 1 else 0) = c.toNat := by decide
  rw [cardinality, cardinality, hperm.countP_eq, hperm.countP_eq, List.countP_cons,
    List.countP_cons, hrest, Function.update_self, hone, hone]
  omega

namespace Context

variable {ctx : Context}

/-! ## Free processes -/

/-- A free process is that of a free thread. -/
theorem someFreeProcess_eq_some {p : Name} (h : ctx.someFreeProcess = some p) :
    ∃ i < ctx.threadCount, ctx.freeThreads i = true ∧ p = ctx.threadIndexToProcess i := by
  rw [someFreeProcess] at h
  split at h
  · next i hi =>
      rcases nextSetBit_eq_some hi with ⟨_, hlt, hfree⟩
      exact ⟨i, hlt, hfree, (Option.some.inj h).symm⟩
  · split at h
    · cases h
    · rcases Option.map_eq_some_iff.mp h with ⟨i, hi, hp⟩
      rcases nextSetBit_eq_some hi with ⟨_, hlt, hfree⟩
      exact ⟨i, hlt, hfree, hp.symm⟩

/-- There is no free process only if all threads are busy. -/
theorem someFreeProcess_eq_none (h : ctx.someFreeProcess = none) {i : ℕ}
    (hi : i < ctx.threadCount) : ctx.freeThreads i = false := by
  rw [someFreeProcess] at h
  split at h
  · cases h
  · next hnone =>
      split at h
      · next hzero => exact nextSetBit_eq_none hnone (hzero ▸ Nat.zero_le i) hi
      · exact nextSetBit_eq_none (Option.map_eq_none_iff.mp h) (Nat.zero_le i) hi

/-! ## The invariant -/

/-- Threads and their processes: each table is the inverse of the other, and the process of
an integer thread is its number, up to a multiple of the number of integer threads. -/
structure Sound (ctx : Context) : Prop where
  named : ctx.translationTable.namedThreads.length ≤ 1
  next : ctx.nextThreadIndex < ctx.threadCount
  executes : ∀ i < ctx.threadCount,
    ctx.processToThread (ctx.threadIndexToProcess i) = ctx.translationTable.indexToName i
  executed : ∀ p thread, ctx.processToThread p = some thread → ∃ i < ctx.threadCount,
    ctx.translationTable.indexToName i = some thread ∧ ctx.threadIndexToProcess i = p
  numbered : ∀ i < ctx.translationTable.intThreadCount,
    ∃ k, ctx.threadIndexToProcess i = .int (i + k * ctx.translationTable.intThreadCount)
  keyword : ∀ i < ctx.threadCount, ctx.translationTable.intThreadCount ≤ i →
    ∃ s, ctx.threadIndexToProcess i = .keyword s
  all : ∀ i < ctx.threadCount, ctx.allThreads i = true
  free : ∀ i, ctx.freeThreads i = true → ctx.allThreads i = true

/-- The names are those of the indices. -/
theorem mem_allNames {tt : TranslationTable} {name : Name} :
    name ∈ tt.allNames ↔ ∃ i, tt.indexToName i = some name := by
  rw [TranslationTable.allNames, List.mem_append, List.mem_map, List.mem_map]
  constructor
  · intro h
    rcases h with ⟨i, hi, hname⟩ | ⟨s, hs, hname⟩
    · refine ⟨i, ?_⟩
      rw [TranslationTable.indexToName_int (List.mem_range.mp hi), hname]
    · rcases List.mem_iff_getElem?.mp hs with ⟨j, hj⟩
      refine ⟨tt.intThreadCount + j, ?_⟩
      rw [TranslationTable.indexToName, if_neg (by omega), Nat.add_sub_cancel_left, hj, ← hname]
      rfl
  · intro h
    rcases h with ⟨i, hi⟩
    rw [TranslationTable.indexToName] at hi
    split at hi
    · next hlt => exact .inl ⟨i, List.mem_range.mpr hlt, Option.some.inj hi⟩
    · rcases Option.map_eq_some_iff.mp hi with ⟨s, hs, hname⟩
      exact .inr ⟨s, List.mem_of_getElem? hs, hname⟩

/-- The context of a new test is sound. -/
theorem sound_context (concurrency : ℕ) : (context concurrency).Sound := by
  have hone : (context concurrency).translationTable.namedThreads.length ≤ 1 := Nat.le_refl 1
  have hprocess : ∀ {i : ℕ} {name : Name},
      (context concurrency).translationTable.indexToName i = some name →
      (context concurrency).threadIndexToProcess i = name := by
    intro i name h
    show ((context concurrency).translationTable.indexToName i).getD nemesis = name
    rw [h]
    rfl
  have hthread : ∀ {i : ℕ} {name : Name},
      (context concurrency).translationTable.indexToName i = some name →
      (context concurrency).processToThread name = some name := by
    intro i name h
    exact if_pos (mem_allNames.mpr ⟨i, h⟩)
  refine ⟨hone, ?_, ?_, ?_, ?_, ?_, fun i hi => decide_eq_true hi, fun i hi => hi⟩
  · show 0 < concurrency + 1
    omega
  · intro i hi
    rcases TranslationTable.exists_indexToName hi with ⟨name, hname⟩
    rw [hprocess hname, hthread hname, hname]
  · intro p thread h
    have hmem : p ∈ (context concurrency).translationTable.allNames ∧ p = thread := by
      change (if p ∈ (context concurrency).translationTable.allNames then some p else none) =
        some thread at h
      split at h
      · next hmem => exact ⟨hmem, Option.some.inj h⟩
      · cases h
    rcases mem_allNames.mp hmem.1 with ⟨i, hi⟩
    exact ⟨i, TranslationTable.lt_of_indexToName hi, hmem.2 ▸ hi, hprocess hi⟩
  · intro i hi
    refine ⟨0, ?_⟩
    rw [hprocess (TranslationTable.indexToName_int hi), Nat.zero_mul, Nat.add_zero]
  · intro i hi hle
    rcases TranslationTable.exists_indexToName hi with ⟨name, hname⟩
    rw [hprocess hname]
    rw [TranslationTable.indexToName, if_neg (Nat.not_lt.mpr hle)] at hname
    rcases Option.map_eq_some_iff.mp hname with ⟨s, _, hs⟩
    exact ⟨s, hs.symm⟩

/-- What the thread of a process is. -/
theorem Sound.thread (h : ctx.Sound) {p thread : Name} (hp : ctx.processToThread p = some thread) :
    ctx.translationTable.nameToIndex thread < ctx.threadCount ∧
      ctx.translationTable.indexToName (ctx.translationTable.nameToIndex thread) = some thread ∧
      ctx.threadToProcess thread = p := by
  rcases h.executed p thread hp with ⟨i, hi, hname, hprocess⟩
  have hindex := TranslationTable.nameToIndex_of_indexToName h.named hname
  rw [threadToProcess, hindex]
  exact ⟨hi, hname, hprocess⟩

/-- No process is executed by two threads. -/
theorem Sound.process_inj (h : ctx.Sound) {i j : ℕ} (hi : i < ctx.threadCount)
    (hj : j < ctx.threadCount) (heq : ctx.threadIndexToProcess i = ctx.threadIndexToProcess j) :
    i = j := by
  have hnames := h.executes i hi
  rw [heq, h.executes j hj] at hnames
  rcases TranslationTable.exists_indexToName hj with ⟨name, hname⟩
  rw [hname] at hnames
  rw [← TranslationTable.nameToIndex_of_indexToName h.named hname,
    ← TranslationTable.nameToIndex_of_indexToName h.named hnames.symm]

theorem Sound.withTime (h : ctx.Sound) (time : ℕ) : { ctx with time := time }.Sound :=
  ⟨h.named, h.next, h.executes, h.executed, h.numbered, h.keyword, h.all, h.free⟩

/-- A thread of the context becomes free. -/
theorem Sound.freeThread (h : ctx.Sound) (time : ℕ) {thread : Name}
    (hthread : ctx.translationTable.nameToIndex thread < ctx.threadCount) :
    (ctx.freeThread time thread).Sound := by
  refine ⟨h.named, h.next, h.executes, h.executed, h.numbered, h.keyword, h.all, ?_⟩
  intro i hi
  by_cases heq : i = ctx.translationTable.nameToIndex thread
  · rw [heq]
    exact h.all _ hthread
  · refine h.free i ?_
    change Function.update ctx.freeThreads _ true i = true at hi
    rwa [Function.update_of_ne heq] at hi

/-- A thread becomes busy. -/
theorem Sound.busyThread (h : ctx.Sound) (time : ℕ) (thread : Name) :
    (ctx.busyThread time thread).Sound := by
  refine ⟨h.named, ?_, h.executes, h.executed, h.numbered, h.keyword, h.all, ?_⟩
  · exact Nat.mod_lt _ (Nat.zero_lt_of_lt h.next)
  · intro i hi
    refine h.free i ?_
    change Function.update ctx.freeThreads _ false i = true at hi
    by_cases heq : i = ctx.translationTable.nameToIndex thread
    · rw [heq, Function.update_self] at hi
      cases hi
    · rwa [Function.update_of_ne heq] at hi

/-! ## The next process -/

/-- A number below `n` and a multiple of `n` are known from their sum. -/
theorem residue_eq {n i j k l : ℕ} (hi : i < n) (hj : j < n) (h : i + k * n = j + l * n) :
    i = j ∧ k = l := by
  have hmod : (i + k * n) % n = (j + l * n) % n := by rw [h]
  rw [Nat.add_mul_mod_self_right, Nat.add_mul_mod_self_right, Nat.mod_eq_of_lt hi,
    Nat.mod_eq_of_lt hj] at hmod
  refine ⟨hmod, ?_⟩
  rw [hmod] at h
  exact Nat.eq_of_mul_eq_mul_right (Nat.zero_lt_of_lt hj) (Nat.add_left_cancel h)

theorem nextProcess_int (i k : ℕ) :
    ctx.nextProcess (.int (i + k * ctx.translationTable.intThreadCount)) =
      .int (i + (k + 1) * ctx.translationTable.intThreadCount) := by
  rw [nextProcess, Nat.succ_mul]
  congr 1
  omega

theorem lt_threadCount {i : ℕ} (hi : i < ctx.translationTable.intThreadCount) :
    i < ctx.threadCount :=
  Nat.lt_of_lt_of_le hi (Nat.le_add_right _ _)

/-- The next process of a thread is nobody's. -/
theorem Sound.nextProcess_fresh (h : ctx.Sound) {i : ℕ}
    (hi : i < ctx.translationTable.intThreadCount) {j : ℕ} (hj : j < ctx.threadCount) :
    ctx.threadIndexToProcess j ≠ ctx.nextProcess (ctx.threadIndexToProcess i) := by
  rcases h.numbered i hi with ⟨k, hk⟩
  rw [hk, nextProcess_int]
  intro heq
  by_cases hint : j < ctx.translationTable.intThreadCount
  · rcases h.numbered j hint with ⟨l, hl⟩
    rw [hl] at heq
    have hindex := (residue_eq hint hi (Name.int.inj heq)).1
    -- it would be the thread itself, which is behind its next process
    rw [hindex, hk] at hl
    have hbehind := (residue_eq hint hi (Name.int.inj heq)).2
    have hsame := (residue_eq hi hi (Name.int.inj hl)).2
    omega
  · rcases h.keyword j hj (Nat.le_of_not_lt hint) with ⟨s, hs⟩
    rw [hs] at heq
    cases heq

/-- A thread gets its next process. -/
theorem Sound.withNextProcess (h : ctx.Sound) {i : ℕ}
    (hi : i < ctx.translationTable.intThreadCount) : (ctx.withNextProcess (.int i)).Sound := by
  have hlt := lt_threadCount hi
  have hindex : ctx.translationTable.nameToIndex (.int i) = i := rfl
  have hprocess : ctx.threadToProcess (.int i) = ctx.threadIndexToProcess i := rfl
  have hself : (ctx.withNextProcess (.int i)).threadIndexToProcess i =
      ctx.nextProcess (ctx.threadIndexToProcess i) := Function.update_self ..
  have hother : ∀ {j : ℕ}, j ≠ i →
      (ctx.withNextProcess (.int i)).threadIndexToProcess j = ctx.threadIndexToProcess j :=
    fun hne => Function.update_of_ne hne ..
  refine ⟨h.named, h.next, ?_, ?_, ?_, ?_, h.all, h.free⟩
  -- the thread has its next process, the others have theirs
  · intro j hj
    change Function.update (Function.update ctx.processToThread (ctx.threadToProcess (.int i)) none)
      _ _ _ = ctx.translationTable.indexToName j
    by_cases hji : j = i
    · rw [hji, hself, hprocess, Function.update_self, TranslationTable.indexToName_int hi]
    · rw [hother hji, hprocess, Function.update_of_ne (h.nextProcess_fresh hi hj),
        Function.update_of_ne fun heq => hji (h.process_inj hj hlt heq)]
      exact h.executes j hj
  -- the next process is executed by the thread, the one before it by nobody
  · intro p thread hp
    change Function.update (Function.update ctx.processToThread (ctx.threadToProcess (.int i)) none)
      _ _ p = some thread at hp
    by_cases hnew : p = ctx.nextProcess (ctx.threadIndexToProcess i)
    · rw [hnew, hprocess, Function.update_self] at hp
      refine ⟨i, hlt, ?_, ?_⟩
      · rw [← Option.some.inj hp]
        exact TranslationTable.indexToName_int hi
      · rw [hself, hnew]
    · rw [hprocess, Function.update_of_ne hnew] at hp
      by_cases hold : p = ctx.threadIndexToProcess i
      · rw [hold, Function.update_self] at hp
        cases hp
      · rw [Function.update_of_ne hold] at hp
        rcases h.executed p thread hp with ⟨j, hj, hname, hrun⟩
        have hji : j ≠ i := by
          intro heq
          rw [heq] at hrun
          exact hold hrun.symm
        exact ⟨j, hj, hname, (hother hji).trans hrun⟩
  -- the next process is one round further
  · intro j hj
    rcases h.numbered j hj with ⟨k, hk⟩
    by_cases hji : j = i
    · refine ⟨k + 1, ?_⟩
      rw [hji] at hk ⊢
      rw [hself, hk]
      exact nextProcess_int i k
    · exact ⟨k, (hother hji).trans hk⟩
  · intro j hj hle
    rcases h.keyword j hj hle with ⟨s, hs⟩
    have hji : j ≠ i := by
      intro heq
      have hge : ctx.translationTable.intThreadCount ≤ j := hle
      omega
    exact ⟨s, (hother hji).trans hs⟩

/-! ## Retired processes -/

/-- The thread of the process has gone on to a later one. -/
def Retired (ctx : Context) (p : Name) : Prop :=
  ∃ i k l, i < ctx.translationTable.intThreadCount ∧ k < l ∧
    p = .int (i + k * ctx.translationTable.intThreadCount) ∧
    ctx.threadIndexToProcess i = .int (i + l * ctx.translationTable.intThreadCount)

/-- No thread executes it. -/
theorem Retired.processToThread {p : Name} (hp : ctx.Retired p) (h : ctx.Sound) :
    ctx.processToThread p = none := by
  rcases hp with ⟨i, k, l, hi, hkl, hpk, hl⟩
  cases hthread : ctx.processToThread p with
  | none => rfl
  | some thread =>
      rcases h.executed p thread hthread with ⟨j, hj, _, hrun⟩
      rw [hpk] at hrun
      by_cases hint : j < ctx.translationTable.intThreadCount
      · rcases h.numbered j hint with ⟨m, hm⟩
        have hsame := residue_eq hint hi (Name.int.inj (hm.symm.trans hrun))
        rw [hsame.1, hl] at hrun
        have hnumber := (residue_eq hi hi (Name.int.inj hrun)).2
        omega
      · rcases h.keyword j hj (Nat.le_of_not_lt hint) with ⟨s, hs⟩
        rw [hs] at hrun
        cases hrun

/-- A retired process stays retired when a thread gets its next process. -/
theorem Retired.withNextProcess {p : Name} (hp : ctx.Retired p) {j : ℕ} :
    (ctx.withNextProcess (.int j)).Retired p := by
  rcases hp with ⟨i, k, l, hi, hkl, hpk, hl⟩
  by_cases hij : i = j
  · refine ⟨i, k, l + 1, hi, Nat.lt_succ_of_lt hkl, hpk, ?_⟩
    rw [← hij]
    refine (Function.update_self ..).trans ?_
    show ctx.nextProcess (ctx.threadIndexToProcess i) = _
    rw [hl]
    exact nextProcess_int i l
  · refine ⟨i, k, l, hi, hkl, hpk, ?_⟩
    exact (Function.update_of_ne hij ..).trans hl

/-- A thread that goes on retires its process. -/
theorem Sound.retired (h : ctx.Sound) {i : ℕ} (hi : i < ctx.translationTable.intThreadCount) :
    (ctx.withNextProcess (.int i)).Retired (ctx.threadIndexToProcess i) := by
  rcases h.numbered i hi with ⟨k, hk⟩
  refine ⟨i, k, k + 1, hi, Nat.lt_succ_self k, hk, ?_⟩
  refine (Function.update_self ..).trans ?_
  show ctx.nextProcess (ctx.threadIndexToProcess i) = _
  rw [hk]
  exact nextProcess_int i k

/-- The next process of a thread retires its old process and no other. -/
theorem Sound.of_retired_withNextProcess (h : ctx.Sound) {i : ℕ}
    (hi : i < ctx.translationTable.intThreadCount) {p : Name}
    (hp : (ctx.withNextProcess (.int i)).Retired p) :
    ctx.Retired p ∨ p = ctx.threadIndexToProcess i := by
  rcases hp with ⟨j, k, l, hj, hkl, hpk, hl⟩
  by_cases hji : j = i
  · rw [hji] at hl hpk
    rcases h.numbered i hi with ⟨m, hm⟩
    have hnext : (ctx.withNextProcess (.int i)).threadIndexToProcess i =
        .int (i + (m + 1) * ctx.translationTable.intThreadCount) := by
      refine (Function.update_self ..).trans ?_
      show ctx.nextProcess (ctx.threadIndexToProcess i) = _
      rw [hm]
      exact nextProcess_int i m
    have hlm := (residue_eq hi hi (Name.int.inj (hl.symm.trans hnext))).2
    -- a number below the new one is the old one or below that
    rcases Nat.lt_or_eq_of_le (Nat.le_of_lt_succ (hlm ▸ hkl)) with hlt | heq
    · exact .inl ⟨i, k, m, hi, hlt, hpk, hm⟩
    · right
      rw [hpk, hm, heq]
      rfl
  · left
    exact ⟨j, k, l, hj, hkl, hpk, (Function.update_of_ne hji ..).symm.trans hl⟩

/-- The next process of a thread has not been used before. -/
theorem Sound.not_retired_nextProcess (h : ctx.Sound) {i : ℕ}
    (hi : i < ctx.translationTable.intThreadCount) :
    ¬ ctx.Retired (ctx.nextProcess (ctx.threadIndexToProcess i)) := by
  intro hretired
  rcases hretired with ⟨j, k, l, hj, hkl, hpk, hl⟩
  rcases h.numbered i hi with ⟨m, hm⟩
  rw [hm, nextProcess_int] at hpk
  have hsame := residue_eq hi hj (Name.int.inj hpk)
  rw [← hsame.1, hm] at hl
  have hnumber := (residue_eq hi hi (Name.int.inj hl)).2
  omega

end Context

end Jepsen

end OmnipaxosKv
