import Mathlib.Tactic.Common
import OmnipaxosKv.Jepsen.Generator
import OmnipaxosKv.Lib.Machine

/-! # The interpreter (`jepsen/generator/interpreter.clj`)

`run!` is a loop that hands the operations of a generator to worker threads. Each worker has
a queue of one place for what it is to do, and puts what came of it into one queue for all.
What goes in and what comes out is written to the history, under the index it has there.

A step is one round of the loop, or one of a worker. The clock readings, the random draws of
the generator and the answers of the clients and the nemesis come from outside. Left out is a
`:sleep` or a `:log` that throws in its worker, as a `:sleep` without a number does.
-/

namespace OmnipaxosKv

namespace Jepsen

/-- The protocol of a generator: `none` where `op` returns `nil`. -/
structure Generator (γ α : Type) where
  op : γ → Context → Draws → Option (Emission α × γ)
  update : γ → Context → Operation α → γ

def Gen.generator (α : Type) : Generator (Gen α) α where
  op := fun gen ctx draws => (gen.op ctx draws).1
  update := Gen.update

/-- What `gen/validate` lets pass. -/
def validate {α : Type} (ctx : Context) (o : Operation α) : Bool :=
  (o.type == .invoke || o.type == .info || o.type == .sleep || o.type == .log) &&
    ctx.threadFree (ctx.processToThread o.process)

/-- `:sleep` and `:log` are not journaled. -/
def goesInHistory (type : OperationType) : Bool := type != .sleep && type != .log

inductive Inbox (α : Type) where
  | op (o : Operation α)
  | exit
deriving DecidableEq, Repr

structure Worker (α : Type) where
  inbox : Option (Inbox α)
  /-- what it is invoking -/
  current : Option (Operation α)
  exited : Bool
deriving DecidableEq, Repr

inductive RunStatus where
  | running
  /-- all workers have been told to exit -/
  | stopping
  | returned
  | thrown
deriving DecidableEq, Repr

structure Interpreter (γ α : Type) where
  ctx : Context
  gen : γ
  opIndex : ℕ
  outstanding : ℕ
  history : List (Operation α)
  workers : Name → Worker α
  completions : List (Operation α)
  /-- the last reading of the clock -/
  clock : ℕ
  status : RunStatus

/-- What a worker may make of an operation. Once it has slept or logged it returns `:sleep` and
`:log` as they are; had it thrown at them, it would answer `:info` too, and that is left out.
Anything else is answered by a client or a nemesis, whose types and processes are validated, or
ends in an exception, which is `:info`. -/
def Answers {α : Type} (o answer : Operation α) : Prop :=
  if goesInHistory o.type then
    answer.process = o.process ∧ (answer.type = .ok ∨ answer.type = .info ∨ answer.type = .fail)
  else answer = o

instance {α : Type} [DecidableEq α] (o answer : Operation α) : Decidable (Answers o answer) :=
  if h : goesInHistory o.type = true then
    decidable_of_iff (answer.process = o.process ∧
      (answer.type = .ok ∨ answer.type = .info ∨ answer.type = .fail)) (by rw [Answers, if_pos h])
  else decidable_of_iff (answer = o) (by rw [Answers, if_neg h])

/-- A step of the loop or of a worker. -/
inductive RunStep (α : Type) where
  /-- an operation was completed before the poll timed out -/
  | complete (time : ℕ)
  /-- no operation was completed: the generator is asked -/
  | ask (time : ℕ) (draws : Draws)
  | take (thread : Name)
  | finish (thread : Name) (answer : Operation α)
  /-- all workers have exited -/
  | join
deriving DecidableEq, Repr

/-- What the generator wants. -/
inductive Verdict (γ α : Type) where
  | exhausted
  | pending
  | invalid
  /-- it is not yet time -/
  | wait
  | dispatch (o : Operation α) (gen : γ)

namespace Interpreter

variable {γ α : Type}

def start (concurrency : ℕ) (gen : γ) : Interpreter γ α where
  ctx := context concurrency
  gen := gen
  opIndex := 0
  outstanding := 0
  history := []
  workers := fun _ => ⟨none, none, false⟩
  completions := []
  clock := 0
  status := .running

def setWorker (s : Interpreter γ α) (thread : Name) (w : Worker α) : Interpreter γ α :=
  { s with workers := Function.update s.workers thread w }

/-- An operation as it is written to the history. -/
def stamp (s : Interpreter γ α) (o : Operation α) : Operation α := { o with index := s.opIndex }

def journal (s : Interpreter γ α) (o : Operation α) : Interpreter γ α :=
  if goesInHistory o.type then
    { s with history := s.history ++ [o], opIndex := s.opIndex + 1 }
  else s

def verdict (G : Generator γ α) (s : Interpreter γ α) (time : ℕ) (draws : Draws) : Verdict γ α :=
  match G.op s.gen { s.ctx with time := time } draws with
  | none => .exhausted
  | some (.pending, _) => .pending
  | some (.op o, gen') =>
      if validate { s.ctx with time := time } o then
        if time < o.time then .wait else .dispatch o gen'
      else .invalid

/-- Threads that crash, or ask for it, get a new process; but not the nemesis. -/
def endsProcess (thread : Name) (o : Operation α) : Bool :=
  thread != nemesis && (o.type == .info || o.endProcess)

/-- `o` is handed to the worker of a thread. -/
def dispatch (G : Generator γ α) (s : Interpreter γ α) (o : Operation α) (gen' : γ)
    (thread : Name) : Interpreter γ α :=
  let o := s.stamp o
  let ctx := s.ctx.busyThread o.time thread
  { (s.journal o).setWorker thread { s.workers thread with inbox := some (.op o) } with
    ctx := ctx
    gen := G.update gen' ctx o
    outstanding := s.outstanding + 1 }

/-- An operation comes back. The generator is told of it before the thread goes on to its
next process. -/
def completed (G : Generator γ α) (s : Interpreter γ α) (o : Operation α) (rest : List (Operation α))
    (time : ℕ) (thread : Name) : Interpreter γ α :=
  let o := { s.stamp o with time := time }
  let ctx := s.ctx.freeThread time thread
  { s.journal o with
    ctx := if endsProcess thread o then ctx.withNextProcess thread else ctx
    gen := G.update s.gen ctx o
    outstanding := s.outstanding - 1
    completions := rest
    clock := time }

def tellExit (w : Worker α) : Worker α := { w with inbox := some .exit }

/-- The generator has been asked. An operation whose process no thread executes is journaled
before its queue is not found. -/
def asked (G : Generator γ α) (s : Interpreter γ α) (time : ℕ) (draws : Draws) :
    Interpreter γ α :=
  let s' := { s with ctx := { s.ctx with time := time }, clock := time }
  match s.verdict G time draws with
  | .exhausted =>
      if 0 < s.outstanding then s'
      else { s' with workers := fun name => tellExit (s.workers name), status := .stopping }
  | .pending => s'
  | .wait => s'
  | .invalid => { s' with status := .thrown }
  | .dispatch o gen' =>
      match s.ctx.processToThread o.process with
      | some thread => s'.dispatch G o gen' thread
      | none => { s'.journal (s'.stamp o) with status := .thrown }

/-- There is room in the queues that the round puts something into. -/
def Room (G : Generator γ α) (s : Interpreter γ α) (time : ℕ) (draws : Draws) : Prop :=
  match s.verdict G time draws with
  | .exhausted => s.outstanding = 0 → ∀ name, (s.workers name).inbox = none
  | .dispatch o _ => ∀ thread, s.ctx.processToThread o.process = some thread →
      (s.workers thread).inbox = none
  | _ => True

def guard (G : Generator γ α) : RunStep α → Interpreter γ α → Prop
  | .complete time, s => s.status = .running ∧ s.clock ≤ time ∧ s.completions ≠ []
  | .ask time draws, s => s.status = .running ∧ s.clock ≤ time ∧ s.completions = [] ∧
      s.Room G time draws
  | .take thread, s => (s.workers thread).inbox ≠ none ∧ (s.workers thread).current = none ∧
      (s.workers thread).exited = false ∧ s.status ≠ .thrown
  | .finish thread answer, s => (∃ o ∈ (s.workers thread).current, Answers o answer) ∧
      s.completions.length < s.ctx.threadCount ∧ s.status ≠ .thrown
  | .join, s => s.status = .stopping ∧
      ∀ name ∈ s.ctx.translationTable.allNames, (s.workers name).exited = true

/-- The guard if no queue had a bound. -/
def enabled : RunStep α → Interpreter γ α → Prop
  | .complete time, s => s.status = .running ∧ s.clock ≤ time ∧ s.completions ≠ []
  | .ask time _, s => s.status = .running ∧ s.clock ≤ time ∧ s.completions = []
  | .take thread, s => (s.workers thread).inbox ≠ none ∧ (s.workers thread).current = none ∧
      (s.workers thread).exited = false ∧ s.status ≠ .thrown
  | .finish thread answer, s => (∃ o ∈ (s.workers thread).current, Answers o answer) ∧
      s.status ≠ .thrown
  | .join, s => s.status = .stopping ∧
      ∀ name ∈ s.ctx.translationTable.allNames, (s.workers name).exited = true

instance decidableEnabled [DecidableEq α] :
    ∀ (l : RunStep α) (s : Interpreter γ α), Decidable (enabled l s)
  | .complete time, s =>
      inferInstanceAs (Decidable (s.status = .running ∧ s.clock ≤ time ∧ s.completions ≠ []))
  | .ask time _, s =>
      inferInstanceAs (Decidable (s.status = .running ∧ s.clock ≤ time ∧ s.completions = []))
  | .take thread, s =>
      inferInstanceAs (Decidable ((s.workers thread).inbox ≠ none ∧
        (s.workers thread).current = none ∧ (s.workers thread).exited = false ∧
        s.status ≠ .thrown))
  | .finish thread answer, s =>
      inferInstanceAs (Decidable ((∃ o ∈ (s.workers thread).current, Answers o answer) ∧
        s.status ≠ .thrown))
  | .join, s =>
      inferInstanceAs (Decidable (s.status = .stopping ∧
        ∀ name ∈ s.ctx.translationTable.allNames, (s.workers name).exited = true))

def update (G : Generator γ α) : RunStep α → Interpreter γ α → Interpreter γ α
  | .complete time, s =>
      match s.completions with
      | [] => s
      | o :: rest =>
          match s.ctx.processToThread o.process with
          | some thread => s.completed G o rest time thread
          -- does not occur: a process goes on only when its operation has come back
          | none => { s with status := .thrown }
  | .ask time draws, s => s.asked G time draws
  | .take thread, s =>
      match (s.workers thread).inbox with
      | none => s
      | some .exit => s.setWorker thread ⟨none, none, true⟩
      | some (.op o) => s.setWorker thread ⟨none, some o, false⟩
  | .finish thread answer, s =>
      { s.setWorker thread { s.workers thread with current := none } with
        completions := s.completions ++ [answer] }
  | .join, s => { s with status := .returned }

end Interpreter

/-- The runs of `run!`, over any generator whose `:sleep` and `:log` do not throw, and any answers
of the clients and the nemesis. -/
def interpreter {γ α : Type} (G : Generator γ α) (concurrency : ℕ) (gen : γ) :
    Machine (Interpreter γ α) (RunStep α) where
  init := fun s => s = .start concurrency gen
  guard := Interpreter.guard G
  update := Interpreter.update G

/-- The runs of `run!` if no queue had a bound. -/
def unboundedInterpreter {γ α : Type} (G : Generator γ α) (concurrency : ℕ) (gen : γ) :
    Machine (Interpreter γ α) (RunStep α) where
  init := fun s => s = .start concurrency gen
  guard := Interpreter.enabled
  update := Interpreter.update G

instance {γ α : Type} [DecidableEq α] (G : Generator γ α) (concurrency : ℕ) (gen : γ)
    (l : RunStep α) (s : Interpreter γ α) :
    Decidable ((unboundedInterpreter G concurrency gen).guard l s) :=
  Interpreter.decidableEnabled l s

end Jepsen

end OmnipaxosKv
