import OmnipaxosKv.Lib.Script
import OmnipaxosKv.Jepsen.Checker

/-! # The life of a test (`jepsen/core.clj`, `jepsen/db.clj`)

`run!` opens sessions to the nodes, sets up the operating systems, the database, the nemesis and
the clients, runs the generator, collects the logs, tears everything down and checks the history.
Each step is a call to something outside that returns or throws as it likes. The threads of a
parallel step run on their own nodes; here they run one after the other, in the order of the
nodes, and the nemesis is set up and torn down before the clients. Only which of several
exceptions comes first is left open.

`Call.Allowed` states, in terms of what has been called before, when a call makes sense. It is
not part of the program, which only takes down the calls and what was known when each was made.

Left out are the hook of the JVM's shutdown, log messages and thread names.
-/

namespace OmnipaxosKv

namespace Jepsen

namespace Lifecycle

open Script

abbrev Node : Type := String

/-- What is thrown, as far as something depends on it. -/
inductive Throwable where
  | interrupted
  | brokenBarrier
  | timeout
  /-- of type `:jepsen.db/setup-failed` -/
  | setupFailed
  /-- of type `:jepsen.control/nonzero-exit` -/
  | nonzeroExit (exit : ℕ)
  | illegalArgument
  /-- any other `RuntimeException` -/
  | runtime
  /-- an `IOException` with the message `"Pipe closed"` -/
  | pipeClosed
  /-- any other `Exception` -/
  | checked
  /-- no `Exception` -/
  | error
deriving DecidableEq, Repr

/-- Is it a `RuntimeException`? -/
def Throwable.isRuntime : Throwable → Bool
  | .setupFailed | .nonzeroExit _ | .illegalArgument | .runtime => true
  | _ => false

/-- `uninteresting-exceptions` -/
def Throwable.uninteresting : Throwable → Bool
  | .interrupted | .brokenBarrier | .timeout => true
  | _ => false

/-- What comes of a command on a node: it may have been carried out even where it throws. -/
inductive Fate where
  | done
  | thrown (carriedOut : Bool) (e : Throwable)
deriving DecidableEq, Repr

def Fate.outcome : Fate → Except Throwable Unit
  | .done => .ok ()
  | .thrown _ e => .error e

/-- The machine after a command. -/
def Fate.apply {ν : Type} (command : ν → ν) (machine : ν) : Fate → ν
  | .done => command machine
  | .thrown carriedOut _ => if carriedOut then command machine else machine

/-! ## What has been called -/

inductive Session where
  | none
  | open
  | failed (e : Throwable)
  | closed
deriving DecidableEq, Repr

/-- How far a set-up has come, and whether the last call returned. -/
inductive Stage where
  | untouched
  | setUp (returned : Bool)
  | torn (returned : Bool)
deriving DecidableEq, Repr

def Stage.isSetUp : Stage → Bool
  | .setUp _ => true
  | _ => false

inductive ClientStage where
  | untouched
  | failed
  | opened
  | ready
  | torn
  | closed
deriving DecidableEq, Repr

structure NodeStatus where
  session : Session := .none
  os : Stage := .untouched
  db : Stage := .untouched
  /-- `setup-primary!` has returned since the last set-up -/
  primary : Bool := false
  /-- the logs have been asked for since the last set-up; for that the database is killed -/
  logs : Bool := false
  client : ClientStage := .untouched
deriving DecidableEq, Repr

structure Status where
  logging : Bool := false
  handle : Bool := false
  /-- how many of the three saves have returned -/
  saved : ℕ := 0
  nemesis : Stage := .untouched
  /-- whether the interpreter returned, if it was called -/
  interpreted : Option Bool := none
  checked : Bool := false
  node : Node → NodeStatus := fun _ => {}

/-- A call to one node. -/
inductive NodeCall where
  | connect
  | disconnect
  | setupOs
  | teardownOs
  | setupDb
  | setupPrimary
  | teardownDb
  | snarfLogs
  | openClient
  | setupClient
  | teardownClient
  | closeClient
deriving DecidableEq, Repr

inductive Call where
  | startLogging
  | stopLogging
  | openHandle
  | closeHandle
  | save (phase : ℕ)
  | updateSymlinks
  | setupNemesis
  | interpret
  | teardownNemesis
  | check
  | logResults
  | on (n : Node) (c : NodeCall)
deriving DecidableEq, Repr

def returned : Option Throwable → Bool := Option.isNone

/-- What is known of a node after a call that returned, or threw. -/
def NodeCall.after (thrown : Option Throwable) (s : NodeStatus) : NodeCall → NodeStatus
  | .connect => { s with session := thrown.elim .open .failed }
  | .disconnect => { s with session := .closed }
  | .setupOs => { s with os := .setUp (returned thrown) }
  | .teardownOs => { s with os := .torn (returned thrown) }
  | .setupDb => { s with db := .setUp (returned thrown), primary := false, logs := false }
  | .setupPrimary => { s with db := .setUp (returned thrown), primary := returned thrown }
  | .teardownDb => { s with db := .torn (returned thrown) }
  | .snarfLogs => { s with logs := true }
  | .openClient => { s with client := if returned thrown then .opened else .failed }
  | .setupClient => { s with client := if returned thrown then .ready else .opened }
  | .teardownClient => { s with client := .torn }
  | .closeClient => { s with client := .closed }

def Status.setNode (s : Status) (n : Node) (ns : NodeStatus) : Status :=
  { s with node := Function.update s.node n ns }

/-- The node has its new status. -/
theorem setNode_self (s : Status) (n : Node) (ns : NodeStatus) : (s.setNode n ns).node n = ns := by
  simp [Status.setNode]

/-- The other nodes keep their status. -/
theorem setNode_ne (s : Status) {n m : Node} (h : m ≠ n) (ns : NodeStatus) :
    (s.setNode n ns).node m = s.node m := by
  simp [Status.setNode, h]

def Status.withNodes (s : Status) (g : Node → NodeStatus) : Status := { s with node := g }

/-- Something happened to some of the nodes. -/
def Status.mapNodes (s : Status) (nodes : List Node) (u : Node → NodeStatus → NodeStatus) : Status :=
  s.withNodes fun n => if n ∈ nodes then u n (s.node n) else s.node n

def Call.after (thrown : Option Throwable) (s : Status) : Call → Status
  | .startLogging => { s with logging := true }
  | .stopLogging => { s with logging := false }
  | .openHandle => { s with handle := returned thrown }
  | .closeHandle => { s with handle := false }
  | .save phase => { s with saved := if returned thrown then phase + 1 else s.saved }
  | .updateSymlinks => s
  | .setupNemesis => { s with nemesis := .setUp (returned thrown) }
  | .interpret => { s with interpreted := some (returned thrown) }
  | .teardownNemesis => { s with nemesis := .torn (returned thrown) }
  | .check => { s with checked := returned thrown }
  | .logResults => s
  | .on n c => s.setNode n (c.after thrown (s.node n))

/-! ## Tests -/

/-- The state of a machine, and what becomes of the commands to come. -/
structure Remote (ν : Type) where
  fates : ℕ → Fate
  machine : ν

/-- A database; `none` for a protocol that it does not satisfy. -/
structure DB (ν : Type) where
  setup : Node → Script (Remote ν) Throwable Unit
  teardown : Node → Script (Remote ν) Throwable Unit
  setupPrimary : Option (Node → Script (Remote ν) Throwable Unit)
  kill : Option (Node → Script (Remote ν) Throwable Unit)
  /-- looks for the log files and downloads them -/
  logFiles : Option (Node → Script (Remote ν) Throwable Unit)

structure Test (ν : Type) where
  nodes : List Node
  nodup : nodes.Nodup
  /-- the test has a `:name` -/
  named : Bool
  db : DB ν
  leaveDbRunning : Bool
  analysis : Checker
  spit : List Box → Bool

/-- A call that was made, and the state in which it was made. -/
structure Made (ν : Type) where
  call : Call
  status : Status
  remote : Node → ν

structure World (ν : Type) where
  fates : ℕ → Fate
  /-- which of the threads throws first -/
  turns : ℕ → ℕ
  remote : Node → ν
  status : Status := {}
  calls : List (Made ν) := []

/-! ## When a call makes sense -/

section

variable {ν : Type} (test : Test ν) (s : Status)

/-- Something holds of every node of the test. -/
def Every (p : NodeStatus → Prop) : Prop := ∀ n ∈ test.nodes, p (s.node n)

/-- Commands can be run on the node. -/
def NodeStatus.Live (ns : NodeStatus) : Prop := ns.session = .open ∧ ns.os = .setUp true

/-- The database runs on every node. -/
structure Running : Prop where
  handle : s.handle = true
  saved : test.named = true → 1 ≤ s.saved
  live : Every test s NodeStatus.Live
  db : Every test s fun ns => ns.db = .setUp true ∧ ns.logs = false
  primary : test.db.setupPrimary.isSome = true → ∀ n, test.nodes.head? = some n →
    (s.node n).primary = true

/-- The generator has not been run, or the nemesis of its run has been torn down, if only in
vain, and the clients are closed. -/
def Quiet : Prop :=
  s.interpreted ≠ none → s.nemesis.isSetUp = false ∧ Every test s (·.client = .closed)

/-- The logs have been asked for. -/
def Logged : Prop := test.db.logFiles.isSome = true → Every test s (·.logs = true)

/-- The sessions are closed, unless an error came up while they were opened. -/
def Disconnected : Prop :=
  Every test s (·.session ≠ .open) ∨ ∃ n ∈ test.nodes, (s.node n).session = .failed .error

/-- Each database that was set up has been torn down since, if only in vain; or they are left
running. -/
def DbDown : Prop := test.leaveDbRunning = true ∨ Every test s (·.db.isSetUp = false)

/-- How a test leaves things. What was set up has been torn down, though the tear-down may have
thrown; sessions may be open after an error; and where the interpreter was never called, nothing
is said of the nemesis and the clients. -/
structure Released : Prop where
  handle : s.handle = false
  logging : s.logging = false
  sessions : Disconnected test s
  os : Every test s (·.os.isSetUp = false)
  db : DbDown test s
  /-- the logs of a database that was touched have been asked for -/
  logs : test.db.logFiles.isSome = true → Every test s fun ns => ns.db ≠ .untouched → ns.logs = true
  quiet : Quiet test s

def NodeCall.Allowed (n : Node) : NodeCall → Prop
  | .connect => s.handle = true ∧ (s.node n).session = .none
  | .disconnect => (s.node n).session = .open ∧ (s.node n).os.isSetUp = false
  | .setupOs => Every test s (·.session = .open) ∧ (s.node n).os = .untouched
  | .teardownOs => (s.node n).session = .open ∧
      (test.leaveDbRunning = true ∨ Every test s (·.db.isSetUp = false))
  | .setupDb => s.interpreted = none ∧ Every test s NodeStatus.Live ∧
      Every test s (fun ns => ns.db ≠ .untouched ∧ ns.db ≠ .torn false) ∧
      (s.node n).db = .torn true ∧ (s.node n).logs = false
  | .setupPrimary => s.interpreted = none ∧ Every test s NodeStatus.Live ∧
      Every test s (fun ns => ns.db = .setUp true ∧ ns.logs = false) ∧
      test.nodes.head? = some n
  | .teardownDb => Every test s NodeStatus.Live ∧ Quiet test s ∧
      (s.interpreted ≠ none → Logged test s)
  | .snarfLogs => Every test s NodeStatus.Live ∧ Quiet test s
  | .openClient => s.interpreted = none ∧ Running test s ∧ (s.node n).client = .untouched
  | .setupClient => s.interpreted = none ∧ Running test s ∧ (s.node n).client = .opened
  | .teardownClient => s.interpreted ≠ none ∧ (s.node n).client = .ready
  | .closeClient => (s.node n).client = .torn

def Call.Allowed : Call → Prop
  | .startLogging => s.logging = false
  | .stopLogging => s.handle = false
  | .openHandle => s.logging = true ∧ s.handle = false
  | .closeHandle => s.handle = true ∧ Disconnected test s
  | .save 0 => s.handle = true ∧ s.saved = 0
  | .save 1 => s.handle = true ∧ s.saved = 1 ∧ s.interpreted = some true ∧ Quiet test s
  | .save _ => s.handle = true ∧ s.saved = 2 ∧ s.checked = true
  | .updateSymlinks => s.handle = true
  | .setupNemesis => s.interpreted = none ∧ Running test s ∧ s.nemesis = .untouched
  | .interpret => s.interpreted = none ∧ Running test s ∧ s.nemesis = .setUp true ∧
      Every test s (·.client = .ready)
  | .teardownNemesis => s.interpreted ≠ none ∧ s.nemesis = .setUp true
  | .check => s.interpreted = some true ∧ (test.named = true → s.saved = 2) ∧ Logged test s ∧
      Every test s (·.os = .torn true) ∧
      (test.leaveDbRunning = true ∨ Every test s (·.db = .torn true))
  | .logResults => s.checked = true ∧ (test.named = true → s.saved = 3) ∧ Disconnected test s
  | .on n c => c.Allowed test s n

end

/-! ## Calls -/

section

variable {ν α β : Type}

/-- A command, which changes the machine. -/
def exec (command : ν → ν) : Script (Remote ν) Throwable Unit := do
  let r ← get
  set (Remote.mk (fun i => r.fates (i + 1)) ((r.fates 0).apply command r.machine))
  deliver (r.fates 0).outcome

/-- The script acts on the machine of the node. -/
def onMachine (n : Node) (x : Script (Remote ν) Throwable α) : Script (World ν) Throwable α :=
  ExceptT.mk fun w =>
    let r := x.eval ⟨w.fates, w.remote n⟩
    (r.1, { w with fates := r.2.fates, remote := Function.update w.remote n r.2.machine })

/-- Something outside of the model, which changes no machine. -/
def outside : Script (World ν) Throwable Unit := do
  let w ← get
  set { w with fates := fun i => w.fates (i + 1) }
  deliver (w.fates 0).outcome

def World.make (c : Call) (w : World ν) : World ν :=
  { w with calls := w.calls ++ [⟨c, w.status, w.remote⟩] }

def failure : Except Throwable α → Option Throwable
  | .ok _ => none
  | .error e => some e

def World.record (c : Call) (outcome : Except Throwable α) (w : World ν) : World ν :=
  { w with status := c.after (failure outcome) w.status }

/-- The body is what is called. -/
def call (c : Call) (body : Script (World ν) Throwable α) : Script (World ν) Throwable α := do
  modify (World.make c)
  let outcome ← attempt body
  modify (World.record c outcome)
  deliver outcome

/-- Returns exceptions, and throws what is none. -/
def fcatch (x : Script (World ν) Throwable α) :
    Script (World ν) Throwable (Except Throwable α) := do
  let outcome ← attempt x
  match outcome with
  | .error .error => throw .error
  | _ => return outcome

/-- The first of the exceptions that is of interest, or the first of all, where the threads throw
in any order. -/
def firstThrown (turn : ℕ) (os : List (Except Throwable α)) : Option Throwable :=
  let exceptions := (os.filterMap failure).rotate turn
  (exceptions.find? fun e => !e.uninteresting).or exceptions.head?

/-- What comes of the threads together. -/
def gather (turn : ℕ) (os : List (Except Throwable α)) : Except Throwable (List α) :=
  match firstThrown turn os with
  | some e => .error e
  | none => .ok (os.filterMap Except.toOption)

def takeTurn : Script (World ν) Throwable ℕ := do
  let w ← get
  set { w with turns := fun i => w.turns (i + 1) }
  return w.turns 0

/-- One thread for each element. -/
def realPmap (f : α → Script (World ν) Throwable β) (coll : List α) :
    Script (World ν) Throwable (List β) := do
  let os ← outcomes f coll
  let turn ← takeTurn
  deliver (gather turn os)

/-- `control/on-nodes` -/
def onNodes (nodes : List Node) (f : Node → Script (World ν) Throwable Unit) :
    Script (World ν) Throwable Unit := do
  let _ ← realPmap f nodes

/-! ## The parts of a test -/

variable (test : Test ν)

def withResources (start stop : Node → Script (World ν) Throwable Unit)
    (body : Script (World ν) Throwable α) : Script (World ν) Throwable α := do
  let sym ← realPmap (fun n => fcatch (start n)) test.nodes
  match sym.filterMap failure with
  | e :: _ =>
      -- one of them threw: shut down those that started
      let started := ((test.nodes.zip sym).filter fun p => p.2.toOption.isSome).map Prod.fst
      let _ ← realPmap (fun n => fcatch (stop n)) started
      throw e
  | [] => ensuring body do
      let _ ← realPmap (fun n => fcatch (stop n)) test.nodes

def withSessions (body : Script (World ν) Throwable α) : Script (World ν) Throwable α :=
  withResources test (fun n => call (.on n .connect) outside)
    (fun n => call (.on n .disconnect) outside) body

def withOs (body : Script (World ν) Throwable α) : Script (World ν) Throwable α :=
  ensuring
    (do
      onNodes test.nodes fun n => call (.on n .setupOs) outside
      body)
    (onNodes test.nodes fun n => call (.on n .teardownOs) outside)

/-- The database is killed before its log files are downloaded, if that is possible. -/
def snarfNode (logFiles : Node → Script (Remote ν) Throwable Unit) (n : Node) :
    Script (Remote ν) Throwable Unit := do
  if test.leaveDbRunning = false then
    match test.db.kill with
    | some kill => kill n
    | none => pure ()
  logFiles n

def snarfLogs : Script (World ν) Throwable Unit :=
  ensuring
    (match test.db.logFiles with
      | some logFiles => onNodes test.nodes fun n =>
          call (.on n .snarfLogs) (onMachine n (snarfNode test logFiles n))
      | none => pure ())
    (call .updateSymlinks outside)

def maybeSnarfLogs : Script (World ν) Throwable Unit := do
  let _ ← attempt (snarfLogs test)

/-- The logs are snarfed after the body, or once more if that or the body threw. -/
def withLogSnarfing (body : Script (World ν) Throwable α) : Script (World ν) Throwable α := do
  let outcome ← attempt do
    let res ← body
    snarfLogs test
    return res
  match outcome with
  | .ok res => return res
  | .error e =>
      maybeSnarfLogs test
      throw e

def cycleTries : ℕ := 3

/-- Sets up the database, and its primary. -/
def setUpDb : Script (World ν) Throwable Unit := do
  onNodes test.nodes fun n => call (.on n .setupDb) (onMachine n (test.db.setup n))
  match test.db.setupPrimary with
  | some setupPrimary =>
      onNodes test.nodes.head?.toList fun n =>
        call (.on n .setupPrimary) (onMachine n (setupPrimary n))
  | none => pure ()

def tearDownDb : Script (World ν) Throwable Unit :=
  onNodes test.nodes fun n => call (.on n .teardownDb) (onMachine n (test.db.teardown n))

/-- `cycle!`, with the number of tries after this one. -/
def cycle : ℕ → Script (World ν) Throwable Unit
  | 0 => do
      tearDownDb test
      setUpDb test
  | more + 1 => do
      tearDownDb test
      let outcome ← attempt (setUpDb test)
      match outcome with
      | .error .setupFailed => cycle more
      | _ => deliver outcome

def withDb (body : Script (World ν) Throwable α) : Script (World ν) Throwable α :=
  ensuring
    (withLogSnarfing test do
      cycle test (cycleTries - 1)
      body)
    (if test.leaveDbRunning then pure () else tearDownDb test)

def openNode (n : Node) : Script (World ν) Throwable Unit := do
  call (.on n .openClient) outside
  call (.on n .setupClient) outside

def closeNode (n : Node) : Script (World ν) Throwable Unit :=
  ensuring (call (.on n .teardownClient) outside) (call (.on n .closeClient) outside)

/-- `with-client+nemesis-setup-teardown`: the nemesis is set up and torn down in a future, which is
waited for after the clients. -/
def withClientNemesis (body : Script (World ν) Throwable α) : Script (World ν) Throwable α := do
  let nf ← attempt (call .setupNemesis outside)
  onNodes test.nodes openNode
  deliver nf
  ensuring body do
    let nf ← attempt (call .teardownNemesis outside)
    onNodes test.nodes closeNode
    deliver nf

/-- The interpreter returns this history, or throws. -/
def runCase (history : List (Operation Payload)) :
    Script (World ν) Throwable (List (Operation Payload)) :=
  withClientNemesis test do
    call .interpret outside
    return history

def saveNamed (phase : ℕ) : Script (World ν) Throwable Unit :=
  if test.named then call (.save phase) outside else pure ()

def results : Outcome → Except Throwable (Option Validity)
  | .result valid => .ok valid
  | .exception => .error .runtime
  | .error => .error .error

def analyzeTest (history : List (Operation Payload)) :
    Script (World ν) Throwable (Option Validity) := do
  let results ← call .check (deliver (results (analyze test.analysis test.spit history)))
  saveNamed test 2
  return results

def withLogging (body : Script (World ν) Throwable α) : Script (World ν) Throwable α :=
  ensuring
    (do
      call .startLogging outside
      -- the version of the test is looked up
      outside
      body)
    (call .stopLogging outside)

def withHandle (body : Script (World ν) Throwable α) : Script (World ν) Throwable α := do
  call .openHandle outside
  ensuring body (call .closeHandle outside)

/-- `run!`, where the interpreter returns the history, if it returns. -/
def run (history : List (Operation Payload)) : Script (World ν) Throwable (Option Validity) :=
  withLogging <| withHandle do
    saveNamed test 0
    let results ← withSessions test do
      let history ← withOs test <| withDb test do
        let history ← runCase test history
        saveNamed test 1
        return history
      analyzeTest test history
    call .logResults outside
    return results

end

end Lifecycle

end Jepsen

end OmnipaxosKv
