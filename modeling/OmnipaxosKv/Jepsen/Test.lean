import OmnipaxosKv.Jepsen.Sessions
import OmnipaxosKv.Jepsen.Db

/-! # A whole test

`run!` with the file of the test and its log, and the exit of the command that calls it: for every
database that meets its contract, and for the test of omnipaxos.
-/

namespace OmnipaxosKv

namespace Jepsen

namespace Lifecycle

open Script

namespace Contract

variable {ν α : Type} {K : Contract ν}

/-- What is outside the test does not move it. -/
theorem moves_outside {P : Status → Prop} {E : Throwable → Status → Prop}
    (hE : ∀ e s, P s → E e s) :
    K.Moves P (outside : Script (World ν) Throwable Unit) (fun _ => P) E := by
  intro w hw
  rw [eval_outside]
  cases (w.fates 0).outcome with
  | ok _ => exact ⟨hw.status, hw.ties, hw.calls⟩
  | error e => exact ⟨hE e _ hw.status, hw.ties, hw.calls⟩

/-- What the test comes to. -/
structure Passed (K : Contract ν) (history : List (Operation Payload)) (v : Option Validity)
    (s : Status) : Prop where
  verdict : results (analyze K.test.analysis K.test.spit history) = .ok v
  analyzed : Analyzed K s

/-- The test runs within its sessions; then all is down, and they are closed. -/
theorem moves_sessions (history : List (Operation Payload)) :
    K.Moves (fun s => Untouched K s ∧ Saved K 1 s)
      (withSessions K.test do
        let history ← withOs K.test (withDb K.test (caseAndSave K history))
        analyzeTest K.test history)
      (fun v s => Passed K history v s ∧ Down K s ∧ Disconnected K.test s)
      (fun _ s => Down K s ∧ Disconnected K.test s) := by
  apply moves_withSessions
  · rintro v s g ⟨hverdict, hanalyzed⟩
    exact ⟨hverdict, hanalyzed.checked, hanalyzed.saved, hanalyzed.interpreted⟩
  · refine (moves_withOs history).bind fun a => ?_
    refine moves_of_each ?_
    rintro s ⟨rfl, hcheckable, hdown, hopen⟩
    apply (moves_analyzeTest a).weaken
    · rintro s' rfl
      exact ⟨hcheckable, hdown, hopen⟩
    · rintro v s' ⟨⟨hverdict, hanalyzed⟩, hrest⟩
      exact ⟨⟨hverdict, hanalyzed⟩, hrest⟩
    · intro e s' hs'
      exact hs'

theorem Untouched.down {s : Status} (h : Untouched K s) :
    Down K s ∧ Disconnected K.test s := by
  refine ⟨down_of_sessions h (g := s.node) rfl fun n hn => ⟨.none, h.nodes n hn⟩, .inl ?_⟩
  intro n hn
  rw [h.nodes n hn]
  exact Session.noConfusion

/-- With the file of the test open, all but it and the log is as the test leaves it. -/
theorem moves_withFile (history : List (Operation Payload)) :
    K.Moves (fun s => Untouched K s ∧ s.saved = 0)
      (do
        saveNamed K.test 0
        let results ← withSessions K.test do
          let history ← withOs K.test (withDb K.test (caseAndSave K history))
          analyzeTest K.test history
        call .logResults outside
        return results)
      (fun v s => Passed K history v s ∧ Down K s ∧ Disconnected K.test s)
      (fun _ s => Down K s ∧ Disconnected K.test s) := by
  apply Moves.bind (Q := fun _ s => Untouched K s ∧ Saved K 1 s)
  · apply moves_saveNamed
    · rintro s ⟨h, hsaved⟩ _
      exact ⟨h.begun.handle, hsaved⟩
    · rintro s ⟨h, _⟩ _
      exact ⟨⟨⟨h.begun.handle, h.begun.logging⟩, h.interpreted, h.nemesis, h.nodes⟩,
        fun _ => rfl⟩
    · rintro s ⟨h, _⟩ hunnamed
      refine ⟨h, fun hnamed => ?_⟩
      rw [hunnamed] at hnamed
      cases hnamed
    · rintro e s ⟨h, _⟩
      exact h.down
  · refine fun _ => (moves_sessions history).bind fun v => ?_
    apply Moves.bind (Q := fun _ s => Passed K history v s ∧ Down K s ∧ Disconnected K.test s)
    · apply (takes_outside rfl).moves
      · rintro s ⟨hpassed, _, hclosed⟩
        exact ⟨hpassed.analyzed.checked, hpassed.analyzed.saved, hclosed⟩
      · intro _ s hs
        exact hs
      · rintro e s ⟨_, hrest⟩
        exact hrest
    · exact fun _ => moves_pure v fun _ hs => hs

/-- The file of the test is closed, and all but its log is as the test leaves it. -/
def Closing (K : Contract ν) (s : Status) : Prop :=
  s.handle = false ∧ Released K.test { s with logging := false }

theorem closing_of_down {s : Status} (h : Down K s) (hclosed : Disconnected K.test s) :
    Closing K { s with handle := false } :=
  ⟨rfl, rfl, rfl, hclosed, h.os, h.db, h.logs, h.quiet⟩

theorem closing_of_fresh (b : Bool) : Closing K { logging := b } := by
  refine ⟨rfl, rfl, rfl, .inl ?_, ?_, .inr ?_, ?_, fun habsurd => absurd rfl habsurd⟩
  · exact fun n _ => Session.noConfusion
  · exact fun n _ => rfl
  · exact fun n _ => rfl
  · exact fun _ n _ habsurd => absurd rfl habsurd

/-- The test runs with its file open, and the file is closed in the end. -/
theorem moves_withHandle (history : List (Operation Payload)) :
    K.Moves (· = { logging := true })
      (withHandle do
        saveNamed K.test 0
        let results ← withSessions K.test do
          let history ← withOs K.test (withDb K.test (caseAndSave K history))
          analyzeTest K.test history
        call .logResults outside
        return results)
      (fun v s => Passed K history v s ∧ Closing K s)
      (fun _ => Closing K) := by
  rw [withHandle]
  -- the file is opened, or it is not, and then there is nothing to close
  apply Moves.bind (Q := fun _ s => Untouched K s ∧ s.saved = 0)
  · apply (takes_outside rfl).moves
    · rintro s rfl
      exact ⟨rfl, rfl⟩
    · rintro _ s rfl
      exact ⟨⟨⟨rfl, rfl⟩, rfl, rfl, fun _ _ => rfl⟩, rfl⟩
    · rintro e s rfl
      exact closing_of_fresh true
  · refine fun _ => (moves_withFile history).ensuring fun outcome => ?_
    -- it is closed after the sessions, whatever comes of that
    have hclose : ∀ s, Down K s ∧ Disconnected K.test s →
        Call.closeHandle.Allowed K.test s ∧
          ∀ thrown, Closing K (Call.closeHandle.after thrown s) := by
      rintro s ⟨hdown, hclosed⟩
      exact ⟨⟨hdown.begun.handle, hclosed⟩, fun _ => closing_of_down hdown hclosed⟩
    cases outcome with
    | ok v =>
        apply (takes_outside rfl).moves
        · rintro s ⟨_, hrest⟩
          exact (hclose s hrest).1
        · rintro _ s ⟨hpassed, hrest⟩
          exact ⟨⟨hpassed.verdict, hpassed.analyzed.checked, hpassed.analyzed.saved,
            hpassed.analyzed.interpreted⟩, (hclose s hrest).2 none⟩
        · rintro e s ⟨_, hrest⟩
          exact (hclose s hrest).2 (some e)
    | error e =>
        apply (takes_outside rfl).moves
        · intro s hrest
          exact (hclose s hrest).1
        · intro _ s hrest
          exact (hclose s hrest).2 none
        · intro e' s hrest
          exact (hclose s hrest).2 (some e')

/-- A test that starts from nothing is released, and if it returns, its history has been
checked. -/
theorem moves_run (history : List (Operation Payload)) :
    K.Moves (· = {}) (run K.test history)
      (fun v s => Passed K history v s ∧ Released K.test s) (fun _ => Released K.test) := by
  rw [run, withLogging]
  have hbody : K.Moves (· = {})
      (do
        call .startLogging outside
        outside
        withHandle do
          saveNamed K.test 0
          let results ← withSessions K.test do
            let history ← withOs K.test (withDb K.test (caseAndSave K history))
            analyzeTest K.test history
          call .logResults outside
          return results)
      (fun v s => Passed K history v s ∧ Closing K s)
      (fun _ => Closing K) := by
    -- the log is started, what `log-test-start!` prints may throw, and then the test runs
    apply Moves.bind (Q := fun _ s => s = { logging := true })
    · apply (takes_outside rfl).moves
      · rintro s rfl
        rfl
      · rintro _ s rfl
        rfl
      · rintro e s rfl
        exact closing_of_fresh true
    · refine fun _ => Moves.bind (moves_outside ?_) fun _ => moves_withHandle history
      rintro e s rfl
      exact closing_of_fresh true
  -- and the log is stopped
  refine hbody.ensuring fun outcome => ?_
  cases outcome with
  | ok v =>
      apply (takes_outside rfl).moves
      · rintro s ⟨_, hclosing⟩
        exact hclosing.1
      · rintro _ s ⟨hpassed, hclosing⟩
        exact ⟨⟨hpassed.verdict, hpassed.analyzed.checked, hpassed.analyzed.saved,
          hpassed.analyzed.interpreted⟩, hclosing.2⟩
      · rintro e s ⟨_, hclosing⟩
        exact hclosing.2
  | error e =>
      apply (takes_outside rfl).moves
      · intro s hclosing
        exact hclosing.1
      · intro _ s hclosing
        exact hclosing.2
      · intro e' s hclosing
        exact hclosing.2

/-- What a test is known to have done, in the end. -/
theorem run_holds (history : List (Operation Payload)) (fates : ℕ → Fate) (turns : ℕ → ℕ)
    (remote : Node → ν) :
    let result := (run K.test history).eval { fates := fates, turns := turns, remote := remote }
    K.Holds (post (Passed K history) (fun _ _ => True) result.1) result.2 ∧
      Released K.test result.2.status := by
  intro result
  have hstart : K.Holds (· = {})
      ({ fates := fates, turns := turns, remote := remote } : World ν) := by
    refine ⟨rfl, ?_, ?_, fun habsurd => absurd rfl habsurd⟩
    · intro n _
      exact ⟨Stage.noConfusion, Stage.noConfusion⟩
    · intro a ha
      cases ha
  have hrun := moves_run history _ hstart
  change post _ _ result.1 result.2 at hrun
  cases houtcome : result.1 with
  | ok v =>
      rw [houtcome] at hrun
      exact ⟨hrun.mono fun _ hs => hs.1, hrun.status.2⟩
  | error e =>
      rw [houtcome] at hrun
      exact ⟨hrun.mono fun _ _ => trivial, hrun.status⟩

end Contract

/-! ## The command -/

/-- How the command of a test exits that is run once. -/
def exitCode : Except Throwable (Option Validity) → ℕ
  | .ok (some .invalid) => 1
  | .ok (some .unknown) => 2
  | .ok _ => 0
  | .error _ => 255

/-- The result of a test is the verdict on a history that the interpreter returned. -/
theorem Contract.run_passed {ν : Type} {K : Contract ν} {history : List (Operation Payload)}
    {result : Except Throwable (Option Validity)} {w : World ν}
    (h : K.Holds (post (Passed K history) (fun _ _ => True) result) w)
    (hexit : exitCode result ≠ 255) :
    (∃ a ∈ w.calls, a.call = .interpret) ∧ w.status.interpreted = some true ∧
      result = results (analyze K.test.analysis K.test.spit history) := by
  cases result with
  | error e => exact absurd rfl hexit
  | ok v =>
      have hpassed : Passed K history v w.status := h.status
      have hinterpreted := hpassed.analyzed.interpreted
      refine ⟨h.calls.interpreted ?_, hinterpreted, hpassed.verdict.symm⟩
      rw [hinterpreted]
      exact Option.some_ne_none true

/-- A test of a database that clears and brings up its machines makes every call in its turn, and
the interpreter is called with all machines up. Whatever throws, things are left as `Released` says.
The command exits with another status than 255 only if the interpreter was called and came
back, and then with the verdict on its history. -/
theorem run_in_turn {ν : Type} (test : Test ν) (cleared up : Node → ν → Prop)
    (hmeets : test.db.Meets cleared up) (history : List (Operation Payload)) (fates : ℕ → Fate)
    (turns : ℕ → ℕ) (remote : Node → ν) :
    let result := (run test history).eval { fates := fates, turns := turns, remote := remote }
    (∀ a ∈ result.2.calls, a.call.Allowed test a.status) ∧
      (∀ a ∈ result.2.calls, a.call = .interpret → ∀ n ∈ test.nodes, up n (a.remote n)) ∧
      Released test result.2.status ∧
      (exitCode result.1 ≠ 255 → (∃ a ∈ result.2.calls, a.call = .interpret) ∧
        result.2.status.interpreted = some true ∧
        result.1 = results (analyze test.analysis test.spit history)) := by
  intro result
  rcases Contract.run_holds (K := ⟨test, cleared, up, hmeets⟩) history fates turns remote with
    ⟨hholds, hreleased⟩
  refine ⟨?_, ?_, hreleased, fun hexit => Contract.run_passed hholds hexit⟩
  · intro a ha
    exact (hholds.calls.inTurn a ha).1
  · intro a ha
    exact (hholds.calls.inTurn a ha).2

/-- Two nodes, on which all goes well. -/
def twoNodesTest : Test Host where
  nodes := ["n1", "n2"]
  nodup := by decide
  named := true
  db := omnipaxosDb "server" "api-shim" ["n1", "n2"]
  leaveDbRunning := false
  analysis := fun _ => .result (some .valid)
  spit := fun _ => true

def emptyHost : Host := ⟨Dict.empty, false⟩

def calm : World Host where
  fates := fun _ => .done
  turns := fun _ => 0
  remote := fun _ => emptyHost

set_option maxRecDepth 100000 in
theorem twoNodesTest_exit : exitCode ((run twoNodesTest []).eval calm).1 = 0 := by
  decide +kernel

theorem run_in_turn_two_nodes :
    exitCode ((run twoNodesTest []).eval calm).1 = 0 ∧
      (∃ a ∈ ((run twoNodesTest []).eval calm).2.calls, a.call = .interpret) ∧
      (∀ a ∈ ((run twoNodesTest []).eval calm).2.calls, a.call = .interpret →
        ∀ n ∈ twoNodesTest.nodes, Deployed "server" "api-shim" ["n1", "n2"] n (a.remote n)) ∧
      Released twoNodesTest ((run twoNodesTest []).eval calm).2.status := by
  have hexit := twoNodesTest_exit
  have hrun := run_in_turn twoNodesTest (fun _ => Host.Has [])
    (Deployed "server" "api-shim" ["n1", "n2"]) omnipaxosDb_meets [] calm.fates calm.turns
    calm.remote
  have hcalm : { fates := calm.fates, turns := calm.turns, remote := calm.remote } = calm := rfl
  dsimp only at hrun
  rw [hcalm] at hrun
  -- the run is not to be evaluated once more
  generalize (run twoNodesTest []).eval calm = result at hexit hrun ⊢
  rcases hrun with ⟨_, hdeployed, hreleased, hreturned⟩
  have hcalled := hreturned (by rw [hexit]; exact Nat.zero_ne_add_one 254)
  exact ⟨hexit, hcalled.1, hdeployed, hreleased⟩

/-- Whatever fails, the test of omnipaxos runs its generator only against machines to which the
binaries, the same `cluster.toml` and their own two files were uploaded, and whose shim has
answered since the daemons were started. A name without an id keeps it from any verdict. -/
theorem omnipaxos_run_deployed (localServerBin localShimBin : String) (test : Test Host)
    (history : List (Operation Payload)) (fates : ℕ → Fate) (turns : ℕ → ℕ)
    (remote : Node → Host) :
    let result := (run { test with db := omnipaxosDb localServerBin localShimBin test.nodes }
      history).eval { fates := fates, turns := turns, remote := remote }
    (∀ a ∈ result.2.calls, a.call = .interpret → ∀ n ∈ test.nodes,
        Deployed localServerBin localShimBin test.nodes n (a.remote n)) ∧
      (exitCode result.1 ≠ 255 → (∀ n ∈ test.nodes, ∃ id, nodeId n = .ok id) ∧
        result.1 = results (analyze test.analysis test.spit history)) := by
  intro result
  rcases Contract.run_holds (K := ⟨{ test with
      db := omnipaxosDb localServerBin localShimBin test.nodes }, _, _, omnipaxosDb_meets⟩)
    history fates turns remote with ⟨hholds, _⟩
  have hdeployed : ∀ a ∈ result.2.calls, a.call = .interpret → ∀ n ∈ test.nodes,
      Deployed localServerBin localShimBin test.nodes n (a.remote n) := by
    intro a ha
    exact (hholds.calls.inTurn a ha).2
  refine ⟨hdeployed, fun hexit => ?_⟩
  rcases Contract.run_passed hholds hexit with ⟨⟨a, ha, hcall⟩, _, hresult⟩
  refine ⟨fun n hn => ?_, hresult⟩
  rcases (hdeployed a ha hcall n hn).files with ⟨_, server, _, _, hserver, _⟩
  exact nodeId_of_serverToml hserver

end Lifecycle

end Jepsen

end OmnipaxosKv
