import OmnipaxosKv.Jepsen.Checked
import OmnipaxosKv.Jepsen.Timeline

/-! # The verdict (`jepsen/checker.clj`)

The history of a test is checked for linearizability and drawn as a timeline. Exceptions of a
checker are caught, errors are not; the results are merged into one, and that decides how the
command of the test exits. Knossos, which looks for the order of the operations, is a parameter.
-/

namespace OmnipaxosKv

namespace Jepsen

/-! ## Results -/

/-- `true`, `:unknown` and `false`. -/
inductive Validity where
  | valid
  | unknown
  | invalid
deriving DecidableEq, Repr

/-- `valid-priorities` -/
def Validity.priority : Validity → ℚ
  | .valid => 0
  | .unknown => 1 / 2
  | .invalid => 1

/-- The one with the higher priority. -/
def Validity.merge (v₁ v₂ : Validity) : Validity :=
  if v₁.priority < v₂.priority then v₂ else v₁

/-- What comes of a check: the `:valid?` of its result, where `none` is none of the three; or an
exception; or an error. -/
inductive Outcome where
  | result (valid : Option Validity)
  | exception
  | error
deriving DecidableEq, Repr

/-- `none` is an exception. -/
def mergeValid (valids : List (Option Validity)) : Option Validity :=
  valids.foldlM (fun v valid => valid.map v.merge) .valid

abbrev Checker := List (Operation Payload) → Outcome

/-! ## Checkers -/

def checkSafe (checker : Checker) : Checker := fun history =>
  match checker history with
  | .exception => .result (some .unknown)
  | outcome => outcome

def Outcome.validity : Outcome → Option Validity
  | .result valid => valid
  | _ => none

/-- An error of one of the checkers is an exception of the future that ran it. -/
def compose (checkers : List (String × Checker)) : Checker := fun history =>
  let results := checkers.map fun c => checkSafe c.2 history
  if .error ∈ results then .exception
  else match mergeValid (results.map Outcome.validity) with
    | some v => .result (some v)
    | none => .exception

/-- What Knossos finds; that the drawing of a counterexample fails is of no consequence. -/
def linearizable (analysis : Checker) : Checker := analysis

/-- The file is written, or it is not. -/
def html (spit : List Box → Bool) : Checker := fun history =>
  match boxes history with
  | none => .error
  | some bs => if spit bs then .result (some .valid) else .exception

/-- `:checker` of the test. -/
def omnipaxosChecker (analysis : Checker) (spit : List Box → Bool) : Checker :=
  compose [("linearizable", linearizable analysis), ("timeline", html spit)]

/-- The results of `analyze!`. -/
def analyze (analysis : Checker) (spit : List Box → Bool) : Checker :=
  checkSafe (omnipaxosChecker analysis spit)

/-- How the command of one test exits; an error ends it. -/
def exitStatus : Outcome → Option ℕ
  | .result (some .invalid) => some 1
  | .result (some .unknown) => some 2
  | .result _ => some 0
  | _ => none

/-! ## Merged results -/

theorem merge_priority (v w : Validity) : (v.merge w = v ∨ v.merge w = w) ∧
    v.priority ≤ (v.merge w).priority ∧ w.priority ≤ (v.merge w).priority := by
  rw [Validity.merge]
  split
  · next hlt => exact ⟨.inr rfl, le_of_lt hlt, le_refl _⟩
  · next hge => exact ⟨.inl rfl, le_refl _, not_lt.mp hge⟩

/-- The result is one of those that are merged, and none of them is above it. -/
theorem mergeValid_foldlM {valids : List (Option Validity)} {v₀ v : Validity}
    (h : valids.foldlM (fun v valid => valid.map v.merge) v₀ = some v) :
    (v = v₀ ∨ some v ∈ valids) ∧ v₀.priority ≤ v.priority ∧
      ∀ valid ∈ valids, ∃ w, valid = some w ∧ w.priority ≤ v.priority := by
  induction valids generalizing v₀ with
  | nil =>
      rw [← Option.some.inj h]
      refine ⟨.inl rfl, le_refl _, ?_⟩
      intro valid hvalid
      cases hvalid
  | cons valid valids ih =>
      cases valid with
      | none => cases h
      | some w =>
          rcases merge_priority v₀ w with ⟨hone, hle₀, hlew⟩
          rcases ih h with ⟨hmem, hle, hall⟩
          refine ⟨?_, le_trans hle₀ hle, ?_⟩
          · rcases hmem with heq | hmem
            · rcases hone with hv₀ | hw
              · exact .inl (heq.trans hv₀)
              · right
                rw [heq, hw]
                exact List.mem_cons_self
            · exact .inr (List.mem_cons_of_mem _ hmem)
          · intro valid hvalid
            rcases List.mem_cons.mp hvalid with heq | hvalid
            · exact ⟨w, heq, le_trans hlew hle⟩
            · exact hall valid hvalid

/-- Valid results are merged into a valid one. -/
theorem mergeValid_valid {valids : List (Option Validity)}
    (h : ∀ valid ∈ valids, valid = some .valid) : mergeValid valids = some .valid := by
  rw [mergeValid]
  induction valids with
  | nil => rfl
  | cons valid valids ih =>
      rw [h valid List.mem_cons_self]
      exact ih fun valid hvalid => h valid (List.mem_cons_of_mem _ hvalid)

theorem checkSafe_ne_exception (checker : Checker) (history : List (Operation Payload)) :
    checkSafe checker history ≠ .exception := by
  rw [checkSafe]
  split
  · exact fun h => by cases h
  · next h => exact h

/-- Composed checkers find a history valid just if every one of them does. -/
theorem compose_valid_iff (checkers : List (String × Checker))
    (history : List (Operation Payload)) :
    compose checkers history = .result (some .valid) ↔
      ∀ c ∈ checkers, checkSafe c.2 history = .result (some .valid) := by
  rw [compose]
  constructor
  · intro h c hc
    split at h
    · cases h
    · next hnone =>
        split at h
        · next v hmerge =>
            have hmem : checkSafe c.2 history ∈ checkers.map fun c => checkSafe c.2 history :=
              List.mem_map_of_mem hc
            -- nothing that is merged is above the result, and nothing but `true` is below `true`
            rcases (mergeValid_foldlM hmerge).2.2 _ (List.mem_map_of_mem hmem) with ⟨w, hw, hle⟩
            rw [Option.some.inj (Outcome.result.inj h)] at hle
            have hvalid : w = .valid := by
              cases w with
              | valid => rfl
              | unknown => exact absurd hle (by decide +kernel)
              | invalid => exact absurd hle (by decide +kernel)
            rw [hvalid] at hw
            cases hout : checkSafe c.2 history with
            | result valid =>
                rw [hout] at hw
                exact congrArg Outcome.result hw
            | exception => exact absurd hout (checkSafe_ne_exception c.2 history)
            | error =>
                rw [hout] at hmem
                exact absurd hmem hnone
        · cases h
  · intro h
    -- all outcomes are valid, so none is an error and the merged result is valid
    have hall : ∀ outcome ∈ checkers.map (fun c => checkSafe c.2 history),
        outcome = .result (some .valid) := by
      intro outcome houtcome
      rcases List.mem_map.mp houtcome with ⟨c, hc, heq⟩
      rw [← heq]
      exact h c hc
    have hnone : Outcome.error ∉ checkers.map fun c => checkSafe c.2 history := by
      intro hmem
      cases hall _ hmem
    have hmerge : mergeValid ((checkers.map fun c => checkSafe c.2 history).map
        Outcome.validity) = some .valid := by
      refine mergeValid_valid fun valid hvalid => ?_
      rcases List.mem_map.mp hvalid with ⟨outcome, houtcome, heq⟩
      rw [← heq, hall outcome houtcome]
      rfl
    rw [if_neg hnone, hmerge]

/-- Composed checkers find a history invalid only if one of them does. -/
theorem exists_invalid_of_compose {checkers : List (String × Checker)}
    {history : List (Operation Payload)}
    (h : compose checkers history = .result (some .invalid)) :
    ∃ c ∈ checkers, c.2 history = .result (some .invalid) := by
  rw [compose] at h
  split at h
  · cases h
  · split at h
    · next v hmerge =>
        rw [Option.some.inj (Outcome.result.inj h)] at hmerge
        rcases (mergeValid_foldlM hmerge).1 with habsurd | hmem
        · cases habsurd
        · rcases List.mem_map.mp hmem with ⟨outcome, houtcome, hvalidity⟩
          rcases List.mem_map.mp houtcome with ⟨c, hc, hchecked⟩
          refine ⟨c, hc, ?_⟩
          rw [checkSafe] at hchecked
          cases hout : c.2 history with
          | result valid =>
              rw [hout] at hchecked
              rw [← hchecked] at hvalidity
              exact congrArg Outcome.result hvalidity
          | exception =>
              rw [hout] at hchecked
              rw [← hchecked] at hvalidity
              cases hvalidity
          | error =>
              rw [hout] at hchecked
              rw [← hchecked] at hvalidity
              cases hvalidity
    · cases h

/-! ## The verdict of a test -/

open Server Client Linearizability
open Cluster (EndpointId twoNodes)

section

variable {analysis : Checker} {spit : List Box → Bool} {history : List (Operation Payload)}

theorem html_of_boxes {bs : List Box} (h : boxes history = some bs) :
    html spit history = if spit bs then .result (some .valid) else .exception := by
  rw [html, h]

/-- The analysis of a test ends with one of the three results. It is `false` only if Knossos
says so, and `true` if it says so and the timeline is written. -/
theorem analyze_cases (analysis : Checker) (spit : List Box → Bool)
    (hboxes : ∃ bs, boxes history = some bs) :
    (∃ v, analyze analysis spit history = .result (some v)) ∧
    (analyze analysis spit history = .result (some .invalid) →
      analysis history = .result (some .invalid)) ∧
    (analysis history = .result (some .valid) →
      (∀ bs, boxes history = some bs → spit bs = true) →
      analyze analysis spit history = .result (some .valid)) := by
  rcases hboxes with ⟨bs, hbs⟩
  refine ⟨?_, ?_, ?_⟩
  -- `check-safe` leaves no exception, and no checker of the two is an error
  · rw [analyze, checkSafe]
    split
    · exact ⟨.unknown, rfl⟩
    · next outcome hnot =>
        rw [omnipaxosChecker, compose] at hnot ⊢
        split at hnot
        · exact absurd rfl hnot
        · next hnone =>
            rw [if_neg hnone]
            split at hnot
            · next v _ => exact ⟨v, rfl⟩
            · exact absurd rfl hnot
  · intro h
    rw [analyze, checkSafe] at h
    split at h
    · cases h
    -- one of the two checkers found it invalid
    · rcases exists_invalid_of_compose h with ⟨c, hc, hinvalid⟩
      rcases List.mem_cons.mp hc with heq | hc
      · rw [heq] at hinvalid
        exact hinvalid
      · -- the timeline is never invalid
        rw [List.mem_singleton.mp hc] at hinvalid
        change html spit history = _ at hinvalid
        rw [html_of_boxes hbs] at hinvalid
        split at hinvalid
        · cases hinvalid
        · cases hinvalid
  · intro hvalid hspit
    -- both are valid
    have hcompose : omnipaxosChecker analysis spit history = .result (some .valid) := by
      refine (compose_valid_iff _ history).mpr fun c hc => ?_
      rcases List.mem_cons.mp hc with heq | hc
      · rw [heq]
        show checkSafe analysis history = _
        rw [checkSafe, hvalid]
      · rw [List.mem_singleton.mp hc]
        show checkSafe (html spit) history = _
        rw [checkSafe, html_of_boxes hbs, if_pos (hspit bs hbs)]
    rw [analyze, checkSafe, hcompose]

end

section

variable {Ω M : Type}

/-- A test of the cluster never exits as invalid, and exits as valid when Knossos finds the
order and the timeline can be written: if all that is asked of Knossos is that it finds no
fault with a history that has an order. -/
theorem verdict_never_invalid (lib : OmniPaxos Ω M) (decided : Ω → List Command)
    (hlib : lib.Lawful decided) (cfg : Cluster.Config) (t : Transport)
    (hshims : ∀ e, cfg.kind e = .shim) (nodes : List EndpointId) (n : ℕ) (timeLimit : ℚ)
    (hpos : 0 < timeLimit) (i : ℕ) (analysis : Checker)
    (hknossos : ∀ history, WellFormed (events history) →
      (∃ order, Linearization register (fun _ => False) IsWrite (events history) order) →
      analysis history ≠ .result (some .invalid)) (spit : List Box → Bool) :
    ∀ s, (harness lib decided cfg t nodes n (omnipaxosTest timeLimit i)).Reachable s →
      (exitStatus (analyze analysis spit s.run.history) = some 0 ∨
        exitStatus (analyze analysis spit s.run.history) = some 2) ∧
      (analysis s.run.history = .result (some .valid) →
        (∀ bs, boxes s.run.history = some bs → spit bs = true) →
        exitStatus (analyze analysis spit s.run.history) = some 0) := by
  intro s hr
  have hfacts := facts_reachable hlib hshims hpos hr
  rcases hfacts.exists_readsAt with ⟨readAt, hreads⟩
  have hsound := hknossos s.run.history hfacts.linked.wellFormed ⟨_, hfacts.linearization hreads⟩
  have hboxes : ∃ bs, boxes s.run.history = some bs := by
    rcases Interpreter.turns_reachable hpos (run_reachable hr) with ⟨hphase, hopened, hint⟩
    rcases pairwise_apart hphase hopened hint with ⟨bs, hbs, _⟩
    exact ⟨bs, hbs⟩
  rcases analyze_cases analysis spit hboxes with ⟨⟨v, hv⟩, hinvalid, hvalid⟩
  refine ⟨?_, ?_⟩
  · rw [hv]
    cases v with
    | valid => exact .inl rfl
    | unknown => exact .inr rfl
    | invalid => exact absurd (hinvalid hv) hsound
  · intro hanalysis hspit
    rw [hvalid hanalysis hspit]
    rfl

/-- Knossos finds the order of the write and the read. -/
theorem verdict_never_invalid_write_read :
    let s := twoNodesHarness.after harnessStart harnessRun
    exitStatus (analyze (fun _ => .result (some .valid)) (fun _ => true) s.run.history) =
      some 0 := by
  have hstart : twoNodesHarness.init harnessStart :=
    ⟨rfl, ⟨⟨fun n => ⟨n, [], []⟩, fun _ => rfl, rfl⟩, rfl⟩, rfl⟩
  have hr := twoNodesHarness.reachable_after harnessRun (.start hstart) harnessRun_valid
  have hknossos : ∀ history : List (Operation Payload), WellFormed (events history) →
      (∃ order, Linearization register (fun _ => False) IsWrite (events history) order) →
      Outcome.result (some .valid) ≠ .result (some .invalid) := fun _ _ _ h => by cases h
  exact (verdict_never_invalid relayLibrary Relay.log relayLibrary_lawful twoNodes smallTransport
    (fun _ => rfl) [0] 1 60 (by decide) 1 (fun _ => .result (some .valid)) hknossos
    (fun _ => true) _ hr).2 rfl fun _ _ => rfl

end

end Jepsen

end OmnipaxosKv
