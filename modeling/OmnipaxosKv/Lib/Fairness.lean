import OmnipaxosKv.Lib.Machine

/-! # Fair runs

An infinite run of a machine, in which nothing need happen at a time, and what it is for such a
run to be fair to a class of labels: again and again one of them is taken, or none is enabled.

The rule is the one of ranks and helpful classes. Outside of the goal some class helps: one of
its labels is enabled, and every step reaches the goal, lowers the rank, or leaves the rank as it
is and the class helpful. A run that is fair to the classes that help then reaches the goal.
-/

universe u v

namespace Machine

variable {σ : Type u} {ι κ : Type v}

/-- An infinite run; `none` where nothing happens. -/
structure Run (M : Machine σ ι) where
  state : ℕ → σ
  label : ℕ → Option ι
  start : M.init (state 0)
  idle : ∀ j, label j = none → state (j + 1) = state j
  move : ∀ j l, label j = some l → M.guard l (state j) ∧ state (j + 1) = M.update l (state j)

namespace Run

variable {M : Machine σ ι}

/-- All states of a run are reachable. -/
theorem reachable (r : M.Run) (j : ℕ) : M.Reachable (r.state j) := by
  induction j with
  | zero => exact .start r.start
  | succ j ih =>
      cases hlabel : r.label j with
      | none =>
          rw [r.idle j hlabel]
          exact ih
      | some l =>
          rcases r.move j l hlabel with ⟨hg, hnext⟩
          rw [hnext]
          exact ih.step l hg

/-- Weak fairness. -/
def Fair (r : M.Run) (A : ι → Prop) : Prop :=
  ∀ j, ∃ k, j ≤ k ∧ ((∃ l, A l ∧ r.label k = some l) ∨ ∀ l, A l → ¬ M.guard l (r.state k))

/-! ## Ranks -/

/-- What brings the machine nearer to `goal`, while `inv` holds and the labels are allowed. -/
structure Descent (M : Machine σ ι) (inv goal : σ → Prop) (allowed : ι → Prop)
    (helps : κ → σ → Prop) (cls : κ → ι → Prop) (rank : σ → ℕ) : Prop where
  helpful : ∀ s, inv s → ¬ goal s → ∃ k, helps k s
  enabled : ∀ s k, inv s → ¬ goal s → helps k s → ∃ l, cls k l ∧ M.guard l s
  step : ∀ s k l, inv s → ¬ goal s → helps k s → allowed l → M.guard l s →
    goal (M.update l s) ∨ rank (M.update l s) < rank s ∨
      (rank (M.update l s) = rank s ∧ helps k (M.update l s) ∧ ¬ cls k l)

variable {inv goal : σ → Prop} {allowed : ι → Prop} {helps : κ → σ → Prop} {cls : κ → ι → Prop}
  {rank : σ → ℕ}

/-- Until the goal is reached or the rank is lower, the class stays helpful. -/
theorem Descent.wait (h : Descent M inv goal allowed helps cls rank) (r : M.Run) {m : ℕ}
    (hinv : ∀ j, m ≤ j → inv (r.state j))
    (hallowed : ∀ j l, m ≤ j → r.label j = some l → allowed l) {k : κ} (hk : helps k (r.state m))
    (d : ℕ) :
    (∃ j, m ≤ j ∧ (goal (r.state j) ∨ rank (r.state j) < rank (r.state m))) ∨
      (rank (r.state (m + d)) = rank (r.state m) ∧ helps k (r.state (m + d)) ∧
        ∀ j l, m ≤ j → j < m + d → r.label j = some l → ¬ cls k l) := by
  induction d with
  | zero =>
      right
      refine ⟨rfl, hk, ?_⟩
      intro j l hmj hjm
      omega
  | succ d ih =>
      rcases ih with hdone | ⟨hrank, hhelps, hnone⟩
      · exact .inl hdone
      · by_cases hgoal : goal (r.state (m + d))
        · exact .inl ⟨m + d, Nat.le_add_right m d, .inl hgoal⟩
        · have hsplit : ∀ j, j < m + (d + 1) → j < m + d ∨ j = m + d := by
            intro j hj
            omega
          cases hlabel : r.label (m + d) with
          -- nothing happens at this position
          | none =>
              right
              rw [← Nat.add_assoc, r.idle (m + d) hlabel]
              refine ⟨hrank, hhelps, ?_⟩
              intro j l hmj hj hl
              rcases hsplit j hj with hlt | heq
              · exact hnone j l hmj hlt hl
              · rw [heq, hlabel] at hl
                cases hl
          | some l =>
              rcases r.move (m + d) l hlabel with ⟨hg, hnext⟩
              have hstep := h.step _ k l (hinv _ (Nat.le_add_right m d)) hgoal hhelps
                (hallowed _ l (Nat.le_add_right m d) hlabel) hg
              rw [← hnext] at hstep
              -- a step that does not lower the rank is no step of what helps
              rcases hstep with hreached | hlower | ⟨hsame, hstill, hother⟩
              · exact .inl ⟨m + d + 1, by omega, .inl hreached⟩
              · exact .inl ⟨m + d + 1, by omega, .inr (hrank ▸ hlower)⟩
              · right
                refine ⟨hsame.trans hrank, hstill, ?_⟩
                intro j l' hmj hj hl'
                rcases hsplit j hj with hlt | heq
                · exact hnone j l' hmj hlt hl'
                · rw [heq, hlabel] at hl'
                  rw [← Option.some.inj hl']
                  exact hother

/-- A run that is fair to the classes that help reaches the goal. -/
theorem Descent.eventually (h : Descent M inv goal allowed helps cls rank) (r : M.Run)
    (hfair : ∀ k s, helps k s → r.Fair (cls k)) (m : ℕ) (hinv : ∀ j, m ≤ j → inv (r.state j))
    (hallowed : ∀ j l, m ≤ j → r.label j = some l → allowed l) :
    ∃ j, m ≤ j ∧ goal (r.state j) := by
  induction hn : rank (r.state m) using Nat.strongRecOn generalizing m with
  | ind n ih =>
      by_cases hgoal : goal (r.state m)
      · exact ⟨m, Nat.le_refl m, hgoal⟩
      · rcases h.helpful _ (hinv m (Nat.le_refl m)) hgoal with ⟨k, hk⟩
        rcases hfair k _ hk m with ⟨j, hmj, htaken⟩
        have hreached : ∃ j, m ≤ j ∧ (goal (r.state j) ∨ rank (r.state j) < rank (r.state m)) := by
          -- one step beyond the time that fairness gives
          rcases h.wait r hinv hallowed hk (j + 1 - m) with hdone | ⟨_, _, hnone⟩
          · exact hdone
          · rcases htaken with ⟨l, hl, hlabel⟩ | hdisabled
            · exact absurd hl (hnone j l hmj (by omega) hlabel)
            · rcases h.wait r hinv hallowed hk (j - m) with hdone | ⟨_, hhelps, _⟩
              · exact hdone
              · rw [Nat.add_sub_cancel' hmj] at hhelps
                by_cases hgoal' : goal (r.state j)
                · exact ⟨j, hmj, .inl hgoal'⟩
                · rcases h.enabled _ k (hinv j hmj) hgoal' hhelps with ⟨l, hl, hg⟩
                  exact absurd hg (hdisabled l hl)
        rcases hreached with ⟨j, hmj, hgoal' | hlower⟩
        · exact ⟨j, hmj, hgoal'⟩
        · rcases ih _ (hn ▸ hlower) j (fun i hi => hinv i (Nat.le_trans hmj hi))
            (fun i l hi => hallowed i l (Nat.le_trans hmj hi)) rfl with ⟨i, hji, hgoal'⟩
          exact ⟨i, Nat.le_trans hmj hji, hgoal'⟩

/-! ## Runs that stop -/

/-- A valid run may be cut short. -/
theorem valid_take {s : σ} {ls : List ι} (h : M.Valid s ls) (j : ℕ) : M.Valid s (ls.take j) := by
  rw [← List.take_append_drop j ls, M.valid_append] at h
  exact h.1

/-- The run of a list of labels, after which nothing happens. -/
def ofList (M : Machine σ ι) {s : σ} (hs : M.init s) (ls : List ι) (h : M.Valid s ls) :
    M.Run where
  state := fun j => M.after s (ls.take j)
  label := fun j => ls[j]?
  start := hs
  idle := by
    intro j hnone
    have hlast := List.getElem?_eq_none_iff.mp hnone
    rw [List.take_of_length_le hlast, List.take_of_length_le (Nat.le_succ_of_le hlast)]
  move := by
    intro j l hl
    rcases List.getElem?_eq_some_iff.mp hl with ⟨hlt, hget⟩
    have htake : ls.take (j + 1) = ls.take j ++ [l] := by
      rw [List.take_succ_eq_append_getElem hlt, hget]
    have hvalid := valid_take h (j + 1)
    rw [htake, M.valid_append] at hvalid
    refine ⟨hvalid.2.1, ?_⟩
    rw [htake, M.after_append]
    rfl

/-- A run that stops after a list of steps is fair to what is not enabled in the end. -/
theorem fair_ofList {s : σ} (hs : M.init s) {ls : List ι} (h : M.Valid s ls) {A : ι → Prop}
    (hend : ∀ l, A l → ¬ M.guard l (M.after s ls)) : (ofList M hs ls h).Fair A := by
  intro j
  refine ⟨j + ls.length, Nat.le_add_right j _, .inr ?_⟩
  intro l hl
  show ¬ M.guard l (M.after s (ls.take (j + ls.length)))
  rw [List.take_of_length_le (Nat.le_add_left _ j)]
  exact hend l hl

end Run

end Machine
