import Mathlib.Logic.Relation
import Mathlib.Data.List.Basic

/-! # Guarded machines

A transition system in guarded-update form: every label has a guard, which says
in which states the label may fire, and an update, which computes the next
state. Whatever is nondeterministic (scheduling, results of calls that are not
modelled) is carried by the label, so a run is a list of labels.

The rules below are the ones the models build on: inductive invariance, runs
whose steps all meet a condition (`restrict`), stuttering refinement maps, and
the argument that turns an acyclic waits-for order into progress.
-/

universe u v w

/-- A transition system in guarded-update form. -/
structure Machine (σ : Type u) (ι : Type v) where
  init : σ → Prop
  guard : ι → σ → Prop
  update : ι → σ → σ

namespace Machine

variable {σ : Type u} {ι : Type v} {τ : Type w}

/-- The states that some run passes through. -/
inductive Reachable (M : Machine σ ι) : σ → Prop
  | start {s : σ} : M.init s → Reachable M s
  | step {s : σ} (l : ι) : Reachable M s → M.guard l s → Reachable M (M.update l s)

/-- Inductive invariance. The step premise may use that the state is reachable,
so an invariant proved earlier strengthens the induction for free. -/
theorem invariant (M : Machine σ ι) (inv : σ → Prop)
    (hinit : ∀ s, M.init s → inv s)
    (hstep : ∀ l s, M.Reachable s → M.guard l s → inv s → inv (M.update l s)) :
    ∀ s, M.Reachable s → inv s := by
  intro s hs
  induction hs with
  | start h => exact hinit _ h
  | step l hr hg ih => exact hstep l _ hr hg ih

/-! ## Runs whose steps all meet a condition -/

/-- The machine whose steps are the steps of `M` that meet `P`. Its runs are the
runs of `M` all of whose steps meet `P`. -/
def restrict (M : Machine σ ι) (P : ι → σ → Prop) : Machine σ ι where
  init := M.init
  guard := fun l s => M.guard l s ∧ P l s
  update := M.update

instance decidableRestrict (M : Machine σ ι) (P : ι → σ → Prop) (l : ι) (s : σ)
    [Decidable (M.guard l s)] [Decidable (P l s)] : Decidable ((M.restrict P).guard l s) :=
  inferInstanceAs (Decidable (_ ∧ _))

/-- A restricted run is a run. -/
theorem reachable_of_restrict {M : Machine σ ι} {P : ι → σ → Prop} {s : σ}
    (h : (M.restrict P).Reachable s) : M.Reachable s := by
  induction h with
  | start h => exact .start h
  | step l _ hg ih => exact .step l ih hg.1

/-! ## Refinement maps -/

/-- A refinement map with stuttering: every step of `M` is, seen through `f`, a
run of at most one step of `N`. An invariant of `M` may be used at each step. -/
theorem reachable_map {κ : Type*} {M : Machine σ ι} {N : Machine τ κ} (f : σ → τ)
    (inv : σ → Prop) (hinv : ∀ s, M.Reachable s → inv s)
    (hinit : ∀ s, M.init s → N.init (f s))
    (hstep : ∀ l s, M.guard l s → inv s →
      f (M.update l s) = f s ∨ ∃ k, N.guard k (f s) ∧ f (M.update l s) = N.update k (f s)) :
    ∀ s, M.Reachable s → N.Reachable (f s) := by
  intro s hs
  induction hs with
  | start h => exact .start (hinit _ h)
  | step l hr hg ih =>
      rcases hstep l _ hg (hinv _ hr) with hstut | ⟨k, hk, hup⟩
      · rw [hstut]
        exact ih
      · rw [hup]
        exact .step k ih hk

/-! ## Runs as lists of labels -/

/-- The state after the updates of a list of labels. -/
def after (M : Machine σ ι) (s : σ) (ls : List ι) : σ :=
  ls.foldl (fun s l => M.update l s) s

/-- Every label of the list is enabled when its turn comes. -/
def Valid (M : Machine σ ι) : σ → List ι → Prop
  | _, [] => True
  | s, l :: ls => M.guard l s ∧ Valid M (M.update l s) ls

instance decidableValid (M : Machine σ ι) [∀ l s, Decidable (M.guard l s)] :
    ∀ (s : σ) (ls : List ι), Decidable (M.Valid s ls)
  | _, [] => inferInstanceAs (Decidable True)
  | s, l :: ls =>
      have := decidableValid M (M.update l s) ls
      inferInstanceAs (Decidable (_ ∧ _))

@[simp] theorem after_nil (M : Machine σ ι) (s : σ) : M.after s [] = s := rfl

@[simp] theorem after_cons (M : Machine σ ι) (s : σ) (l : ι) (ls : List ι) :
    M.after s (l :: ls) = M.after (M.update l s) ls := rfl

/-- A run goes on from where it got to. -/
theorem after_append (M : Machine σ ι) (s : σ) (ls ls' : List ι) :
    M.after s (ls ++ ls') = M.after (M.after s ls) ls' := by
  simp [after]

/-- A run is valid just if both its parts are. -/
theorem valid_append (M : Machine σ ι) (s : σ) (ls ls' : List ι) :
    M.Valid s (ls ++ ls') ↔ M.Valid s ls ∧ M.Valid (M.after s ls) ls' := by
  induction ls generalizing s with
  | nil => simp [Valid]
  | cons l ls ih => simp [Valid, ih, and_assoc]

/-- A valid run ends in a reachable state. -/
theorem reachable_after (M : Machine σ ι) {s : σ} (ls : List ι) (hs : M.Reachable s)
    (h : M.Valid s ls) : M.Reachable (M.after s ls) := by
  induction ls generalizing s with
  | nil => exact hs
  | cons l ls ih => exact ih (.step l hs h.1) h.2

/-- Invariance along a run: what every step of the run preserves holds after it. -/
theorem after_invariant (M : Machine σ ι) (inv : σ → Prop) {s : σ} {ls : List ι}
    (hs : inv s) (h : M.Valid s ls)
    (hstep : ∀ l ∈ ls, ∀ s, M.guard l s → inv s → inv (M.update l s)) :
    inv (M.after s ls) := by
  induction ls generalizing s with
  | nil => exact hs
  | cons l ls ih =>
      exact ih (hstep l (by simp) s h.1 hs) h.2 (fun l' hl' => hstep l' (by simp [hl']))

/-- The runs of the restricted machine are the runs whose steps all meet the condition. -/
theorem valid_restrict_iff (M : Machine σ ι) (P : ι → σ → Prop) (s : σ) (ls : List ι) :
    (M.restrict P).Valid s ls ↔
      M.Valid s ls ∧ ∀ done l rest, ls = done ++ l :: rest → P l (M.after s done) := by
  induction ls generalizing s with
  | nil => simp [Valid]
  | cons l ls ih =>
      constructor
      · intro h
        rcases h with ⟨⟨hguard, hmeets⟩, hrest⟩
        rcases (ih (M.update l s)).mp hrest with ⟨hvalid, hall⟩
        refine ⟨⟨hguard, hvalid⟩, ?_⟩
        intro done l' rest heq
        cases done with
        | nil =>
            rw [← (List.cons.inj heq).1]
            exact hmeets
        | cons l₀ done =>
            rw [← (List.cons.inj heq).1]
            exact hall done l' rest (List.cons.inj heq).2
      · intro h
        rcases h with ⟨⟨hguard, hvalid⟩, hall⟩
        refine ⟨⟨hguard, hall [] l ls rfl⟩, (ih (M.update l s)).mpr ⟨hvalid, ?_⟩⟩
        intro done l' rest heq
        exact hall (l :: done) l' rest (congrArg (List.cons l) heq)

/-- Where a step keeps the states good just if it meets a condition, a whole run stays good
just if all its steps meet the condition. Only the steps that meet it need keep the
invariant. -/
theorem good_along_iff (M : Machine σ ι) (inv good : σ → Prop) {P : ι → σ → Prop}
    (hinv : ∀ l s, M.guard l s → P l s → inv s → inv (M.update l s))
    (hstep : ∀ l s, M.guard l s → inv s → good s → (good (M.update l s) ↔ P l s))
    {s : σ} {ls : List ι} (h : M.Valid s ls) (hs : inv s) (hgood : good s) :
    (∀ done rest, ls = done ++ rest → good (M.after s done)) ↔ (M.restrict P).Valid s ls := by
  induction ls generalizing s with
  | nil =>
      refine ⟨fun _ => trivial, ?_⟩
      intro _ done rest heq
      rw [(List.append_eq_nil_iff.mp heq.symm).1]
      exact hgood
  | cons l ls ih =>
      have hfirst := hstep l s h.1 hs hgood
      constructor
      · intro hall
        have hnext : good (M.update l s) := hall [l] ls rfl
        have hmeets := hfirst.mp hnext
        refine ⟨⟨h.1, hmeets⟩, (ih h.2 (hinv l s h.1 hmeets hs) hnext).mp ?_⟩
        intro done rest heq
        exact hall (l :: done) rest (congrArg (List.cons l) heq)
      · intro hrun
        rcases hrun with ⟨⟨_, hmeets⟩, hrest⟩
        have hall := (ih h.2 (hinv l s h.1 hmeets hs) (hfirst.mpr hmeets)).mpr hrest
        intro done rest heq
        cases done with
        | nil => exact hgood
        | cons l₀ done =>
            rw [← (List.cons.inj heq).1]
            exact hall done rest (List.cons.inj heq).2

end Machine

/-! ## Progress from an acyclic waits-for order -/

/-- If every busy place can move or waits for a busy place of lower rank, then as
soon as one place is busy, some place can move. -/
theorem exists_movable_of_rank {α : Type u} (busy movable : α → Prop) (rank : α → ℕ)
    (hwait : ∀ x, busy x → movable x ∨ ∃ y, busy y ∧ rank y < rank x) :
    ∀ x, busy x → ∃ y, movable y := by
  intro x
  induction hn : rank x using Nat.strongRecOn generalizing x with
  | ind n ih =>
      intro hx
      rcases hwait x hx with hmove | ⟨y, hy, hlt⟩
      · exact ⟨x, hmove⟩
      · exact ih (rank y) (hn ▸ hlt) y rfl hy
