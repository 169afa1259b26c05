import Mathlib.Logic.Basic

/-! # Sequences of checks

A check either passes or raises. The rules say when a sequence of checks and computations,
a loop of them and a guarded raise return, so that a validator is read as the conjunction
of what it tests. A value that was checked when it was made keeps the proof of it.
-/

universe u v w

namespace Checks

variable {ε : Type u} {α β : Type v}

/-- Raise `error` if the condition holds. -/
def raiseIf (cond : Prop) [Decidable cond] (error : ε) : Except ε Unit :=
  if cond then .error error else .ok ()

/-- A check passes just if its condition is false. -/
@[simp] theorem raiseIf_ok_iff {cond : Prop} [Decidable cond] {error : ε} :
    raiseIf cond error = .ok () ↔ ¬ cond := by
  unfold raiseIf
  split
  · next h => simp [h]
  · next h => simp [h]

/-- The value that is there, or raise `error`. -/
def orRaise {γ : Type w} (value : Option γ) (error : ε) : Except ε γ :=
  match value with
  | none => .error error
  | some a => .ok a

/-- A value is there, or it raises. -/
@[simp] theorem orRaise_ok_iff {γ : Type w} {value : Option γ} {error : ε} {a : γ} :
    orRaise value error = .ok a ↔ value = some a := by
  cases value with
  | none => simp [orRaise]
  | some b => simp [orRaise]

/-- A return is what it returns. -/
theorem pure_ok_iff {a b : α} : (pure a : Except ε α) = .ok b ↔ a = b :=
  ⟨Except.ok.inj, congrArg Except.ok⟩

/-- What a computation that returned has computed on the way. -/
theorem bind_ok_iff {x : Except ε α} {f : α → Except ε β} {b : β} :
    x >>= f = .ok b ↔ ∃ a, x = .ok a ∧ f a = .ok b := by
  cases x with
  | error e =>
      constructor
      · intro h
        cases h
      · intro h
        rcases h with ⟨a, ha, _⟩
        cases ha
  | ok a =>
      constructor
      · intro h
        exact ⟨a, rfl, h⟩
      · intro h
        rcases h with ⟨a', ha, hb⟩
        rw [Except.ok.inj ha]
        exact hb

/-- The computation returns a value that passes the test. -/
def returns (x : Except ε α) (p : α → Bool) : Bool :=
  match x with
  | .ok a => p a
  | .error _ => false

/-- If a test of the result passes, there is a result, and the test holds of it. -/
theorem exists_ok_of_returns {x : Except ε α} {p : α → Bool} (h : returns x p = true) :
    ∃ a, x = .ok a ∧ p a = true := by
  cases x with
  | error e => cases h
  | ok a => exact ⟨a, rfl, h⟩

/-- A check and what follows it both return. -/
theorem seq_ok_iff {δ : Type} {x : Except ε Unit} {y : Except ε δ} {d : δ} :
    (do x; y) = .ok d ↔ x = .ok () ∧ y = .ok d := by
  cases x with
  | error e =>
      constructor
      · intro h
        cases h
      · intro h
        cases h.1
  | ok u =>
      constructor
      · intro h
        exact ⟨rfl, h⟩
      · exact fun h => h.2

/-- A loop of checks passes iff each of them does. -/
theorem forM_ok_iff {γ : Type w} {l : List γ} {f : γ → Except ε Unit} :
    l.forM f = .ok () ↔ ∀ x ∈ l, f x = .ok () := by
  induction l with
  | nil => exact ⟨fun _ _ hx => absurd hx List.not_mem_nil, fun _ => rfl⟩
  | cons x l ih =>
      rw [List.forall_mem_cons, ← ih]
      exact seq_ok_iff

/-! ## Checked values -/

/-- A value together with the proof that its check passes. -/
def Checked {γ : Type w} (validate : γ → Except ε Unit) : Type w :=
  { c : γ // validate c = .ok () }

namespace Checked

variable {γ : Type} {validate : γ → Except ε Unit} {c : γ} {a : Checked validate}

instance [DecidableEq γ] : DecidableEq (Checked validate) :=
  inferInstanceAs (DecidableEq { c : γ // validate c = .ok () })

/-- Run the check, and keep its verdict if it passes. -/
def make (validate : γ → Except ε Unit) (c : γ) : Except ε (Checked validate) :=
  match h : validate c with
  | .ok () => .ok ⟨c, h⟩
  | .error e => .error e

/-- A checked value is the value that was checked. -/
theorem make_ok_iff : make validate c = .ok a ↔ a.1 = c := by
  unfold make
  constructor
  · intro h
    split at h
    · rw [← Except.ok.inj h]
    · cases h
  · intro h
    split
    · exact congrArg Except.ok (Subtype.ext h.symm)
    · next hraised =>
        have hvalid := a.2
        rw [h, hraised] at hvalid
        cases hvalid

/-- To check a value again that is checked when it is made changes nothing. -/
theorem make_recheck_ok_iff :
    (do let b ← make validate c; validate b.1; return b) = Except.ok a ↔ a.1 = c := by
  simp only [bind_ok_iff (x := make validate c), make_ok_iff]
  constructor
  · intro h
    rcases h with ⟨b, hmake, hrest⟩
    rcases seq_ok_iff.mp hrest with ⟨_, hret⟩
    rw [← Except.ok.inj hret]
    exact hmake
  · intro h
    exact ⟨a, h, seq_ok_iff.mpr ⟨a.2, rfl⟩⟩

end Checked

end Checks
