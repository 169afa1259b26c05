import Mathlib.Data.List.Basic

/-! # Scripts

Programs that act on a state and return or throw, with the constructs that clean up: what is
caught and returned (`attempt`), what runs in the end whatever happened (`ensuring`), and many
scripts that all run to their end (`outcomes`).

A triple says what holds when a script returns and what holds when it throws. There is one rule
for each construct; a program is verified by putting together the triples of its parts.
-/

/-- A program that acts on a state of `σ`, and returns or throws. -/
abbrev Script (σ ε α : Type) : Type := ExceptT ε (StateM σ) α

namespace Script

variable {σ ε α β : Type}

/-- What a script comes to, and the state it leaves. -/
def eval (x : Script σ ε α) (s : σ) : Except ε α × σ := x.run.run s

@[simp] theorem eval_get (s : σ) : (get : Script σ ε σ).eval s = (.ok s, s) := rfl

@[simp] theorem eval_set (s' s : σ) : (set s' : Script σ ε PUnit).eval s = (.ok ⟨⟩, s') := rfl

@[simp] theorem eval_modify (f : σ → σ) (s : σ) :
    (modify f : Script σ ε Unit).eval s = (.ok (), f s) := rfl

/-- The second part runs from where the first got to, if that returned. -/
theorem eval_bind (x : Script σ ε α) (f : α → Script σ ε β) (s : σ) :
    (x >>= f).eval s = match x.eval s with
      | (.ok a, s') => (f a).eval s'
      | (.error e, s') => (.error e, s') := by
  change (match x.eval s with
    | (result, s') => (ExceptT.bindCont f result).run s') = _
  rcases x.eval s with ⟨_ | _, _⟩
  · rfl
  · rfl

/-! ## Cleaning up -/

/-- The script, whose exception is returned. -/
def attempt (x : Script σ ε α) : Script σ ε (Except ε α) :=
  ExceptT.mk fun s => (.ok (x.eval s).1, (x.eval s).2)

/-- An attempt returns the outcome. -/
@[simp] theorem eval_attempt (x : Script σ ε α) (s : σ) :
    (attempt x).eval s = (.ok (x.eval s).1, (x.eval s).2) := rfl

def deliver : Except ε α → Script σ ε α
  | .ok a => pure a
  | .error e => throw e

/-- An outcome that is delivered is that outcome. -/
@[simp] theorem eval_deliver (outcome : Except ε α) (s : σ) :
    (deliver outcome : Script σ ε α).eval s = (outcome, s) := by
  cases outcome with
  | ok a => rfl
  | error e => rfl

/-- `try x finally cleanup`: an exception of `cleanup` takes the place of what `x` came to. -/
def ensuring (x : Script σ ε α) (cleanup : Script σ ε Unit) : Script σ ε α := do
  let outcome ← attempt x
  cleanup
  deliver outcome

/-- Every one of the scripts runs to its end; what they come to is returned. -/
def outcomes (f : α → Script σ ε β) : List α → Script σ ε (List (Except ε β))
  | [] => pure []
  | x :: xs => do
      let outcome ← attempt (f x)
      let rest ← outcomes f xs
      return outcome :: rest

/-! ## Triples -/

/-- A postcondition for what is returned and one for what is thrown, taken together. -/
def post (Q : α → σ → Prop) (E : ε → σ → Prop) : Except ε α → σ → Prop
  | .ok a, s => Q a s
  | .error e, s => E e s

/-- From a state with `P`, the script returns in a state with `Q` or throws in one with `E`. -/
def Triple (P : σ → Prop) (x : Script σ ε α) (Q : α → σ → Prop) (E : ε → σ → Prop) : Prop :=
  ∀ s, P s → post Q E (x.eval s).1 (x.eval s).2

section

variable {P P' : σ → Prop} {x : Script σ ε α} {f : α → Script σ ε β} {Q Q' : α → σ → Prop}
  {R : β → σ → Prop} {E E' : ε → σ → Prop}

/-- A postcondition may be weakened. -/
theorem post_mono {outcome : Except ε α} {s : σ} (h : post Q E outcome s)
    (hQ : ∀ a, Q a s → Q' a s) (hE : ∀ e, E e s → E' e s) : post Q' E' outcome s := by
  cases outcome with
  | ok a => exact hQ a h
  | error e => exact hE e h

/-- The rule of consequence. -/
theorem Triple.weaken (h : Triple P x Q E) (hP : ∀ s, P' s → P s) (hQ : ∀ a s, Q a s → Q' a s)
    (hE : ∀ e s, E e s → E' e s) : Triple P' x Q' E' := fun s hs =>
  post_mono (h s (hP s hs)) (fun a => hQ a _) fun e => hE e _

/-- Every script does something. -/
theorem triple_true (x : Script σ ε α) :
    Triple P x (fun _ _ => True) fun _ _ => True := by
  intro s _
  cases (x.eval s).1 with
  | ok a => trivial
  | error e => trivial

/-- A return changes nothing. -/
theorem triple_pure (a : α) (h : ∀ s, P s → Q a s) : Triple P (pure a : Script σ ε α) Q E := h

/-- A throw changes nothing. -/
theorem triple_throw (e : ε) (h : ∀ s, P s → E e s) :
    Triple P (throw e : Script σ ε α) Q E := h

/-- The rule of assignment. -/
theorem triple_modify (g : σ → σ) {Q : Unit → σ → Prop} (h : ∀ s, P s → Q () (g s)) :
    Triple P (modify g : Script σ ε Unit) Q E := h

/-- The rule of outcomes. -/
theorem triple_deliver (outcome : Except ε α) (h : ∀ s, P s → post Q E outcome s) :
    Triple P (deliver outcome) Q E := by
  intro s hs
  rw [eval_deliver]
  exact h s hs

/-- The rule of composition. -/
theorem Triple.bind (hx : Triple P x Q E) (hf : ∀ a, Triple (Q a) (f a) R E) :
    Triple P (x >>= f) R E := by
  intro s hs
  have hpost := hx s hs
  rw [eval_bind]
  rcases heval : x.eval s with ⟨_ | a, s'⟩
  · rw [heval] at hpost
    exact hpost
  · rw [heval] at hpost
    exact hf a s' hpost

/-- The rule of conjunction. -/
theorem Triple.and {P₁ : σ → Prop} {Q₁ : α → σ → Prop} {E₁ : ε → σ → Prop} (h : Triple P x Q E)
    (h₁ : Triple P₁ x Q₁ E₁) :
    Triple (fun s => P s ∧ P₁ s) x (fun a s => Q a s ∧ Q₁ a s) fun e s => E e s ∧ E₁ e s := by
  intro s hs
  have hboth := And.intro (h s hs.1) (h₁ s hs.2)
  revert hboth
  cases (x.eval s).1 with
  | ok a => exact id
  | error e => exact id

/-- Nothing is thrown by what is attempted. -/
theorem Triple.attempt (h : Triple P x Q E) : Triple P (attempt x) (post Q E) E' := h

/-- A postcondition that is the same for all outcomes. -/
@[simp] theorem post_const {outcome : Except ε α} {s : σ} :
    post (fun _ => P) (fun _ => P) outcome s ↔ P s := by
  cases outcome with
  | ok a => exact Iff.rfl
  | error e => exact Iff.rfl

/-- What one script keeps, knowing which ones have run and what they came to. -/
theorem triple_outcomes {coll : List α} {f : α → Script σ ε β}
    (inv : List (α × Except ε β) → σ → Prop)
    (h : ∀ done x rest, coll = done.map Prod.fst ++ x :: rest →
      Triple (inv done) (f x) (fun b => inv (done ++ [(x, .ok b)]))
        (fun e => inv (done ++ [(x, .error e)]))) :
    Triple (inv []) (outcomes f coll)
      (fun os s => os.length = coll.length ∧ inv (coll.zip os) s) E' := by
  -- the scripts that are left, after those that have run
  have hrest : ∀ (rest : List α) (done : List (α × Except ε β)),
      coll = done.map Prod.fst ++ rest →
      Triple (inv done) (outcomes f rest)
        (fun os s => os.length = rest.length ∧ inv (done ++ rest.zip os) s) E' := by
    intro rest
    induction rest with
    | nil =>
        intro done _
        refine triple_pure [] ?_
        intro s hs
        rw [List.zip_nil_left, List.append_nil]
        exact ⟨rfl, hs⟩
    | cons x rest ih =>
        intro done hcoll
        rw [outcomes]
        apply (h done x rest hcoll).attempt.bind
        intro outcome
        have hnext : coll = (done ++ [(x, outcome)]).map Prod.fst ++ rest := by
          rw [hcoll, List.map_append, List.append_assoc]
          rfl
        apply Triple.bind (Q := fun os s => os.length = rest.length ∧
          inv ((done ++ [(x, outcome)]) ++ rest.zip os) s)
        · apply (ih _ hnext).weaken
          · intro s hs
            cases outcome with
            | ok b => exact hs
            | error e => exact hs
          · intro os s hs
            exact hs
          · intro e s hs
            exact hs
        · intro os
          refine triple_pure _ ?_
          intro s hs
          rcases hs with ⟨hlength, hinv⟩
          refine ⟨congrArg Nat.succ hlength, ?_⟩
          rw [List.append_assoc] at hinv
          exact hinv
  have hall := hrest coll [] rfl
  simpa using hall

end

end Script
