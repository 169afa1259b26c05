import Mathlib

/-! # Recorded edits of one cell

A log is cut into batches, and every batch is summarised by what it does to one
cell of a map. A summary is only as good as its record of removals: `hide` is a
batch that ends with the cell removed while its record does not mention the
cell at all. `replay` follows what the batches do, `remembered` follows what their
records say, and `remembered_ne_replay_iff` says exactly when the two part.
-/

universe u

/-- What a batch does to one cell. -/
inductive Edit (V : Type u) where
  | keep
  | set (v : V)
  | clear
  | hide

namespace Edit

variable {V : Type u}

/-- The cell after a batch. -/
def apply (cell : Option V) : Edit V → Option V
  | keep => cell
  | set v => some v
  | clear => none
  | hide => none

/-- The cell after the record of a batch. -/
def applyRecord (cell : Option V) : Edit V → Option V
  | keep => cell
  | set v => some v
  | clear => none
  | hide => cell

/-- The cell after a list of batches, starting empty. -/
def replay (es : List (Edit V)) : Option V := es.foldl apply none

/-- The cell after the records of a list of batches, starting empty. -/
def remembered (es : List (Edit V)) : Option V := es.foldl applyRecord none

/-- The record does not mention the cell. -/
def Silent (e : Edit V) : Prop := e = keep ∨ e = hide

@[simp] theorem silent_keep : Silent (keep : Edit V) := Or.inl rfl
@[simp] theorem silent_hide : Silent (hide : Edit V) := Or.inr rfl
@[simp] theorem not_silent_set (v : V) : ¬ Silent (set v) := by simp [Silent]
@[simp] theorem not_silent_clear : ¬ Silent (clear : Edit V) := by simp [Silent]

/-- The last edit is applied last. -/
@[simp] theorem replay_concat (es : List (Edit V)) (e : Edit V) :
    replay (es ++ [e]) = apply (replay es) e := by
  simp [replay]

/-- The last edit is recorded last. -/
@[simp] theorem remembered_concat (es : List (Edit V)) (e : Edit V) :
    remembered (es ++ [e]) = applyRecord (remembered es) e := by
  simp [remembered]

/-- How a split around `x` sees a list that was extended by one element. -/
theorem concat_eq_append_cons {α : Type u} {es pre post : List α} {e x : α} :
    es ++ [e] = pre ++ x :: post ↔
      (post = [] ∧ es = pre ∧ e = x) ∨ ∃ post', post = post' ++ [e] ∧ es = pre ++ x :: post' := by
  rcases List.eq_nil_or_concat post with rfl | ⟨post', y, rfl⟩
  · simp [List.append_singleton_inj]
  · rw [List.concat_eq_append, show pre ++ x :: (post' ++ [y]) = (pre ++ x :: post') ++ [y] by simp,
      List.append_singleton_inj]
    constructor
    · rintro ⟨rfl, rfl⟩
      exact Or.inr ⟨post', rfl, rfl⟩
    · rintro (⟨h, -, -⟩ | ⟨post'', hpost, rfl⟩)
      · simp at h
      · obtain ⟨rfl, rfl⟩ := List.append_singleton_inj.mp hpost
        exact ⟨rfl, rfl⟩

/-- The records of a list of batches leave `v` iff the last batch whose record
mentions the cell has set `v`. -/
theorem remembered_eq_some_iff (es : List (Edit V)) (v : V) :
    remembered es = some v ↔ ∃ pre post, es = pre ++ set v :: post ∧ ∀ e ∈ post, Silent e := by
  induction es using List.reverseRecOn with
  | nil => simp [remembered]
  | append_singleton es e ih =>
      -- a silent batch leaves the answer to the batches before it
      have hsilent : Silent e → (remembered es = some v ↔
          ∃ pre post, es ++ [e] = pre ++ set v :: post ∧ ∀ e ∈ post, Silent e) := by
        intro he
        rw [ih]
        constructor
        · rintro ⟨pre, post, rfl, hpost⟩
          refine ⟨pre, post ++ [e], by simp, ?_⟩
          simpa [or_imp, forall_and] using ⟨hpost, he⟩
        · rintro ⟨pre, post, heq, hpost⟩
          rcases concat_eq_append_cons.mp heq with ⟨-, -, rfl⟩ | ⟨post', rfl, rfl⟩
          · simp at he
          · exact ⟨pre, post', rfl, fun x hx => hpost x (by simp [hx])⟩
      rw [remembered_concat]
      cases e with
      | keep => exact hsilent silent_keep
      | hide => exact hsilent silent_hide
      | set w =>
          simp only [applyRecord, Option.some.injEq]
          constructor
          · rintro rfl
            exact ⟨es, [], rfl, by simp⟩
          · rintro ⟨pre, post, heq, hpost⟩
            rcases concat_eq_append_cons.mp heq with ⟨-, -, h⟩ | ⟨post', rfl, rfl⟩
            · exact set.inj h
            · simpa using hpost (set w) (by simp)
      | clear =>
          simp only [applyRecord, reduceCtorEq, false_iff]
          rintro ⟨pre, post, heq, hpost⟩
          rcases concat_eq_append_cons.mp heq with ⟨-, -, h⟩ | ⟨post', rfl, rfl⟩
          · cases h
          · simpa using hpost clear (by simp)

/-- The records go wrong exactly when a value that was set is later removed by a
batch that hides it, and no batch after the one that set it mentions the cell. -/
theorem remembered_ne_replay_iff (es : List (Edit V)) :
    remembered es ≠ replay es ↔ ∃ pre v mid post,
      es = pre ++ set v :: (mid ++ hide :: post) ∧ ∀ e ∈ mid ++ post, Silent e := by
  induction es using List.reverseRecOn with
  | nil => simp [remembered, replay]
  | append_singleton es e ih =>
      -- a batch whose record mentions the cell repairs whatever went wrong before
      have hrepair : ¬ Silent e → ¬ ∃ pre v mid post,
          es ++ [e] = pre ++ set v :: (mid ++ hide :: post) ∧ ∀ x ∈ mid ++ post, Silent x := by
        rintro he ⟨pre, v, mid, post, heq, hall⟩
        have heq' : es ++ [e] = (pre ++ set v :: mid) ++ hide :: post := by simpa using heq
        rcases concat_eq_append_cons.mp heq' with ⟨-, -, rfl⟩ | ⟨post', rfl, -⟩
        · exact he silent_hide
        · exact he (hall e (by simp))
      rw [remembered_concat, replay_concat]
      cases e with
      | set w => simpa [applyRecord, apply] using hrepair (not_silent_set w)
      | clear => simpa [applyRecord, apply] using hrepair not_silent_clear
      | keep =>
          simp only [applyRecord, apply]
          rw [ih]
          constructor
          · rintro ⟨pre, v, mid, post, rfl, hall⟩
            refine ⟨pre, v, mid, post ++ [keep], by simp, ?_⟩
            intro x hx
            rcases List.mem_append.mp hx with hx | hx
            · exact hall x (by simp [hx])
            · rcases List.mem_append.mp hx with hx | hx
              · exact hall x (by simp [hx])
              · simp_all
          · rintro ⟨pre, v, mid, post, heq, hall⟩
            have heq' : es ++ [keep] = (pre ++ set v :: mid) ++ hide :: post := by
              simpa using heq
            rcases concat_eq_append_cons.mp heq' with ⟨-, -, h⟩ | ⟨post', rfl, rfl⟩
            · cases h
            · exact ⟨pre, v, mid, post', by simp, fun x hx => hall x (by
                simp only [List.mem_append] at hx ⊢
                tauto)⟩
      | hide =>
          simp only [applyRecord, apply]
          rw [Option.ne_none_iff_exists']
          constructor
          · rintro ⟨v, hv⟩
            obtain ⟨pre, post, rfl, hpost⟩ := (remembered_eq_some_iff es v).mp hv
            exact ⟨pre, v, post, [], by simp, by simpa using hpost⟩
          · rintro ⟨pre, v, mid, post, heq, hall⟩
            refine ⟨v, (remembered_eq_some_iff es v).mpr ?_⟩
            have heq' : es ++ [hide] = (pre ++ set v :: mid) ++ hide :: post := by
              simpa using heq
            rcases concat_eq_append_cons.mp heq' with ⟨-, rfl, -⟩ | ⟨post', rfl, rfl⟩
            · exact ⟨pre, mid, rfl, fun x hx => hall x (by simp [hx])⟩
            · refine ⟨pre, mid ++ hide :: post', by simp, ?_⟩
              intro x hx
              rcases List.mem_append.mp hx with hx | hx
              · exact hall x (by simp [hx])
              · rcases List.mem_cons.mp hx with rfl | hx
                · exact silent_hide
                · exact hall x (by simp [hx])

end Edit
