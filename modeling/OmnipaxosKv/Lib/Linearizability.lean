import Mathlib.Data.List.Nodup

/-! # Linearizability

Histories of concurrent calls on an object, and what it means that the calls could have
taken effect one after the other. Calls without a certain answer may have taken effect
or not.

The rule below is the one for a replicated log: if the calls stand in a log, are answered
as the object would answer them there, and stand behind every call that was answered before
they were invoked, then the log is a linearization, less the reads nobody got an answer to.
-/

universe u v w x

namespace Linearizability

/-- What a client sees of a call. -/
inductive Event (ι : Type u) (α : Type v) (ρ : Type w) where
  | invoke (id : ι) (op : α)
  | respond (id : ι) (result : ρ)
deriving DecidableEq, Repr

/-- A call in a sequential history, with its result. -/
structure Call (ι : Type u) (α : Type v) (ρ : Type w) where
  id : ι
  op : α
  result : ρ
deriving DecidableEq, Repr

/-- A sequential object. -/
structure Object (σ : Type x) (α : Type v) (ρ : Type w) where
  init : σ
  apply : σ → α → σ × ρ

variable {ι : Type u} {α : Type v} {ρ : Type w} {σ : Type x}

/-! ## Pairs in order -/

/-- A pair in a longer list is an old one, or ends with the last element. -/
theorem pair_sublist_concat {β : Type*} {a b c : β} {l : List β}
    (h : [a, b].Sublist (l ++ [c])) : [a, b].Sublist l ∨ (a ∈ l ∧ b = c) := by
  rcases List.sublist_append_iff.mp h with ⟨l₁, l₂, heq, h₁, h₂⟩
  rcases l₁ with _ | ⟨d, _ | ⟨e, l₁⟩⟩
  · -- two events do not fit in the last place
    have hlen := h₂.length_le
    rw [← show [a, b] = l₂ from heq] at hlen
    simp at hlen
  · right
    obtain ⟨rfl, hrest⟩ := List.cons.inj heq
    obtain rfl : [b] = l₂ := hrest
    exact ⟨List.singleton_sublist.mp h₁, by simpa using h₂⟩
  · left
    obtain ⟨rfl, hrest⟩ := List.cons.inj heq
    obtain ⟨rfl, hnil⟩ := List.cons.inj hrest
    rw [(List.append_eq_nil_iff.mp hnil.symm).1] at h₁
    exact h₁

/-- Two elements are a pair in the order of their places. -/
theorem pair_sublist_of_lt {β : Type*} {a b : β} {l : List β} {i j : ℕ} (hi : l[i]? = some a)
    (hj : l[j]? = some b) (hlt : i < j) : [a, b].Sublist l := by
  have hfirst : [a].Sublist (l.take (i + 1)) := by
    rw [List.singleton_sublist]
    exact List.mem_of_getElem? (i := i) (by rw [List.getElem?_take_of_lt (Nat.lt_succ_self i), hi])
  have hsecond : [b].Sublist (l.drop (i + 1)) := by
    rw [List.singleton_sublist]
    refine List.mem_of_getElem? (i := j - (i + 1)) ?_
    rw [List.getElem?_drop, Nat.add_sub_cancel' hlt, hj]
  have hboth := hfirst.append hsecond
  rwa [List.take_append_drop] at hboth

/-! ## Histories -/

namespace Event

def invoked : Event ι α ρ → Option ι
  | invoke i _ => some i
  | respond _ _ => none

def responded : Event ι α ρ → Option ι
  | invoke _ _ => none
  | respond i _ => some i

end Event

/-- Every call is invoked once and answered at most once, after that. -/
structure WellFormed (h : List (Event ι α ρ)) : Prop where
  invoked : (h.filterMap Event.invoked).Nodup
  responded : (h.filterMap Event.responded).Nodup
  answers : ∀ i r, .respond i r ∈ h → ∃ o, [.invoke i o, .respond i r].Sublist h

/-- The empty history is well formed. -/
theorem wellFormed_nil : WellFormed ([] : List (Event ι α ρ)) where
  invoked := List.nodup_nil
  responded := List.nodup_nil
  answers := fun _ _ h => by cases h

section

variable {h : List (Event ι α ρ)} {i : ι}

/-- A history stays well formed with a new call. -/
theorem WellFormed.invoke (hwf : WellFormed h) (o : α) (hnew : ∀ o', .invoke i o' ∉ h) :
    WellFormed (h ++ [.invoke i o]) := by
  refine ⟨?_, ?_, ?_⟩
  · rw [List.filterMap_append, List.nodup_append]
    refine ⟨hwf.invoked, List.nodup_singleton i, ?_⟩
    intro a ha b hb
    rcases List.mem_filterMap.mp ha with ⟨e, he, hea⟩
    rw [show b = i by simpa [Event.invoked] using hb]
    intro hai
    subst hai
    cases e with
    | invoke j o' => exact hnew o' (Option.some.inj hea ▸ he)
    | respond j r => cases hea
  · have hnone : [(.invoke i o : Event ι α ρ)].filterMap Event.responded = [] := rfl
    rw [List.filterMap_append, hnone, List.append_nil]
    exact hwf.responded
  · intro j r hj
    rcases List.mem_append.mp hj with hold | hnew
    · rcases hwf.answers j r hold with ⟨o', hsub⟩
      exact ⟨o', hsub.trans (List.sublist_append_left _ _)⟩
    · cases List.mem_singleton.mp hnew

/-- A history stays well formed with the first response to a call. -/
theorem WellFormed.respond (hwf : WellFormed h) {o : α} (r : ρ) (hinvoked : .invoke i o ∈ h)
    (hnew : ∀ r', .respond i r' ∉ h) : WellFormed (h ++ [.respond i r]) := by
  refine ⟨?_, ?_, ?_⟩
  · have hnone : [(.respond i r : Event ι α ρ)].filterMap Event.invoked = [] := rfl
    rw [List.filterMap_append, hnone, List.append_nil]
    exact hwf.invoked
  · rw [List.filterMap_append, List.nodup_append]
    refine ⟨hwf.responded, List.nodup_singleton i, ?_⟩
    intro a ha b hb
    rcases List.mem_filterMap.mp ha with ⟨e, he, hea⟩
    rw [show b = i by simpa [Event.responded] using hb]
    intro hai
    subst hai
    cases e with
    | invoke j o' => cases hea
    | respond j r' => exact hnew r' (Option.some.inj hea ▸ he)
  · intro j r' hj
    rcases List.mem_append.mp hj with hold | hlast
    · rcases hwf.answers j r' hold with ⟨o', hsub⟩
      exact ⟨o', hsub.trans (List.sublist_append_left _ _)⟩
    · obtain ⟨rfl, rfl⟩ := Event.respond.inj (List.mem_singleton.mp hlast)
      exact ⟨o, (List.singleton_sublist.mpr hinvoked).append (List.Sublist.refl _)⟩

end

/-! ## Sequential histories -/

namespace Object

/-- Each call has the result the object gives it when its turn comes. -/
def Legal (O : Object σ α ρ) : σ → List (Call ι α ρ) → Prop
  | _, [] => True
  | st, c :: calls => c.result = (O.apply st c.op).2 ∧ O.Legal (O.apply st c.op).1 calls

/-- The state after a sequence of operations. -/
def after (O : Object σ α ρ) (st : σ) (ops : List α) : σ :=
  ops.foldl (fun st o => (O.apply st o).1) st

variable {O : Object σ α ρ}

/-- A sequence of calls is legal if each is, after those before it. -/
theorem legal_of_getElem? {st : σ} {calls : List (Call ι α ρ)}
    (h : ∀ (j : ℕ) (c : Call ι α ρ), calls[j]? = some c →
      c.result = (O.apply (O.after st ((calls.take j).map Call.op)) c.op).2) :
    O.Legal st calls := by
  induction calls generalizing st with
  | nil => trivial
  | cons c calls ih =>
      refine ⟨h 0 c rfl, ih ?_⟩
      intro j d hj
      exact h (j + 1) d hj

/-- Reads may be left out. -/
theorem Legal.filter {p : Call ι α ρ → Bool} {st : σ} {calls : List (Call ι α ρ)}
    (h : O.Legal st calls)
    (hread : ∀ c ∈ calls, p c = false → ∀ st, (O.apply st c.op).1 = st) :
    O.Legal st (calls.filter p) := by
  induction calls generalizing st with
  | nil => trivial
  | cons c calls ih =>
      have hrest := ih h.2 fun d hd => hread d (List.mem_cons_of_mem _ hd)
      cases hp : p c with
      | true =>
          rw [List.filter_cons_of_pos hp]
          exact ⟨h.1, hrest⟩
      | false =>
          rw [List.filter_cons_of_neg (by simp [hp])]
          rw [hread c List.mem_cons_self hp st] at hrest
          exact hrest

end Object

/-! ## Linearizations -/

/-- The calls of a history could have taken effect in this order. It has every call with an
answer, other than an `unsure` one, and of the rest some that `mutate`; the results are those
of the object; and a call answered before another was invoked comes before it. -/
structure Linearization (O : Object σ α ρ) (unsure : ρ → Prop) (mutates : α → Prop)
    (h : List (Event ι α ρ)) (order : List (Call ι α ρ)) : Prop where
  legal : O.Legal O.init order
  nodup : (order.map Call.id).Nodup
  invoked : ∀ c ∈ order, .invoke c.id c.op ∈ h
  answered : ∀ i r, .respond i r ∈ h → ¬ unsure r → ∃ c ∈ order, c.id = i ∧ c.result = r
  pending : ∀ c ∈ order, .respond c.id c.result ∈ h ∨
    (mutates c.op ∧ ∀ r, .respond c.id r ∈ h → unsure r)
  realTime : ∀ c ∈ order, ∀ d ∈ order, ∀ r o,
    [Event.respond c.id r, .invoke d.id o].Sublist h → [c, d].Sublist order

/-- The rule for a replicated log. -/
theorem linearization_of_log [DecidableEq ι] [DecidableEq α] [DecidableEq ρ] {O : Object σ α ρ}
    {unsure : ρ → Prop} {mutates : α → Prop} [DecidablePred mutates] {h : List (Event ι α ρ)}
    {calls : List (Call ι α ρ)} (hlegal : O.Legal O.init calls)
    (hnodup : (calls.map Call.id).Nodup) (hinvoked : ∀ c ∈ calls, .invoke c.id c.op ∈ h)
    (hanswered : ∀ i r, .respond i r ∈ h → ¬ unsure r → ∃ c ∈ calls, c.id = i ∧ c.result = r)
    (horder : ∀ c ∈ calls, ∀ d ∈ calls, ∀ r o,
      [Event.respond c.id r, .invoke d.id o].Sublist h → [c, d].Sublist calls)
    (hread : ∀ o, ¬ mutates o → ∀ st, (O.apply st o).1 = st) :
    Linearization O unsure mutates h
      (calls.filter fun c => mutates c.op ∨ Event.respond c.id c.result ∈ h) := by
  have hsub := List.filter_sublist (p := fun c => mutates c.op ∨
    (Event.respond c.id c.result : Event ι α ρ) ∈ h) (l := calls)
  refine ⟨?_, (hsub.map _).nodup hnodup, fun c hc => hinvoked c (hsub.subset hc), ?_, ?_, ?_⟩
  · refine hlegal.filter fun c _ hp => hread c.op ?_
    intro hmutates
    simp [hmutates] at hp
  · intro i r hr hsure
    rcases hanswered i r hr hsure with ⟨c, hc, rfl, rfl⟩
    exact ⟨c, List.mem_filter.mpr ⟨hc, by simp [hr]⟩, rfl, rfl⟩
  · intro c hc
    by_cases hr : Event.respond c.id c.result ∈ h
    · exact .inl hr
    · right
      rcases List.mem_filter.mp hc with ⟨hmem, hp⟩
      simp only [hr, or_false, decide_eq_true_eq] at hp
      refine ⟨hp, fun r hrespond => ?_⟩
      -- a certain answer would be the call's own
      by_contra hsure
      rcases hanswered c.id r hrespond hsure with ⟨d, hd, hid, hresult⟩
      obtain rfl : d = c := List.inj_on_of_nodup_map hnodup hd hmem hid
      exact hr (hresult ▸ hrespond)
  · intro c hc d hd r o hbefore
    have hpair := (horder c (hsub.subset hc) d (hsub.subset hd) r o hbefore).filter
      fun c => mutates c.op ∨ Event.respond c.id c.result ∈ h
    rwa [List.filter_eq_self.mpr] at hpair
    intro e he
    rcases List.mem_cons.mp he with rfl | he
    · exact (List.mem_filter.mp hc).2
    · rw [List.mem_singleton.mp he]
      exact (List.mem_filter.mp hd).2

/-! ## The rule for a log of which some entries count -/

/-- The two elements that a pair comes from. -/
theorem pair_of_sublist_filterMap {β γ : Type*} {f : β → Option γ} {l : List β} {r : β → β → Prop}
    (hl : l.Pairwise r) {x y : γ} (h : [x, y].Sublist (l.filterMap f)) :
    ∃ a ∈ l, ∃ b ∈ l, r a b ∧ f a = some x ∧ f b = some y := by
  induction l with
  | nil => cases h
  | cons c l ih =>
      rcases List.pairwise_cons.mp hl with ⟨hc, hrest⟩
      cases hfc : f c with
      | none =>
          rw [List.filterMap_cons_none hfc] at h
          rcases ih hrest h with ⟨a, ha, b, hb, hab⟩
          exact ⟨a, List.mem_cons_of_mem c ha, b, List.mem_cons_of_mem c hb, hab⟩
      | some z =>
          rw [List.filterMap_cons_some hfc] at h
          rcases List.sublist_cons_iff.mp h with hlater | ⟨r', hr', hsub⟩
          · rcases ih hrest hlater with ⟨a, ha, b, hb, hab⟩
            exact ⟨a, List.mem_cons_of_mem c ha, b, List.mem_cons_of_mem c hb, hab⟩
          · -- the first of the pair comes from `c`
            rcases List.cons.inj hr' with ⟨hx, hy⟩
            rw [← hy, List.singleton_sublist] at hsub
            rcases List.mem_filterMap.mp hsub with ⟨b, hb, hfb⟩
            refine ⟨c, List.mem_cons_self, b, List.mem_cons_of_mem c hb, hc b hb, ?_, hfb⟩
            rw [hx]
            exact hfc

/-- The states of an object, at the positions of a log, and the calls that take effect
there. -/
structure Effects (O : Object σ α ρ) (n : ℕ) (states : ℕ → σ)
    (callAt : ℕ → Option (Call ι α ρ)) : Prop where
  init : states 0 = O.init
  none : ∀ p < n, callAt p = none → states (p + 1) = states p
  some : ∀ p < n, ∀ c, callAt p = some c →
    c.result = (O.apply (states p) c.op).2 ∧ states (p + 1) = (O.apply (states p) c.op).1

/-- In the order of the positions the calls are legal. -/
theorem Effects.legal {O : Object σ α ρ} {n : ℕ} {states : ℕ → σ}
    {callAt : ℕ → Option (Call ι α ρ)} (h : Effects O n states callAt) :
    O.Legal O.init ((List.range n).filterMap callAt) := by
  -- from any position on
  have hfrom : ∀ k p, p + k = n → O.Legal (states p) ((List.range' p k).filterMap callAt) := by
    intro k
    induction k with
    | zero => exact fun _ _ => trivial
    | succ k ih =>
        intro p hp
        have hrest := ih (p + 1) (by omega)
        rw [List.range'_succ]
        cases hcall : callAt p with
        | none =>
            rw [List.filterMap_cons_none hcall, ← h.none p (by omega) hcall]
            exact hrest
        | some c =>
            rcases h.some p (by omega) c hcall with ⟨hresult, hnext⟩
            rw [List.filterMap_cons_some hcall]
            rw [hnext] at hrest
            exact ⟨hresult, hrest⟩
  rw [← h.init, List.range_eq_range']
  exact hfrom n 0 (Nat.zero_add n)

/-- If calls take effect at positions of a log, and those that were answered do so before the
calls that were invoked later, then in the order of the positions they are a linearization. -/
theorem linearization_of_effects {O : Object σ α ρ} {unsure : ρ → Prop} {mutates : α → Prop}
    {h : List (Event ι α ρ)} {n : ℕ} {states : ℕ → σ} {callAt : ℕ → Option (Call ι α ρ)}
    (heffects : Effects O n states callAt)
    (hinj : ∀ p < n, ∀ q < n, ∀ c d, callAt p = some c → callAt q = some d → c.id = d.id → p = q)
    (hinvoked : ∀ p < n, ∀ c, callAt p = some c → .invoke c.id c.op ∈ h)
    (hanswered : ∀ i r, .respond i r ∈ h → ¬ unsure r →
      ∃ p < n, ∃ c, callAt p = some c ∧ c.id = i ∧ c.result = r)
    (hpending : ∀ p < n, ∀ c, callAt p = some c → .respond c.id c.result ∈ h ∨
      (mutates c.op ∧ ∀ r, .respond c.id r ∈ h → unsure r))
    (horder : ∀ p < n, ∀ q < n, ∀ c d, callAt p = some c → callAt q = some d → ∀ r o,
      [Event.respond c.id r, .invoke d.id o].Sublist h → p < q) :
    Linearization O unsure mutates h ((List.range n).filterMap callAt) := by
  have hat : ∀ c ∈ (List.range n).filterMap callAt, ∃ p < n, callAt p = some c := by
    intro c hc
    rcases List.mem_filterMap.mp hc with ⟨p, hp, hcall⟩
    exact ⟨p, List.mem_range.mp hp, hcall⟩
  refine ⟨heffects.legal, ?_, ?_, ?_, ?_, ?_⟩
  -- positions are the only ones to have their calls
  · rw [List.map_filterMap]
    refine List.pairwise_filterMap.mpr (List.nodup_range.imp_of_mem ?_)
    intro p q hp hq hne i hi j hj hij
    rcases Option.map_eq_some_iff.mp hi with ⟨c, hcall, hid⟩
    rcases Option.map_eq_some_iff.mp hj with ⟨d, hcall', hid'⟩
    refine hne (hinj p (List.mem_range.mp hp) q (List.mem_range.mp hq) c d hcall hcall' ?_)
    rw [hid, hid', hij]
  · intro c hc
    rcases hat c hc with ⟨p, hp, hcall⟩
    exact hinvoked p hp c hcall
  · intro i r hr hsure
    rcases hanswered i r hr hsure with ⟨p, hp, c, hcall, hid, hresult⟩
    exact ⟨c, List.mem_filterMap.mpr ⟨p, List.mem_range.mpr hp, hcall⟩, hid, hresult⟩
  · intro c hc
    rcases hat c hc with ⟨p, hp, hcall⟩
    exact hpending p hp c hcall
  -- positions in order are calls in order
  · intro c hc d hd r o hbefore
    rcases hat c hc with ⟨p, hp, hcall⟩
    rcases hat d hd with ⟨q, hq, hcall'⟩
    have hlt := horder p hp q hq c d hcall hcall' r o hbefore
    have hpair : [p, q].Sublist (List.range n) :=
      pair_sublist_of_lt (List.getElem?_range hp) (List.getElem?_range hq) hlt
    have hcalls := hpair.filterMap callAt
    rw [List.filterMap_cons_some hcall, List.filterMap_cons_some hcall'] at hcalls
    exact hcalls

end Linearizability
