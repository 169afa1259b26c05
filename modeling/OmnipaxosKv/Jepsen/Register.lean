import OmnipaxosKv.Jepsen.Workload
import OmnipaxosKv.Lib.Linearizability

/-! # Histories of a register

What the checker looks for in the history of a test: an order in which its reads and writes
could have taken effect, one after the other, on one register. An invocation belongs to the
next entry of its process. An operation that failed has no part in it, and an operation that
is `:info` may have taken effect or not.
-/

namespace OmnipaxosKv

namespace Jepsen

open Linearizability

/-! ## The register -/

inductive RegisterOp where
  | read
  | write (v : ℤ)
deriving DecidableEq, Repr

/-- A register that holds nothing at first. -/
def register : Object (Option ℤ) RegisterOp (Option ℤ) where
  init := none
  apply
    | value, .read => (value, value)
    | _, .write v => (some v, some v)

def IsWrite (op : RegisterOp) : Prop := ∃ v, op = .write v

/-- A write always has a value. -/
def Op.onRegister (op : Op) : RegisterOp :=
  match op.f with
  | .read => .read
  | .write => .write (op.value.getD 0)

/-! ## Adjacent entries of a process -/

section

variable {α : Type} {history : List (Operation α)} {p : Name} {j k : ℕ}

/-- The entries are of process `p`, and none is between them. -/
structure Adjacent (history : List (Operation α)) (p : Name) (k j : ℕ) : Prop where
  lt : k < j
  first : ∃ x, history[k]? = some x ∧ x.process = p
  second : ∃ x, history[j]? = some x ∧ x.process = p
  between : ∀ m x, k < m → m < j → history[m]? = some x → x.process ≠ p

/-- There is one entry right before another. -/
theorem Adjacent.first_unique {k' : ℕ} (h : Adjacent history p k j)
    (h' : Adjacent history p k' j) : k = k' := by
  rcases h.first with ⟨x, hx, hp⟩
  rcases h'.first with ⟨x', hx', hp'⟩
  have hle : ¬ k < k' := fun hlt => h.between k' x' hlt h'.lt hx' hp'
  have hge : ¬ k' < k := fun hlt => h'.between k x hlt h.lt hx hp
  omega

/-- An entry has one next entry of its process. -/
theorem Adjacent.second_unique {j' : ℕ} (h : Adjacent history p k j)
    (h' : Adjacent history p k j') : j = j' := by
  rcases h.second with ⟨x, hx, hp⟩
  rcases h'.second with ⟨x', hx', hp'⟩
  have hle : ¬ j < j' := fun hlt => h'.between j x h.lt hlt hx hp
  have hge : ¬ j' < j := fun hlt => h.between j' x' h'.lt hlt hx' hp'
  omega

/-- The next entry of the process. -/
def completionOf (history : List (Operation α)) (k : ℕ) (p : Name) : Option (Operation α) :=
  (history.drop (k + 1)).find? fun o => o.process = p

/-- The last entry of the process before position `j`. -/
def invocationOf (history : List (Operation α)) (j : ℕ) (p : Name) : Option ℕ :=
  (List.range j).reverse.find? fun k => (history[k]?).any fun o => o.process = p

/-- The next entry of the process is adjacent. -/
theorem completionOf_eq_some {x : Operation α} (hk : ∃ y, history[k]? = some y ∧ y.process = p)
    (h : completionOf history k p = some x) :
    ∃ j, Adjacent history p k j ∧ history[j]? = some x := by
  rcases List.find?_eq_some_iff_getElem.mp h with ⟨hp, i, hi, hx, hbefore⟩
  rw [decide_eq_true_eq] at hp
  have hx' : history[k + 1 + i]? = some x := by
    rw [← List.getElem?_drop, List.getElem?_eq_getElem hi, hx]
  refine ⟨k + 1 + i, ⟨by omega, hk, ⟨x, hx', hp⟩, ?_⟩, hx'⟩
  intro m y hkm hmj hy
  have hlt : m - (k + 1) < i := by omega
  have hnot := hbefore (m - (k + 1)) hlt
  have hy' : (history.drop (k + 1))[m - (k + 1)]? = some y := by
    rw [List.getElem?_drop, Nat.add_sub_cancel' hkm]
    exact hy
  rw [(List.getElem?_eq_some_iff.mp hy').2] at hnot
  simpa using hnot

/-- What is adjacent to an entry is its completion. -/
theorem completionOf_of_adjacent (h : Adjacent history p k j) {x : Operation α}
    (hx : history[j]? = some x) : completionOf history k p = some x := by
  rcases h.second with ⟨x', hx', hp⟩
  have hsome : (completionOf history k p).isSome := by
    rw [completionOf, List.find?_isSome]
    refine ⟨x', ?_, by simpa using hp⟩
    refine List.mem_of_getElem? (i := j - (k + 1)) ?_
    rw [List.getElem?_drop, Nat.add_sub_cancel' h.lt]
    exact hx'
  rcases Option.isSome_iff_exists.mp hsome with ⟨y, hy⟩
  rcases completionOf_eq_some h.first hy with ⟨j', hadjacent, hy'⟩
  rw [← h.second_unique hadjacent] at hy'
  rw [hy, ← hy', hx]

/-- The last entry of the process before an entry is adjacent to it. -/
theorem invocationOf_eq_some (hj : ∃ y, history[j]? = some y ∧ y.process = p)
    (h : invocationOf history j p = some k) : Adjacent history p k j := by
  rcases List.find?_eq_some_iff_append.mp h with ⟨hp, later, earlier, hsplit, hnone⟩
  have hrange : List.range j = earlier.reverse ++ k :: later.reverse := by
    rw [← List.reverse_reverse (List.range j), hsplit, List.reverse_append, List.reverse_cons,
      List.append_assoc]
    rfl
  have hsorted : (List.range j).Pairwise (· < ·) := List.pairwise_lt_range
  rw [hrange, List.pairwise_append, List.pairwise_cons] at hsorted
  have hk : k ∈ List.range j := by
    rw [hrange]
    exact List.mem_append_right _ List.mem_cons_self
  rcases Option.any_eq_true _ _ |>.mp hp with ⟨x, hx, hxp⟩
  refine ⟨List.mem_range.mp hk, ⟨x, hx, by simpa using hxp⟩, hj, ?_⟩
  intro m y hkm hmj hy hyp
  have hm : m ∈ List.range j := List.mem_range.mpr hmj
  rw [hrange] at hm
  rcases List.mem_append.mp hm with hearlier | hrest
  · -- an earlier one is not behind `k`
    have hlt := hsorted.2.2 m hearlier k List.mem_cons_self
    omega
  · rcases List.mem_cons.mp hrest with heq | hlater
    · omega
    · have hnot := hnone m (List.mem_reverse.mp hlater)
      rw [hy] at hnot
      simp [hyp] at hnot

end

/-! ## Events -/

/-- The call that an entry begins or ends. A call is called by the index of its invocation. -/
def event (history : List (Operation Payload)) (j : ℕ) :
    Option (Event ℕ RegisterOp (Option ℤ)) :=
  match history[j]? with
  | none => none
  | some o =>
      match o.type, o.fields with
      | .invoke, .kv op _ =>
          if (completionOf history j o.process).any (fun x => x.type = .fail) then none
          else some (.invoke j op.onRegister)
      | .ok, .kv op _ => (invocationOf history j o.process).map fun k => .respond k op.value
      | _, _ => none

def events (history : List (Operation Payload)) : List (Event ℕ RegisterOp (Option ℤ)) :=
  (List.range history.length).filterMap (event history)

section

variable {history : List (Operation Payload)} {i j k : ℕ}

/-- A call begins with an invocation that does not fail. -/
theorem event_eq_invoke {op : RegisterOp} (h : event history j = some (.invoke i op)) :
    i = j ∧ ∃ o kvOp error, history[j]? = some o ∧ o.type = .invoke ∧
      o.fields = .kv kvOp error ∧ op = kvOp.onRegister ∧
      ∀ x, completionOf history j o.process = some x → x.type ≠ .fail := by
  rw [event] at h
  split at h
  · cases h
  · next o ho =>
      split at h
      · next kvOp error htype hfields =>
          split at h
          · cases h
          · next hnot =>
              rcases Event.invoke.inj (Option.some.inj h) with ⟨hi, hop⟩
              refine ⟨hi.symm, o, kvOp, error, ho, htype, hfields, hop.symm, ?_⟩
              intro x hx hfail
              rw [hx] at hnot
              simp [hfail] at hnot
      · rcases Option.map_eq_some_iff.mp h with ⟨_, _, heq⟩
        cases heq
      · cases h

/-- A response comes of an `:ok`, after its invocation. -/
theorem event_eq_respond {v : Option ℤ} (h : event history j = some (.respond k v)) :
    ∃ o op error, history[j]? = some o ∧ o.type = .ok ∧ o.fields = .kv op error ∧
      v = op.value ∧ Adjacent history o.process k j := by
  rw [event] at h
  split at h
  · cases h
  · next o ho =>
      split at h
      · split at h
        · cases h
        · cases Option.some.inj h
      · next op error htype hfields =>
          rcases Option.map_eq_some_iff.mp h with ⟨k', hk, heq⟩
          rcases Event.respond.inj heq with ⟨hkk, hv⟩
          rw [hkk] at hk
          exact ⟨o, op, error, ho, htype, hfields, hv.symm, invocationOf_eq_some ⟨o, ho, rfl⟩ hk⟩
      · cases h

theorem event_invoke {o : Operation Payload} {op : Op} {error : Option OpError}
    (ho : history[j]? = some o) (htype : o.type = .invoke) (hfields : o.fields = .kv op error)
    (hnot : ∀ x, completionOf history j o.process = some x → x.type ≠ .fail) :
    event history j = some (.invoke j op.onRegister) := by
  rw [event, ho]
  simp only [htype, hfields]
  rw [if_neg]
  intro hany
  rcases Option.any_eq_true _ _ |>.mp hany with ⟨x, hx, hfail⟩
  exact hnot x hx (by simpa using hfail)

/-- The events are those of the entries. -/
theorem mem_events {e : Event ℕ RegisterOp (Option ℤ)} :
    e ∈ events history ↔ ∃ j, event history j = some e := by
  rw [events, List.mem_filterMap]
  constructor
  · intro h
    rcases h with ⟨j, _, hj⟩
    exact ⟨j, hj⟩
  · intro h
    rcases h with ⟨j, hj⟩
    refine ⟨j, ?_, hj⟩
    rw [List.mem_range]
    by_contra hge
    rw [event, List.getElem?_eq_none (Nat.le_of_not_lt hge)] at hj
    cases hj

/-- A history whose answers answer invocations of reads and writes is one of calls. -/
theorem wellFormed_events (hpaired : ∀ (j : ℕ) x, history[j]? = some x → x.type = .ok →
    ∃ k y op error, Adjacent history x.process k j ∧ history[k]? = some y ∧ y.type = .invoke ∧
      y.fields = .kv op error) : WellFormed (events history) := by
  have hinvoked : ∀ j i, (event history j).bind Event.invoked = some i → i = j := by
    intro j i h
    rcases Option.bind_eq_some_iff.mp h with ⟨e, he, hi⟩
    cases e with
    | invoke i' op =>
        rw [← Option.some.inj hi]
        exact (event_eq_invoke he).1
    | respond k v => cases hi
  have hresponded : ∀ j k, (event history j).bind Event.responded = some k →
      ∃ p, Adjacent history p k j := by
    intro j k h
    rcases Option.bind_eq_some_iff.mp h with ⟨e, he, hk⟩
    cases e with
    | invoke i op => cases hk
    | respond k' v =>
        rw [← Option.some.inj hk]
        rcases event_eq_respond he with ⟨o, _, _, _, _, _, _, hadjacent⟩
        exact ⟨o.process, hadjacent⟩
  refine ⟨?_, ?_, ?_⟩
  · rw [events, List.filterMap_filterMap]
    refine List.pairwise_filterMap.mpr (List.nodup_range.imp ?_)
    intro j j' hne i hi i' hi' heq
    rw [hinvoked j i hi, hinvoked j' i' hi'] at heq
    exact hne heq
  · rw [events, List.filterMap_filterMap]
    refine List.pairwise_filterMap.mpr (List.nodup_range.imp ?_)
    intro j j' hne k hk k' hk' heq
    rcases hresponded j k hk with ⟨p, hadjacent⟩
    rcases hresponded j' k' hk' with ⟨p', hadjacent'⟩
    rw [← heq] at hadjacent'
    -- the invocation has one process
    rcases hadjacent.first with ⟨x, hx, hp⟩
    rcases hadjacent'.first with ⟨x', hx', hp'⟩
    have hsame : p' = p := by
      rw [← hp, ← hp', Option.some.inj (hx.symm.trans hx')]
    rw [hsame] at hadjacent'
    exact hne (hadjacent.second_unique hadjacent')
  · intro k v h
    rcases mem_events.mp h with ⟨j, hj⟩
    rcases event_eq_respond hj with ⟨x, op, error, hx, htype, _, _, hadjacent⟩
    rcases hpaired j x hx htype with ⟨k', y, op', error', hadjacent', hy, hinvoke, hfields⟩
    have hsame := hadjacent.first_unique hadjacent'
    rw [← hsame] at hy
    rcases hadjacent.first with ⟨y', hy', hprocess⟩
    have hyy : y' = y := Option.some.inj (hy'.symm.trans hy)
    rw [hyy] at hprocess
    have hfirst : event history k = some (.invoke k op'.onRegister) := by
      refine event_invoke hy hinvoke hfields ?_
      intro z hz hfail
      rw [hprocess, completionOf_of_adjacent hadjacent hx] at hz
      rw [← Option.some.inj hz, htype] at hfail
      cases hfail
    refine ⟨op'.onRegister, ?_⟩
    have hlt : j < history.length := (List.getElem?_eq_some_iff.mp hx).1
    have hpair : [k, j].Sublist (List.range history.length) :=
      pair_sublist_of_lt (List.getElem?_range (Nat.lt_trans hadjacent.lt hlt))
        (List.getElem?_range hlt) hadjacent.lt
    have hcalls := hpair.filterMap (event history)
    rw [List.filterMap_cons_some hfirst, List.filterMap_cons_some hj] at hcalls
    exact hcalls

end

end Jepsen

end OmnipaxosKv
