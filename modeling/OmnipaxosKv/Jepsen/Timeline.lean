import OmnipaxosKv.Jepsen.Register
import OmnipaxosKv.Jepsen.Workload

/-! # The timeline (`jepsen/checker/timeline.clj`)

The second checker of the test draws the history: each operation is a box, in the column of its
process, from the row of its invocation to that of its completion. On the way invocations and
completions are paired, with an assertion for each that is out of turn.
-/

namespace OmnipaxosKv

namespace Jepsen

/-! ## Pairs -/

/-- An operation with its `:sub-index`. -/
structure SubOp (α : Type) where
  op : Operation α
  subIndex : ℕ
deriving DecidableEq, Repr

variable {α : Type}

/-- `sub-index`, from index `k` on. -/
def subIndexFrom (k : ℕ) (history : List (Operation α)) : List (SubOp α) :=
  (history.zipIdx k).map fun x => ⟨x.1, x.2⟩

def subIndex (history : List (Operation α)) : List (SubOp α) := subIndexFrom 0 history

/-- `[start stop]`; an `[info]` has no stop. `none` where an assertion fails, or where there is
no clause for the type. -/
def pairs (invocations : Name → Option (SubOp α)) :
    List (SubOp α) → Option (List (SubOp α × Option (SubOp α)))
  | [] => some []
  | op :: ops =>
      match op.op.type, invocations op.op.process with
      -- info following invoke
      | .info, some invocation =>
          (pairs (Function.update invocations op.op.process none) ops).map
            ((invocation, some op) :: ·)
      -- unmatched info
      | .info, none => (pairs invocations ops).map ((op, none) :: ·)
      | .invoke, some _ => none
      | .invoke, none => pairs (Function.update invocations op.op.process (some op)) ops
      | .ok, some invocation =>
          (pairs (Function.update invocations op.op.process none) ops).map
            ((invocation, some op) :: ·)
      | .fail, some invocation =>
          (pairs (Function.update invocations op.op.process none) ops).map
            ((invocation, some op) :: ·)
      | _, _ => none

/-! ## Boxes -/

def opLimit : ℕ := 10000

def colWidth : ℕ := 100

def gutterWidth : ℕ := 106

def rowHeight : ℕ := 16

/-- Where a box is, in pixels. -/
structure Box where
  left : ℕ
  width : ℕ
  top : ℕ
  height : ℕ
deriving DecidableEq, Repr

/-- `poly-compare`: keywords come before integers, as their class does. -/
def polyLe : Name → Name → Bool
  | .keyword a, .keyword b => decide (a ≤ b)
  | .keyword _, .int _ => true
  | .int _, .keyword _ => false
  | .int a, .int b => decide (a ≤ b)

/-- The columns, in their order. -/
def columns (history : List (Operation α)) : List Name :=
  (history.map Operation.process).dedup.mergeSort polyLe

def processIndex (history : List (Operation α)) (p : Name) : ℕ := (columns history).idxOf p

/-- A box that ends with `:info` goes on to the last row. -/
def pairToDiv (history : List (Operation α)) : SubOp α × Option (SubOp α) → Box
  | (start, stop) =>
      { left := gutterWidth * processIndex history start.op.process
        width := colWidth
        top := rowHeight * start.subIndex
        height := match stop with
          | some stop =>
              if stop.op.type = .info then rowHeight * (history.length + 1 - start.subIndex)
              else rowHeight * (stop.subIndex - start.subIndex)
          | none => rowHeight }

/-- The boxes of `hiccup`. -/
def boxes (history : List (Operation α)) : Option (List Box) :=
  (pairs (fun _ => none) (subIndex history)).map fun ps =>
    (ps.take opLimit).map (pairToDiv history)

/-- The boxes have no pixel in common. -/
def Box.Apart (b b' : Box) : Prop :=
  b.left + b.width ≤ b'.left ∨ b'.left + b'.width ≤ b.left ∨
    b.top + b.height ≤ b'.top ∨ b'.top + b'.height ≤ b.top

/-! ## Prefixes of a history -/

section

variable {history done rest : List (Operation α)} {p : Name} {x : Operation α}

/-- A history that takes turns took turns before. -/
theorem exists_phase_append {ph : Phase α} (h : phase p (done ++ rest) = some ph) :
    ∃ ph', phase p done = some ph' := by
  induction rest using List.reverseRecOn generalizing ph with
  | nil =>
      rw [List.append_nil] at h
      exact ⟨ph, h⟩
  | append_singleton rest x ih =>
      rw [← List.append_assoc] at h
      by_cases hp : x.process = p
      · rw [phase_append_self hp] at h
        rcases Option.bind_eq_some_iff.mp h with ⟨ph', hph', _⟩
        exact ih hph'
      · rw [phase_append_ne hp] at h
        exact ih h

/-- The next entry of a history whose processes take turns, if only `:invoke` opens. -/
theorem next_entry (hphase : ∃ ph, phase x.process (done ++ x :: rest) = some ph)
    (hopened : ∀ p y, phase p (done ++ [x]) = some (.open y) → y.type = .invoke) :
    (x.type = .invoke ∧ phase x.process done = some .ready ∧
      phase x.process (done ++ [x]) = some (.open x)) ∨
    ((x.type = .ok ∨ x.type = .info ∨ x.type = .fail) ∧
      (∃ y, phase x.process done = some (.open y)) ∧
      ∀ y, phase x.process (done ++ [x]) ≠ some (.open y)) := by
  rcases hphase with ⟨ph, hph⟩
  rw [show done ++ x :: rest = (done ++ [x]) ++ rest by simp] at hph
  rcases exists_phase_append hph with ⟨ph', hph'⟩
  have hstep := hph'
  rw [phase_append_self rfl] at hstep
  rcases Option.bind_eq_some_iff.mp hstep with ⟨before, hbefore, hnext⟩
  cases before with
  | ready =>
      rw [Phase.next] at hnext
      split at hnext
      · next htype =>
          left
          rw [← Option.some.inj hnext] at hph'
          exact ⟨hopened _ _ hph', hbefore, hph'⟩
      · cases hnext
  | «open» y =>
      rw [Phase.next] at hnext
      split at hnext
      · next htype =>
          right
          refine ⟨htype, ⟨y, hbefore⟩, ?_⟩
          intro z hz
          rw [hph', ← Option.some.inj hnext] at hz
          split at hz
          · cases hz
          · cases hz
      · cases hnext
  | crashed => cases hnext

end

/-! ## The pairs of a history -/

/-- `invocation` is what process `p` has open after `done`, its last entry there. -/
structure Tracks (done : List (Operation α)) (p : Name) (invocation : Option (SubOp α)) :
    Prop where
  opened : ∀ x, phase p done = some (.open x) → ∃ k, invocation = some ⟨x, k⟩ ∧
    done[k]? = some x ∧ ∀ (m : ℕ) y, k < m → done[m]? = some y → y.process ≠ p
  closed : (∀ x, phase p done ≠ some (.open x)) → invocation = none

/-- A completion with its invocation. -/
structure Paired (history : List (Operation α)) (start stop : SubOp α) : Prop where
  invoked : history[start.subIndex]? = some start.op
  completed : history[stop.subIndex]? = some stop.op
  invoke : start.op.type = .invoke
  completion : stop.op.type ≠ .invoke
  adjacent : Adjacent history stop.op.process start.subIndex stop.subIndex

theorem getElem?_append_singleton {xs : List (Operation α)} {x y : Operation α} {m : ℕ}
    (h : (xs ++ [x])[m]? = some y) : xs[m]? = some y ∨ (m = xs.length ∧ y = x) := by
  rw [List.getElem?_append] at h
  split at h
  · exact .inl h
  · next hge =>
      rcases List.getElem?_eq_some_iff.mp h with ⟨hlt, hy⟩
      rw [List.length_singleton] at hlt
      rw [List.getElem_singleton] at hy
      exact .inr ⟨by omega, hy.symm⟩

section

variable {done : List (Operation α)} {x : Operation α} {p : Name} {invocation : Option (SubOp α)}

/-- An entry of another process leaves open what is open. -/
theorem Tracks.append_ne (h : Tracks done p invocation) (hp : x.process ≠ p) :
    Tracks (done ++ [x]) p invocation := by
  refine ⟨?_, ?_⟩
  · intro y hy
    rw [phase_append_ne hp] at hy
    rcases h.opened y hy with ⟨k, hk, hget, hlast⟩
    refine ⟨k, hk, ?_, ?_⟩
    · rw [List.getElem?_append_left (List.getElem?_eq_some_iff.mp hget).1]
      exact hget
    · intro m z hm hz
      rcases getElem?_append_singleton hz with hold | ⟨_, hnew⟩
      · exact hlast m z hm hold
      · rw [hnew]
        exact hp
  · rw [phase_append_ne hp]
    exact h.closed

/-- An invocation is open then. -/
theorem tracks_invoke (hopen : phase x.process (done ++ [x]) = some (.open x)) :
    Tracks (done ++ [x]) x.process (some ⟨x, done.length⟩) := by
  refine ⟨?_, fun hnot => absurd hopen (hnot x)⟩
  intro y hy
  rw [hopen] at hy
  rw [← Phase.open.inj (Option.some.inj hy)]
  refine ⟨done.length, rfl, List.getElem?_concat_length, ?_⟩
  intro m z hm hz
  have hlt := (List.getElem?_eq_some_iff.mp hz).1
  rw [List.length_append, List.length_singleton] at hlt
  omega

theorem tracks_complete (hclosed : ∀ y, phase x.process (done ++ [x]) ≠ some (.open y)) :
    Tracks (done ++ [x]) x.process none :=
  ⟨fun y hy => absurd hy (hclosed y), fun _ => rfl⟩

/-- One entry more, and the table of `pairs` tracks the history still. -/
theorem tracks_update {invocations : Name → Option (SubOp α)}
    (h : ∀ p, Tracks done p (invocations p)) (hx : Tracks (done ++ [x]) x.process invocation) :
    ∀ p, Tracks (done ++ [x]) p (Function.update invocations x.process invocation p) := by
  intro p
  by_cases hp : p = x.process
  · rw [hp, Function.update_self]
    exact hx
  · rw [Function.update_of_ne hp]
    exact (h p).append_ne (Ne.symm hp)

end

theorem subIndexFrom_cons (k : ℕ) (x : Operation α) (rest : List (Operation α)) :
    subIndexFrom k (x :: rest) = ⟨x, k⟩ :: subIndexFrom (k + 1) rest := by
  rw [subIndexFrom, List.zipIdx_cons, List.map_cons]
  rfl

/-- By induction on what is left: no assertion fails, and each completion comes with its
invocation. -/
theorem pairs_of_tracks {history : List (Operation α)}
    (hphase : ∀ p, ∃ ph, phase p history = some ph)
    (hopened : ∀ done rest, history = done ++ rest → ∀ p y, phase p done = some (.open y) →
      y.type = .invoke) {done rest : List (Operation α)}
    {invocations : Name → Option (SubOp α)} (hsplit : history = done ++ rest)
    (htracks : ∀ p, Tracks done p (invocations p)) :
    ∃ ps, pairs invocations (subIndexFrom done.length rest) = some ps ∧
      ps.map Prod.snd =
        ((subIndexFrom done.length rest).filter fun x => x.op.type ≠ .invoke).map some ∧
      ∀ q ∈ ps, ∃ stop, q.2 = some stop ∧ Paired history q.1 stop := by
  induction rest generalizing done invocations with
  | nil => exact ⟨[], rfl, rfl, fun q hq => by cases hq⟩
  | cons x rest ih =>
      have hsplit' : history = (done ++ [x]) ++ rest := by
        rw [hsplit]
        simp
      have hnext := next_entry (x := x) (hsplit ▸ hphase x.process)
        (hopened (done ++ [x]) rest hsplit')
      rw [subIndexFrom_cons, pairs]
      rcases hnext with ⟨htype, hready, hopen⟩ | ⟨htype, ⟨y, hy⟩, hclosed⟩
      · -- an invocation is remembered
        have hnone : invocations x.process = none := by
          refine (htracks x.process).closed fun y hy => ?_
          rw [hready] at hy
          cases hy
        rcases ih hsplit' (tracks_update htracks (tracks_invoke hopen)) with
          ⟨ps, hps, hstops, hpaired⟩
        rw [List.length_append, List.length_singleton] at hps hstops
        refine ⟨ps, ?_, ?_, hpaired⟩
        · rw [htype, hnone]
          exact hps
        · rw [List.filter_cons_of_neg (by simpa using htype)]
          exact hstops
      · -- a completion takes it
        rcases (htracks x.process).opened y hy with ⟨k, hk, hget, hlast⟩
        rcases ih hsplit' (tracks_update htracks (tracks_complete hclosed)) with
          ⟨ps, hps, hstops, hpaired⟩
        rw [List.length_append, List.length_singleton] at hps hstops
        have hnot : x.type ≠ .invoke := by
          rcases htype with h | h | h
          all_goals
            rw [h]
            exact fun heq => by cases heq
        have hlt := (List.getElem?_eq_some_iff.mp hget).1
        have hx : history[done.length]? = some x := by
          rw [hsplit, List.getElem?_append_right (Nat.le_refl _), Nat.sub_self]
          rfl
        have hgetk : history[k]? = some y := by
          rw [hsplit, List.getElem?_append_left hlt]
          exact hget
        -- the invocation of the completion is the last entry of its process
        have hfirst : Paired history ⟨y, k⟩ ⟨x, done.length⟩ := by
          refine ⟨hgetk, hx, hopened done (x :: rest) hsplit _ y hy, hnot, hlt, ⟨y, hgetk, ?_⟩,
            ⟨x, hx, rfl⟩, ?_⟩
          · exact (mem_of_phase_open hy).2
          · intro m z hm hmlt hz
            rw [hsplit, List.getElem?_append_left hmlt] at hz
            exact hlast m z hm hz
        -- its pair comes first, for all types of completions
        refine ⟨(⟨y, k⟩, some ⟨x, done.length⟩) :: ps, ?_, ?_, ?_⟩
        · rcases htype with h | h | h
          all_goals
            rw [h, hk]
            exact congrArg (Option.map _) hps
        · rw [List.filter_cons_of_pos (by simpa using hnot), List.map_cons, List.map_cons, hstops]
        · intro q hq
          rcases List.mem_cons.mp hq with heq | hq
          · rw [heq]
            exact ⟨_, rfl, hfirst⟩
          · exact hpaired q hq

/-- The pairs are the completions in their order, each with its invocation. -/
theorem pairs_history {history : List (Operation α)}
    (hphase : ∀ p, ∃ ph, phase p history = some ph)
    (hopened : ∀ done rest, history = done ++ rest → ∀ p y, phase p done = some (.open y) →
      y.type = .invoke) :
    ∃ ps, pairs (fun _ => none) (subIndex history) = some ps ∧
      ps.map Prod.snd = ((subIndex history).filter fun x => x.op.type ≠ .invoke).map some ∧
      ∀ q ∈ ps, ∃ stop, q.2 = some stop ∧ Paired history q.1 stop :=
  pairs_of_tracks hphase hopened (List.nil_append history).symm
    fun _ => ⟨fun _ hx => (by cases hx), fun _ => rfl⟩

/-! ## Boxes do not meet -/

/-- The sub-indices increase. -/
theorem pairwise_subIndex (k : ℕ) (history : List (Operation α)) :
    (subIndexFrom k history).Pairwise fun x y => x.subIndex < y.subIndex := by
  have hmap : (subIndexFrom k history).map SubOp.subIndex = List.range' k history.length := by
    rw [subIndexFrom, List.map_map]
    exact List.zipIdx_map_snd k history
  have hsorted : ((subIndexFrom k history).map SubOp.subIndex).Pairwise (· < ·) := by
    rw [hmap]
    exact List.pairwise_lt_range'
  exact List.pairwise_map.mp hsorted

/-- Processes have different columns. -/
theorem processIndex_inj {history : List (Operation α)} {p p' : Name}
    (hp : ∃ o ∈ history, o.process = p)
    (heq : processIndex history p = processIndex history p') : p = p' := by
  have hmem : p ∈ columns history := by
    rw [columns, List.mem_mergeSort, List.mem_dedup, List.mem_map]
    exact hp
  exact (List.idxOf_inj hmem).mp heq

/-- A process that crashed has no more entries. -/
theorem process_ne_of_crashed {done rest : List (Operation α)} {p : Name} {ph : Phase α}
    (hcrashed : phase p done = some .crashed) (h : phase p (done ++ rest) = some ph) :
    ∀ z ∈ rest, z.process ≠ p := by
  induction rest generalizing done with
  | nil =>
      intro z hz
      cases hz
  | cons x rest ih =>
      rw [show done ++ x :: rest = (done ++ [x]) ++ rest by simp] at h
      have hx : x.process ≠ p := by
        intro hp
        rcases exists_phase_append h with ⟨ph', hph'⟩
        rw [phase_append_self hp, hcrashed] at hph'
        cases hph'
      intro z hz
      rcases List.mem_cons.mp hz with heq | hz
      · rw [heq]
        exact hx
      · refine ih ?_ h z hz
        rw [phase_append_ne hx]
        exact hcrashed

section

variable {history : List (Operation α)} {start stop start' stop' : SubOp α}

/-- After an `:info` of an integer process there is nothing of that process. -/
theorem Paired.last_of_info (h : Paired history start stop)
    (hphase : ∀ p, ∃ ph, phase p history = some ph)
    (hopened : ∀ done rest, history = done ++ rest → ∀ p y, phase p done = some (.open y) →
      y.type = .invoke) (hint : stop.op.process.isInt = true) (hinfo : stop.op.type = .info)
    {m : ℕ} {z : Operation α} (hm : stop.subIndex < m) (hz : history[m]? = some z) :
    z.process ≠ stop.op.process := by
  have hlt := (List.getElem?_eq_some_iff.mp h.completed).1
  have hsplit : history = history.take stop.subIndex ++
      stop.op :: history.drop (stop.subIndex + 1) := by
    rw [← (List.getElem?_eq_some_iff.mp h.completed).2, List.cons_getElem_drop_succ,
      List.take_append_drop]
  have hsplit' : history = (history.take stop.subIndex ++ [stop.op]) ++
      history.drop (stop.subIndex + 1) := by
    rw [List.append_assoc, List.singleton_append]
    exact hsplit
  have hnext := next_entry (hsplit ▸ hphase stop.op.process) (hopened _ _ hsplit')
  have hcrashed : phase stop.op.process (history.take stop.subIndex ++ [stop.op]) =
      some .crashed := by
    rcases hnext with ⟨htype, _⟩ | ⟨_, ⟨y, hy⟩, _⟩
    · rw [hinfo] at htype
      cases htype
    · have hcrashes : stop.op.crashes = true := by
        rw [Operation.crashes, hint, hinfo]
        rfl
      rw [phase_append_self rfl, hy, Option.bind_some, Phase.next, if_pos (.inr (.inl hinfo)),
        if_pos hcrashes]
  rcases hphase stop.op.process with ⟨ph, hph⟩
  rw [hsplit'] at hph
  refine process_ne_of_crashed hcrashed hph z ?_
  have hdrop : (history.drop (stop.subIndex + 1))[m - (stop.subIndex + 1)]? = some z := by
    rw [List.getElem?_drop, ← hz]
    congr 1
    omega
  exact List.mem_of_getElem? hdrop

/-- The boxes of two pairs have no pixel in common. -/
theorem apart_of_paired (hphase : ∀ p, ∃ ph, phase p history = some ph)
    (hopened : ∀ done rest, history = done ++ rest → ∀ p y, phase p done = some (.open y) →
      y.type = .invoke)
    (hint : ∀ o ∈ history, o.type = .invoke → o.process.isInt = true)
    (h : Paired history start stop) (h' : Paired history start' stop')
    (hlt : stop.subIndex < stop'.subIndex) :
    (pairToDiv history (start, some stop)).Apart (pairToDiv history (start', some stop')) := by
  have hprocess : start.op.process = stop.op.process := by
    rcases h.adjacent.first with ⟨x, hx, hp⟩
    rw [← Option.some.inj (h.invoked.symm.trans hx)] at hp
    exact hp
  have hprocess' : start'.op.process = stop'.op.process := by
    rcases h'.adjacent.first with ⟨x, hx, hp⟩
    rw [← Option.some.inj (h'.invoked.symm.trans hx)] at hp
    exact hp
  by_cases hsame : start.op.process = start'.op.process
  · -- in one column the completion comes before the next invocation
    have hnext : stop.subIndex < start'.subIndex := by
      have hstop : stop.op.process = stop'.op.process := by
        rw [← hprocess, hsame, hprocess']
      by_contra hge
      rcases Nat.lt_or_eq_of_le (Nat.le_of_not_lt hge) with hbetween | heq
      · exact h'.adjacent.between _ _ hbetween hlt h.completed hstop
      · have hcompleted := h.completed
        rw [← heq, h'.invoked] at hcompleted
        apply h.completion
        rw [← Option.some.inj hcompleted]
        exact h'.invoke
    -- a box that goes on to the last row is the last of its column
    have hinfo : stop.op.type ≠ .info := by
      intro hinfo
      have hmem := List.mem_of_getElem? h.invoked
      refine h.last_of_info hphase hopened (hprocess ▸ hint _ hmem h.invoke) hinfo hnext
        h'.invoked ?_
      rw [← hsame, hprocess]
    have hstart := h.adjacent.lt
    right
    right
    left
    show rowHeight * start.subIndex + (if stop.op.type = .info then _ else _) ≤
      rowHeight * start'.subIndex
    rw [if_neg hinfo, rowHeight]
    omega
  · have hcolumn : processIndex history start.op.process ≠
        processIndex history start'.op.process := by
      intro heq
      exact hsame (processIndex_inj ⟨_, List.mem_of_getElem? h.invoked, rfl⟩ heq)
    show gutterWidth * processIndex history start.op.process + colWidth ≤
        gutterWidth * processIndex history start'.op.process ∨
      gutterWidth * processIndex history start'.op.process + colWidth ≤
        gutterWidth * processIndex history start.op.process ∨ _
    rw [gutterWidth, colWidth]
    omega

end

/-- All boxes that are drawn are apart. -/
theorem pairwise_apart {history : List (Operation α)}
    (hphase : ∀ p, ∃ ph, phase p history = some ph)
    (hopened : ∀ done rest, history = done ++ rest → ∀ p y, phase p done = some (.open y) →
      y.type = .invoke)
    (hint : ∀ o ∈ history, o.type = .invoke → o.process.isInt = true) :
    ∃ bs, boxes history = some bs ∧ bs.Pairwise Box.Apart := by
  rcases pairs_history hphase hopened with ⟨ps, hps, hstops, hpaired⟩
  refine ⟨(ps.take opLimit).map (pairToDiv history), ?_, ?_⟩
  · rw [boxes, hps]
    rfl
  · have hsorted : (ps.map Prod.snd).Pairwise fun x y =>
        ∀ stop stop', x = some stop → y = some stop' → stop.subIndex < stop'.subIndex := by
      rw [hstops, List.pairwise_map]
      refine ((pairwise_subIndex 0 history).filter _).imp ?_
      intro x y hlt stop stop' hx hy
      rw [← Option.some.inj hx, ← Option.some.inj hy]
      exact hlt
    have hapart : ps.Pairwise fun q q' => (pairToDiv history q).Apart (pairToDiv history q') := by
      refine (List.pairwise_map.mp hsorted).imp_of_mem ?_
      intro q q' hq hq' hlt
      rcases hpaired q hq with ⟨stop, hstop, h⟩
      rcases hpaired q' hq' with ⟨stop', hstop', h'⟩
      have heq : q = (q.1, some stop) := by rw [← hstop]
      have heq' : q' = (q'.1, some stop') := by rw [← hstop']
      rw [heq, heq']
      exact apart_of_paired hphase hopened hint h h' (hlt stop stop' hstop hstop')
    exact List.pairwise_map.mpr (hapart.sublist (List.take_sublist _ _))

/-! ## The timeline of a run -/

namespace Interpreter

variable {γ : Type} {n : ℕ} {G : Generator γ α} {s : Interpreter γ α}

/-- A step writes one entry at most. -/
theorem history_update (G : Generator γ α) (l : RunStep α) (s : Interpreter γ α) :
    (update G l s).history = s.history ∨ ∃ x, (update G l s).history = s.history ++ [x] := by
  have hjournal : ∀ (s : Interpreter γ α) o, (s.journal o).history = s.history ∨
      ∃ x, (s.journal o).history = s.history ++ [x] := by
    intro s o
    rcases s.journal_cases o with ⟨_, hhistory, _⟩ | ⟨_, hhistory, _⟩
    · exact .inr ⟨o, hhistory⟩
    · exact .inl hhistory
  cases l with
  | complete time =>
      rw [update]
      split
      · exact .inl rfl
      · split
        · exact hjournal s _
        · exact .inl rfl
  | ask time draws =>
      rw [update, asked]
      split
      · split
        · exact .inl rfl
        · exact .inl rfl
      · exact .inl rfl
      · exact .inl rfl
      · exact .inl rfl
      · split
        · exact hjournal { s with ctx := { s.ctx with time := time }, clock := time } _
        · exact hjournal { s with ctx := { s.ctx with time := time }, clock := time } _
  | take thread =>
      rw [update]
      split
      · exact .inl rfl
      · exact .inl rfl
      · exact .inl rfl
  | finish thread answer => exact .inl rfl
  | join => exact .inl rfl

/-- A condition on the history of every state holds of each prefix of it. -/
theorem prefixes_reachable {gen : γ} {P : List (Operation α) → Prop}
    (hP : ∀ s, (interpreter G n gen).Reachable s → P s.history)
    (hr : (interpreter G n gen).Reachable s) : ∀ done rest, s.history = done ++ rest → P done := by
  induction hr with
  | @start s hs =>
      intro done rest hsplit
      have hempty : s.history = [] := by
        rw [hs]
        rfl
      rw [hempty] at hsplit
      rw [(List.append_eq_nil_iff.mp hsplit.symm).1, ← hempty]
      exact hP s (.start hs)
  | @step s l hs hg ih =>
      intro done rest hsplit
      have hnext := hP _ (hs.step l hg)
      rcases history_update G l s with hsame | ⟨x, hnew⟩
      · exact ih done rest (hsame.symm.trans hsplit)
      · change (update G l s).history = done ++ rest at hsplit
        cases rest using List.reverseRecOn with
        | nil =>
            rw [List.append_nil] at hsplit
            rw [← hsplit]
            exact hnext
        | append_singleton rest y =>
            rw [hnew, ← List.append_assoc] at hsplit
            exact ih done rest (List.append_inj_left' hsplit rfl)

section

variable {n : ℕ} {s : Interpreter (Gen Payload) Payload} {timeLimit : ℚ} {i : ℕ}

/-- In a test the processes take turns, only `:invoke` opens, and only integers invoke. -/
theorem turns_reachable (hpos : 0 < timeLimit)
    (hr : (interpreter (Gen.generator Payload) n (omnipaxosTest timeLimit i)).Reachable s) :
    (∀ p, ∃ ph, phase p s.history = some ph) ∧
    (∀ done rest, s.history = done ++ rest → ∀ p y, phase p done = some (.open y) →
      y.type = .invoke) ∧
    ∀ o ∈ s.history, o.type = .invoke → o.process.isInt = true := by
  rcases ofTest_reachable hpos hr with ⟨h, _, hsound⟩
  refine ⟨hsound.exists_phase, ?_, fun o ho htype => (h.client o ho htype).process⟩
  refine prefixes_reachable
    (P := fun done => ∀ p y, phase p done = some (.open y) → y.type = .invoke) ?_ hr
  intro s hs
  exact (ofTest_reachable hpos hs).1.opened

/-- The timeline of a test can be drawn at any time: no assertion fails, the pairs are the
completions in their order, each with its own invocation, and no two boxes meet. -/
theorem timeline_sound (timeLimit : ℚ) (hpos : 0 < timeLimit) (i n : ℕ) :
    ∀ s, (interpreter (Gen.generator Payload) n (omnipaxosTest timeLimit i)).Reachable s →
      (∃ ps, pairs (fun _ => none) (subIndex s.history) = some ps ∧
        ps.map Prod.snd = ((subIndex s.history).filter fun x => x.op.type ≠ .invoke).map some ∧
        ∀ q ∈ ps, ∃ stop, q.2 = some stop ∧ Paired s.history q.1 stop) ∧
      ∃ bs, boxes s.history = some bs ∧ bs.Pairwise Box.Apart := by
  intro s hr
  rcases turns_reachable hpos hr with ⟨hphase, hopened, hint⟩
  exact ⟨pairs_history hphase hopened, pairwise_apart hphase hopened hint⟩

/-- One box, of one row. -/
theorem timeline_sound_write :
    let s := minuteTest.after (.start 1 (omnipaxosTest 60 1)) writeRun
    boxes s.history = some [⟨0, 100, 0, 16⟩] ∧
      ∃ ps, pairs (fun _ => none) (subIndex s.history) = some ps ∧
        ∀ q ∈ ps, ∃ stop, q.2 = some stop ∧ Paired s.history q.1 stop := by
  intro s
  have hboxes : boxes s.history = some [⟨0, 100, 0, 16⟩] := by decide +kernel
  rcases (timeline_sound 60 (by decide) 1 1 s writeRun_reachable).1 with ⟨ps, hps, _, hpaired⟩
  exact ⟨hboxes, ps, hps, hpaired⟩

end

end Interpreter

end Jepsen

end OmnipaxosKv
