import OmnipaxosKv.Jepsen.Journal

/-! # Runs of plain generators

Maps mostly leave the process and the time of an operation to the generator. A generator of
such maps never ends a run with an exception: what it emits can be dispatched at once, at the
time it was asked. And of `phases` each waits for those before it.
-/

namespace OmnipaxosKv

namespace Jepsen

variable {α : Type}

/-- The process and the time are filled in, and the type is one of an invocation. -/
structure OpMap.Plain (m : OpMap α) : Prop where
  time : m.time = none
  process : m.process = none
  type : m.type.getD .invoke = .invoke ∨ m.type.getD .invoke = .info ∨
    m.type.getD .invoke = .sleep ∨ m.type.getD .invoke = .log

/-- The operation is that of a map, for the process of a free thread, now. -/
def Dispatched (P : OpMap α → Prop) (ctx : Context) (time : ℕ) (o : Operation α) : Prop :=
  ∃ m, P m ∧ o.type = m.type.getD .invoke ∧ o.fields = m.fields ∧ o.endProcess = m.endProcess ∧
    o.time = time ∧ ∃ i < ctx.threadCount, ctx.freeThreads i = true ∧
      o.process = ctx.threadIndexToProcess i

namespace Interpreter

variable {P : OpMap α → Prop} {n : ℕ} {s : Interpreter (Gen α) α}

/-! ## Verdicts -/

/-- The process of a thread is executed by it. -/
theorem processToThread_of_lt {ctx : Context} (h : ctx.Sound) {i : ℕ} (hi : i < ctx.threadCount) :
    ∃ thread, ctx.translationTable.indexToName i = some thread ∧
      ctx.processToThread (ctx.threadIndexToProcess i) = some thread ∧
      ctx.translationTable.nameToIndex thread = i := by
  rcases TranslationTable.exists_indexToName hi with ⟨thread, hname⟩
  refine ⟨thread, hname, ?_, TranslationTable.nameToIndex_of_indexToName h.named hname⟩
  rw [h.executes i hi, hname]

/-- What the generator emits passes its validation. -/
theorem validate_of_emits (hctx : s.ctx.Sound) (hplain : ∀ m, P m → m.Plain) {time : ℕ}
    {o : Operation α} (h : Gen.Emits P { s.ctx with time := time } o) :
    validate { s.ctx with time := time } o = true := by
  rcases h with ⟨m, hm, htype, _, _, _, i, hi, hfree, hprocess⟩
  rw [(hplain m hm).process, Option.getD_none] at hprocess
  rcases processToThread_of_lt hctx hi with ⟨thread, _, hthread, hindex⟩
  have htype' : (o.type == .invoke || o.type == .info || o.type == .sleep || o.type == .log) =
      true := by
    rw [htype]
    rcases (hplain m hm).type with h | h | h | h
    all_goals
      rw [h]
      rfl
  have hfree' : Context.threadFree { s.ctx with time := time }
      (Context.processToThread { s.ctx with time := time } o.process) = true := by
    show s.ctx.freeThreads (s.ctx.indexOf (s.ctx.processToThread o.process)) = true
    rw [hprocess]
    show s.ctx.freeThreads (s.ctx.indexOf
      (s.ctx.processToThread (s.ctx.threadIndexToProcess i))) = true
    rw [hthread]
    show s.ctx.freeThreads (s.ctx.translationTable.nameToIndex thread) = true
    rw [hindex]
    exact hfree
  rw [validate, htype', hfree']
  rfl

/-- A verdict comes from what the generator returns. -/
theorem verdict_cases (G : Generator (Gen α) α) (time : ℕ) (draws : Draws) :
    (s.verdict G time draws = .exhausted ∧
      G.op s.gen { s.ctx with time := time } draws = none) ∨
    (∃ gen', s.verdict G time draws = .pending ∧
      G.op s.gen { s.ctx with time := time } draws = some (.pending, gen')) ∨
    ∃ o gen', G.op s.gen { s.ctx with time := time } draws = some (.op o, gen') ∧
      s.verdict G time draws = if validate { s.ctx with time := time } o then
        if time < o.time then .wait else .dispatch o gen'
      else .invalid := by
  rw [verdict]
  cases hop : G.op s.gen { s.ctx with time := time } draws with
  | none => exact .inl ⟨rfl, rfl⟩
  | some r =>
      rcases r with ⟨_ | o, gen'⟩
      · exact .inr (.inl ⟨gen', rfl, rfl⟩)
      · exact .inr (.inr ⟨o, gen', rfl, rfl⟩)

/-- No verdict on plain maps is `invalid`. -/
theorem verdict_ne_invalid (hctx : s.ctx.Sound) (hplain : ∀ m, P m → m.Plain)
    (hgen : s.gen.All P) (time : ℕ) (draws : Draws) :
    s.verdict (Gen.generator α) time draws ≠ .invalid := by
  rcases verdict_cases (s := s) (Gen.generator α) time draws with ⟨heq, _⟩ | ⟨_, heq, _⟩ |
    ⟨o, gen', hop, heq⟩
  · rw [heq]
    exact fun h => by cases h
  · rw [heq]
    exact fun h => by cases h
  · have hemits := (Gen.keeps_op hgen { s.ctx with time := time } draws _ _ hop).2 o rfl
    rw [heq, if_pos (validate_of_emits hctx hplain hemits)]
    split
    · exact fun h => by cases h
    · exact fun h => by cases h

/-- An operation is dispatched with the time at which the generator was asked. -/
theorem dispatched_of_verdict (hplain : ∀ m, P m → m.Plain) (hgen : s.gen.All P) {time : ℕ}
    {draws : Draws} {o : Operation α} {gen' : Gen α}
    (hverdict : s.verdict (Gen.generator α) time draws = .dispatch o gen') :
    Dispatched P s.ctx time o ∧ gen'.All P := by
  rcases verdict_eq_dispatch hverdict with ⟨_, htime, hop⟩
  have hkept := Gen.keeps_op hgen { s.ctx with time := time } draws _ _ hop
  rcases hkept.2 o rfl with ⟨m, hm, htype, hfields, hend, hlate, i, hi, hfree, hprocess⟩
  rw [(hplain m hm).time, Option.getD_none] at hlate
  rw [(hplain m hm).process, Option.getD_none] at hprocess
  have hnow : o.time = time := Nat.le_antisymm (by omega) hlate
  exact ⟨⟨m, hm, htype, hfields, hend, hnow, i, hi, hfree, hprocess⟩, hkept.1⟩

/-! ## Rounds -/

theorem status_journal (o : Operation α) : (s.journal o).status = s.status := by
  rw [journal]
  split
  · rfl
  · rfl

/-- Messages and pauses are not written. -/
theorem journal_silent {o : Operation α} (h : goesInHistory o.type = false) : s.journal o = s := by
  rw [journal, h]
  rfl

theorem history_journal {o : Operation α} (h : goesInHistory o.type = true) :
    (s.journal o).history = s.history ++ [o] := by
  rw [journal, if_pos h]

theorem clock_journal (o : Operation α) : (s.journal o).clock = s.clock := by
  rw [journal]
  split
  · rfl
  · rfl

theorem workers_journal (o : Operation α) : (s.journal o).workers = s.workers := by
  rw [journal]
  split
  · rfl
  · rfl

theorem completions_journal (o : Operation α) : (s.journal o).completions = s.completions := by
  rw [journal]
  split
  · rfl
  · rfl

/-- The clock is read. -/
def read (s : Interpreter (Gen α) α) (time : ℕ) : Interpreter (Gen α) α :=
  { s with ctx := { s.ctx with time := time }, clock := time }

/-- A plain generator does not throw: nothing happens, or all exit, or an operation goes to its
worker. -/
theorem asked_cases (h : s.Sound n) (hplain : ∀ m, P m → m.Plain) (hgen : s.gen.All P) (time : ℕ)
    (draws : Draws) :
    ((∀ o gen', s.verdict (Gen.generator α) time draws ≠ .dispatch o gen') ∧
      (s.asked (Gen.generator α) time draws = s.read time ∨
        (s.outstanding = 0 ∧ s.asked (Gen.generator α) time draws =
          { s.read time with
            workers := fun name => tellExit (s.workers name), status := .stopping }))) ∨
    ∃ o gen' thread, s.verdict (Gen.generator α) time draws = .dispatch o gen' ∧
      s.ctx.processToThread o.process = some thread ∧
      s.asked (Gen.generator α) time draws =
        (s.read time).dispatch (Gen.generator α) o gen' thread := by
  rw [asked]
  cases hverdict : s.verdict (Gen.generator α) time draws with
  | exhausted =>
      left
      refine ⟨(fun _ _ heq => by cases heq), ?_⟩
      by_cases hout : 0 < s.outstanding
      · left
        exact if_pos hout
      · right
        refine ⟨by omega, ?_⟩
        exact if_neg hout
  | pending => exact .inl ⟨(fun _ _ heq => by cases heq), .inl rfl⟩
  | wait => exact .inl ⟨(fun _ _ heq => by cases heq), .inl rfl⟩
  | invalid => exact absurd hverdict (verdict_ne_invalid h.ctx hplain hgen time draws)
  | dispatch o gen' =>
      right
      rcases (dispatched_of_verdict hplain hgen hverdict).1 with
        ⟨_, _, _, _, _, _, i, hi, _, hprocess⟩
      rcases processToThread_of_lt h.ctx hi with ⟨thread, _, hthread, _⟩
      have hthread' : s.ctx.processToThread o.process = some thread := by
        rw [hprocess]
        exact hthread
      refine ⟨o, gen', thread, rfl, hthread', ?_⟩
      simp only [hthread']
      rfl

/-- What comes back has been answered. -/
theorem Sound.type_ne_invoke {γ : Type} {s : Interpreter γ α} (h : s.Sound n) {o : Operation α}
    (ho : o ∈ s.completions) : o.type ≠ .invoke := by
  intro htype
  have hgoes : goesInHistory o.type = true := by
    rw [htype]
    rfl
  rcases (h.completing o ho).2 hgoes with h | h | h
  all_goals
    rw [htype] at h
    cases h

/-- The round in which an operation comes back. -/
theorem complete_cases {γ : Type} {G : Generator γ α} {s : Interpreter γ α} (h : s.Sound n)
    {time : ℕ} (hg : guard G (.complete time) s) :
    ∃ o rest i thread, s.completions = o :: rest ∧ i < s.ctx.threadCount ∧
      s.ctx.translationTable.indexToName i = some thread ∧
      o.process = s.ctx.threadIndexToProcess i ∧
      update G (.complete time) s = s.completed G o rest time thread := by
  cases hback : s.completions with
  | nil => exact absurd hback hg.2.2
  | cons o rest =>
      rcases h.back hback with ⟨i, thread, hi, hname, hprocess, _⟩
      have hthread : s.ctx.processToThread o.process = some thread := by
        rw [hprocess, h.ctx.executes i hi, hname]
      refine ⟨o, rest, i, thread, rfl, hi, hname, hprocess, ?_⟩
      simp only [update, hback, hthread]

/-! ## The invariant -/

/-- The run of a plain generator: no exception, invocations as the maps say, and times in
order. -/
structure Planned (P : OpMap α → Prop) (s : Interpreter (Gen α) α) : Prop where
  safe : s.status ≠ .thrown
  gen : s.gen.All P
  invoked : ∀ o ∈ s.history, o.type = .invoke →
    ∃ m, P m ∧ o.fields = m.fields ∧ o.endProcess = m.endProcess
  sorted : s.history.Pairwise fun o o' => o.time ≤ o'.time
  past : ∀ o ∈ s.history, o.time ≤ s.clock

theorem planned_start {gen : Gen α} (hgen : gen.All P) : (start n gen).Planned P := by
  refine ⟨(fun h => by cases h), hgen, ?_, List.Pairwise.nil, ?_⟩
  · intro o ho
    cases ho
  · intro o ho
    cases ho

/-- An entry with the time of the clock is written. -/
theorem Planned.journal (h : s.Planned P) {time : ℕ} (hclock : s.clock ≤ time) {o : Operation α}
    (htime : o.time = time)
    (ho : o.type = .invoke → ∃ m, P m ∧ o.fields = m.fields ∧ o.endProcess = m.endProcess) :
    (∀ x ∈ (s.journal o).history, x.type = .invoke →
      ∃ m, P m ∧ x.fields = m.fields ∧ x.endProcess = m.endProcess) ∧
    (s.journal o).history.Pairwise (fun x y => x.time ≤ y.time) ∧
    ∀ x ∈ (s.journal o).history, x.time ≤ time := by
  refine ⟨?_, ?_, ?_⟩
  · intro x hx hinvoke
    rcases mem_journal hx with hold | hnew
    · exact h.invoked x hold hinvoke
    · rw [hnew] at hinvoke ⊢
      exact ho hinvoke
  · rcases s.journal_cases o with ⟨_, hhistory, _⟩ | ⟨_, hhistory, _⟩
    · rw [hhistory, List.pairwise_append]
      refine ⟨h.sorted, List.pairwise_singleton _ o, ?_⟩
      intro x hx y hy
      rw [List.mem_singleton.mp hy, htime]
      exact Nat.le_trans (h.past x hx) hclock
    · rw [hhistory]
      exact h.sorted
  · intro x hx
    rcases mem_journal hx with hold | hnew
    · exact Nat.le_trans (h.past x hold) hclock
    · rw [hnew, htime]

/-- Nothing is written. -/
theorem Planned.later (h : s.Planned P) {s' : Interpreter (Gen α) α} (hsafe : s'.status ≠ .thrown)
    (hgen : s'.gen = s.gen) (hhistory : s'.history = s.history) (hclock : s.clock ≤ s'.clock) :
    s'.Planned P := by
  refine ⟨hsafe, ?_, ?_, ?_, ?_⟩
  · rw [hgen]
    exact h.gen
  · rw [hhistory]
    exact h.invoked
  · rw [hhistory]
    exact h.sorted
  · intro o ho
    rw [hhistory] at ho
    exact Nat.le_trans (h.past o ho) hclock

/-- The loop takes a completion, with the time of its clock. -/
theorem Planned.complete (h : s.Planned P) (hsound : s.Sound n) {time : ℕ}
    (hg : guard (Gen.generator α) (.complete time) s) :
    (update (Gen.generator α) (.complete time) s).Planned P := by
  rcases complete_cases hsound hg with ⟨o, rest, i, thread, hback, _, _, _, hupdate⟩
  have hmem : o ∈ s.completions := by
    rw [hback]
    exact List.mem_cons_self
  have hnot := hsound.type_ne_invoke hmem
  have hjournal := h.journal hg.2.1 (o := { s.stamp o with time := time }) rfl
    fun htype => absurd htype hnot
  rw [hupdate]
  refine ⟨?_, ?_, hjournal.1, hjournal.2.1, hjournal.2.2⟩
  · show (s.journal _).status ≠ .thrown
    rw [status_journal]
    exact h.safe
  · exact Gen.all_update h.gen _ _

/-- A round writes an invocation of the generator, or nothing. -/
theorem Planned.ask (h : s.Planned P) (hsound : s.Sound n) (hplain : ∀ m, P m → m.Plain) {time : ℕ}
    {draws : Draws} (hg : guard (Gen.generator α) (.ask time draws) s) :
    (update (Gen.generator α) (.ask time draws) s).Planned P := by
  have hread : (s.read time).Planned P := h.later h.safe rfl rfl hg.2.1
  show (s.asked (Gen.generator α) time draws).Planned P
  rcases asked_cases hsound hplain h.gen time draws with ⟨_, heq | ⟨_, heq⟩⟩ |
    ⟨o, gen', thread, hverdict, _, heq⟩
  · rw [heq]
    exact hread
  · rw [heq]
    exact hread.later (fun hstatus => by cases hstatus) rfl rfl (Nat.le_refl _)
  · rcases dispatched_of_verdict hplain h.gen hverdict with ⟨hdispatched, hgen⟩
    rcases hdispatched with ⟨m, hm, _, hfields, hend, htime, _⟩
    have hjournal := hread.journal (Nat.le_refl _) (o := (s.read time).stamp o) htime
      fun _ => ⟨m, hm, hfields, hend⟩
    rw [heq]
    refine ⟨?_, ?_, hjournal.1, hjournal.2.1, ?_⟩
    · show ((s.read time).journal _).status ≠ .thrown
      rw [status_journal]
      exact h.safe
    · exact Gen.all_update hgen _ _
    · intro x hx
      have hle := hjournal.2.2 x hx
      show x.time ≤ ((s.read time).journal _).clock
      rw [clock_journal]
      exact hle

/-- Every run of a plain generator is planned, and sound. -/
theorem planned_reachable (hplain : ∀ m, P m → m.Plain) {gen : Gen α} (hgen : gen.All P)
    (hr : (interpreter (Gen.generator α) n gen).Reachable s) : s.Planned P ∧ s.Sound n := by
  suffices hplanned : s.Planned P from ⟨hplanned, sound_reachable hr hplanned.safe⟩
  refine (interpreter (Gen.generator α) n gen).invariant (Planned P) ?_ ?_ s hr
  · intro s hs
    rw [hs]
    exact planned_start hgen
  · intro l s hs hg h
    have hsound := sound_reachable hs h.safe
    cases l with
    | complete time => exact h.complete hsound hg
    | ask time draws => exact h.ask hsound hplain hg
    | take thread =>
        show (update (Gen.generator α) (.take thread) s).Planned P
        rw [update]
        split
        · exact h
        · exact h.later h.safe rfl rfl (Nat.le_refl _)
        · exact h.later h.safe rfl rfl (Nat.le_refl _)
    | finish thread answer => exact h.later h.safe rfl rfl (Nat.le_refl _)
    | join => exact h.later (fun hstatus => by cases hstatus) rfl rfl (Nat.le_refl _)

end Interpreter

end Jepsen

end OmnipaxosKv
