import Mathlib.Data.List.Basic
import Mathlib.Data.List.Infix
import OmnipaxosKv.Lib.Machine

/-! # Writer actors

The three connection types (`PeerConnection`, `ClientConnection`,
`ServerConnection`) spawn the same writer task: drain a batch from the queue of
outgoing messages, feed its messages to the framed transport one by one, flush,
repeat. They differ in two places, which `Actor` lists: whether the queue is
bounded, and what the task does when `feed` fails.

`writers_leave_no_gap_iff` says when the messages encoded onto the connection are
at all times a prefix of the accepted ones.
-/

namespace OmnipaxosKv

/-- The control flow after a failed `feed`: `break` leaves the inner loop only, so the
task goes on to flush and to the next batch; `return` ends the task. -/
inductive OnFeedError where
  | breakBatch
  | returnTask
deriving DecidableEq, Repr

/-- What distinguishes one writer task from another. -/
structure Actor where
  batchSize : ℕ
  /-- the bound of the outgoing queue, `none` for an unbounded channel -/
  capacity : Option ℕ
  onFeedError : OnFeedError
deriving DecidableEq, Repr

/-- `PeerConnection::new` (server to server). -/
def PeerConnection.writerTask (batchSize : ℕ) : Actor := ⟨batchSize, none, .breakBatch⟩

/-- `ClientConnection::new` (server to client). -/
def ClientConnection.writerTask (batchSize : ℕ) : Actor := ⟨batchSize, none, .returnTask⟩

/-- `ServerConnection::new` (client to server). -/
def ServerConnection.writerTask (batchSize : ℕ) : Actor := ⟨batchSize, some batchSize, .breakBatch⟩

/-- Where the task is: in `recv_many`, in the loop over the batch, in `flush`, or gone. -/
inductive WriterPhase where
  | receiving
  | feeding
  | flushing
  | ended
deriving DecidableEq, Repr

/-- The queue of outgoing messages and the task that drains it. -/
structure Writer (α : Type) where
  queue : List α
  buffer : List α
  phase : WriterPhase
  /-- history: the messages `send` accepted -/
  accepted : List α
  /-- history: the messages encoded onto the connection -/
  wire : List α
deriving DecidableEq, Repr

namespace Writer

variable {α : Type}

def new : Writer α := ⟨[], [], .receiving, [], []⟩

/-- The task is gone: its receiver and everything it held are dropped. -/
def finish (w : Writer α) : Writer α :=
  { w with queue := [], buffer := [], phase := .ended }

/-- The queue can take one more message. -/
def HasRoom (a : Actor) (w : Writer α) : Prop := ∀ cap ∈ a.capacity, w.queue.length < cap

instance (a : Actor) (w : Writer α) : Decidable (w.HasRoom a) :=
  inferInstanceAs (Decidable (∀ cap ∈ a.capacity, w.queue.length < cap))

/-- `outgoing_messages.send`, once there is room: an error iff the receiver is gone. -/
def send (m : α) (w : Writer α) : Option (Writer α) :=
  if w.phase = .ended then none
  else some { w with queue := w.queue ++ [m], accepted := w.accepted ++ [m] }

/-- `recv_many` returns with `n` messages. -/
def recvMany (n : ℕ) (w : Writer α) : Writer α :=
  { w with queue := w.queue.drop n, buffer := w.queue.take n, phase := .feeding }

/-- One turn of the loop over the batch, with the result of `feed`. -/
def feed (a : Actor) (ok : Bool) (w : Writer α) : Writer α :=
  match w.buffer with
  | [] => w
  | m :: rest =>
      if ok then
        { w with
          wire := w.wire ++ [m]
          buffer := rest
          phase := if rest.isEmpty then .flushing else .feeding }
      else
        match a.onFeedError with
        -- the `Drain` iterator is dropped, and with it the rest of the batch
        | .breakBatch => { w with buffer := [], phase := .flushing }
        | .returnTask => w.finish

/-- The result of `flush`. -/
def flush (ok : Bool) (w : Writer α) : Writer α :=
  if ok then { w with phase := .receiving } else w.finish

end Writer

/-- The steps of a writer task and of the callers of `send`. -/
inductive WriterEvent (α : Type) where
  | send (m : α)
  | recvMany (n : ℕ)
  | feed (ok : Bool)
  | flush (ok : Bool)
deriving DecidableEq, Repr

namespace Writer

variable {α : Type}

/-- A writer task and its callers. Accepted messages are numbered, so that the wire can
be compared with the accepted sequence position by position even where messages repeat. -/
def system (α : Type) (a : Actor) : Machine (Writer (ℕ × α)) (WriterEvent α) where
  init := fun w => w = new
  guard
    | .send _, w => w.phase ≠ .ended ∧ w.HasRoom a
    | .recvMany n, w => w.phase = .receiving ∧ 1 ≤ n ∧ n ≤ a.batchSize ∧ n ≤ w.queue.length
    | .feed _, w => w.phase = .feeding ∧ w.buffer.isEmpty = false
    | .flush _, w => w.phase = .flushing
  update
    | .send m, w => (w.send (w.accepted.length, m)).getD w
    | .recvMany n, w => w.recvMany n
    | .feed ok, w => w.feed a ok
    | .flush ok, w => w.flush ok

instance (a : Actor) (e : WriterEvent α) (w : Writer (ℕ × α)) :
    Decidable ((system α a).guard e w) := by
  cases e <;> unfold system <;> infer_instance

/-- The messages on the wire are at all times a prefix of the accepted ones. -/
def NoGap (a : Actor) (es : List (WriterEvent α)) : Prop :=
  ∀ es', es' <+: es →
    ((system α a).after new es').wire <+: ((system α a).after new es').accepted

/-- A failed `feed` is followed, at some later time, by a successful one. -/
def FeedsAfterFailure (es : List (WriterEvent α)) : Prop :=
  List.Sublist [WriterEvent.feed false, WriterEvent.feed true] es

instance [DecidableEq α] (es : List (WriterEvent α)) : Decidable (FeedsAfterFailure es) :=
  inferInstanceAs (Decidable (List.Sublist _ _))

theorem pair_sublist_concat {β : Type} {x y z : β} {l : List β} :
    List.Sublist [x, y] (l ++ [z]) ↔ List.Sublist [x, y] l ∨ x ∈ l ∧ y = z := by
  constructor
  · intro h
    obtain ⟨l₁, l₂, heq, h₁, h₂⟩ := List.sublist_append_iff.mp h
    rcases l₂ with _ | ⟨y', _ | ⟨z', l₂⟩⟩
    · left
      rw [List.append_nil] at heq
      exact heq ▸ h₁
    · right
      have hsplit : [x] ++ [y] = l₁ ++ [y'] := heq
      obtain ⟨rfl, hy⟩ := List.append_inj' hsplit rfl
      obtain rfl : y = y' := by simpa using hy
      exact ⟨by simpa using h₁, by simpa using h₂⟩
    · exact absurd h₂.length_le (by simp)
  · rintro (h | ⟨hx, rfl⟩)
    · exact h.trans (List.sublist_append_left _ _)
    · exact (List.singleton_sublist.mpr hx).append (List.Sublist.refl [y])

/-! ## What a run has dropped

Nothing so far (`Intact`), or something after what is on the wire (`Gapped`). The task
may also be gone, and then nothing is written any more. -/

/-- Nothing was dropped, unless the task is gone. -/
def Intact (w : Writer α) : Prop :=
  w.wire ++ w.buffer ++ w.queue = w.accepted ∨ w.phase = .ended ∧ w.wire <+: w.accepted

/-- A nonempty piece `d` between the wire and what is still held was dropped, or the
task is gone. -/
def Gapped (w : Writer α) : Prop :=
  (∃ d, d ≠ [] ∧ w.wire ++ d ++ w.buffer ++ w.queue = w.accepted) ∨
    w.phase = .ended ∧ w.wire <+: w.accepted

theorem Intact.prefix_accepted {w : Writer α} (h : w.Intact) : w.wire <+: w.accepted := by
  rcases h with h | ⟨_, h⟩
  · exact ⟨w.buffer ++ w.queue, by rw [← h, List.append_assoc]⟩
  · exact h

theorem Gapped.prefix_accepted {w : Writer α} (h : w.Gapped) : w.wire <+: w.accepted := by
  rcases h with ⟨d, _, h⟩ | ⟨_, h⟩
  · exact ⟨d ++ w.buffer ++ w.queue, by rw [← h]; simp⟩
  · exact h

/-- The accepted messages carry their positions. -/
def Numbered (w : Writer (ℕ × α)) : Prop := w.accepted.map Prod.fst = List.range w.accepted.length

/-- The buffer holds messages only while the task feeds them. -/
def BatchInLoop (w : Writer α) : Prop := w.phase ≠ .feeding → w.buffer = []

section

variable {a : Actor} {w : Writer (ℕ × α)}

/-- Every event leaves the accepted messages numbered. -/
theorem numbered_update (e : WriterEvent α) (h : w.Numbered) :
    ((system α a).update e w).Numbered := by
  rcases e with m | n | ok | ok
  · by_cases hp : w.phase = .ended
    · simpa [system, send, hp] using h
    · simp only [system, send, hp, if_false, Option.getD_some, Numbered, List.map_append,
        List.map_cons, List.map_nil, List.length_append, List.length_cons, List.length_nil,
        List.range_succ]
      rw [h]
  · exact h
  · simp only [system, feed]
    split
    · exact h
    · split
      · exact h
      · split <;> exact h
  · simp only [system, flush]
    split <;> exact h

/-- Every event leaves the batch to the loop. -/
theorem batchInLoop_update (e : WriterEvent α) (hg : (system α a).guard e w)
    (h : w.BatchInLoop) : ((system α a).update e w).BatchInLoop := by
  rcases e with m | n | ok | ok
  · simpa [system, send, hg.1, BatchInLoop] using h
  · simp [system, recvMany, BatchInLoop]
  · simp only [system, feed, BatchInLoop]
    split
    · next hb => simp [hb]
    · next m rest hb =>
        rcases rest with _ | ⟨m', rest⟩ <;> cases ok <;> cases a.onFeedError <;> simp [finish]
  · have hb : w.buffer = [] := h (by rw [show w.phase = .flushing from hg]; decide)
    cases ok <;> simp [system, flush, finish, BatchInLoop, hb]

/-- Every step but a failed `feed` keeps a run intact. -/
theorem intact_update (e : WriterEvent α) (hg : (system α a).guard e w) (hb : w.BatchInLoop)
    (he : e ≠ .feed false) (h : w.Intact) : ((system α a).update e w).Intact := by
  have hpre := h.prefix_accepted
  rcases h with h | ⟨hend, _⟩
  · rcases e with m | n | ok | ok
    · left
      simp [system, send, hg.1, ← h]
    · left
      have hnil : w.buffer = [] := hb (by rw [hg.1]; decide)
      simpa [system, recvMany, hnil] using h
    · obtain rfl : ok = true := by simpa using he
      left
      simp only [system, feed]
      split
      · exact h
      · next m rest hbuf => simpa [hbuf] using h
    · have hnil : w.buffer = [] := hb (by rw [show w.phase = .flushing from hg]; decide)
      cases ok
      · exact .inr ⟨rfl, hpre⟩
      · left
        simpa [system, flush, hnil] using h
  · rcases e with m | n | ok | ok
    · exact absurd hend hg.1
    · exact absurd (hg.1.symm.trans hend) (by decide)
    · exact absurd (hg.1.symm.trans hend) (by decide)
    · exact absurd ((show w.phase = .flushing from hg).symm.trans hend) (by decide)

/-- Every step but a successful `feed` leaves the gap where it is. -/
theorem gapped_update (e : WriterEvent α) (hg : (system α a).guard e w) (hb : w.BatchInLoop)
    (ha : a.onFeedError = .breakBatch) (he : e ≠ .feed true) (h : w.Gapped) :
    ((system α a).update e w).Gapped := by
  have hpre := h.prefix_accepted
  rcases h with ⟨d, hd, h⟩ | ⟨hend, _⟩
  · rcases e with m | n | ok | ok
    · left
      refine ⟨d, hd, ?_⟩
      simp [system, send, hg.1, ← h]
    · left
      have hnil : w.buffer = [] := hb (by rw [hg.1]; decide)
      refine ⟨d, hd, ?_⟩
      simpa [system, recvMany, hnil] using h
    · obtain rfl : ok = false := by simpa using he
      left
      simp only [system, feed, ha]
      split
      · exact ⟨d, hd, h⟩
      · -- the rest of the batch joins what was dropped
        next m rest hbuf =>
          refine ⟨d ++ w.buffer, by simp [hd], ?_⟩
          simpa using h
    · have hnil : w.buffer = [] := hb (by rw [show w.phase = .flushing from hg]; decide)
      cases ok
      · exact .inr ⟨rfl, hpre⟩
      · left
        exact ⟨d, hd, by simpa [system, flush] using h⟩
  · rcases e with m | n | ok | ok
    · exact absurd hend hg.1
    · exact absurd (hg.1.symm.trans hend) (by decide)
    · exact absurd (hg.1.symm.trans hend) (by decide)
    · exact absurd ((show w.phase = .flushing from hg).symm.trans hend) (by decide)

/-- A failed `feed` drops the rest of the batch and opens a gap. -/
theorem gapped_of_feed_false (hg : (system α a).guard (.feed false) w)
    (ha : a.onFeedError = .breakBatch) (h : w.Intact) :
    ((system α a).update (.feed false) w).Gapped := by
  rcases h with h | ⟨hend, _⟩
  · left
    obtain ⟨m, rest, hbuf⟩ := List.exists_cons_of_ne_nil (List.isEmpty_eq_false_iff.mp hg.2)
    refine ⟨w.buffer, by simp [hbuf], ?_⟩
    simpa [system, feed, hbuf, ha] using h
  · exact absurd (hg.1.symm.trans hend) (by decide)

/-- What is fed behind a gap does not continue the accepted sequence. -/
theorem not_prefix_of_feed_true (hg : (system α a).guard (.feed true) w) (hn : w.Numbered)
    (h : w.Gapped) : ¬ ((system α a).update (.feed true) w).wire <+:
      ((system α a).update (.feed true) w).accepted := by
  rcases h with ⟨d, hd, h⟩ | ⟨hend, _⟩
  · obtain ⟨m, rest, hbuf⟩ := List.exists_cons_of_ne_nil (List.isEmpty_eq_false_iff.mp hg.2)
    simp only [system, feed, hbuf, if_true]
    rintro ⟨tail, htail⟩
    rw [hbuf] at h
    -- position `w.wire.length` holds `m` if this is a prefix, and the gap before `m` if not
    have hpos : ∀ (i : ℕ) (p : ℕ × α), w.accepted[i]? = some p → p.1 = i := by
      intro i p hp
      have hmap : (w.accepted.map Prod.fst)[i]? = some p.1 := by simp [hp]
      rw [hn] at hmap
      obtain ⟨_, hi⟩ := List.getElem?_eq_some_iff.mp hmap
      simpa using hi.symm
    have hfirst : m.1 = w.wire.length := hpos _ m (by rw [← htail]; simp)
    have hlater : m.1 = w.wire.length + d.length := hpos _ m (by
      rw [← h, List.append_assoc, List.append_assoc, List.cons_append,
        ← List.length_append, ← List.append_assoc, List.getElem?_append_right (by simp)]
      simp)
    have hpositive := List.length_pos_iff.mpr hd
    omega
  · exact absurd (hg.1.symm.trans hend) (by decide)

end

/-! ## Runs -/

/-- In every run the accepted messages are numbered. -/
theorem numbered_after (a : Actor) (es : List (WriterEvent α)) :
    ((system α a).after new es).Numbered := by
  induction es using List.reverseRecOn with
  | nil => simp [Numbered, new]
  | append_singleton es e ih =>
      rw [Machine.after_append]
      exact numbered_update e ih

theorem batchInLoop_after {a : Actor} {es : List (WriterEvent α)}
    (h : (system α a).Valid new es) : ((system α a).after new es).BatchInLoop :=
  (system α a).after_invariant BatchInLoop (fun _ => rfl) h
    fun e _ _ hg hinv => batchInLoop_update e hg hinv

/-- A task that returns on a failed `feed` never writes behind a dropped message. -/
theorem noGap_of_returnTask {a : Actor} (ha : a.onFeedError = .returnTask)
    {es : List (WriterEvent α)} (h : (system α a).Valid new es) : NoGap a es := by
  rintro es' ⟨rest, rfl⟩
  have hv := (Machine.valid_append _ _ _ _).mp h |>.1
  refine Intact.prefix_accepted (And.left
    ((system α a).after_invariant (fun w => w.Intact ∧ w.BatchInLoop)
      ⟨.inl rfl, fun _ => rfl⟩ hv ?_))
  rintro e _ w hg ⟨hinv, hb⟩
  refine ⟨?_, batchInLoop_update e hg hb⟩
  by_cases he : e = .feed false
  · subst he
    obtain ⟨m, tail, hbuf⟩ := List.exists_cons_of_ne_nil (List.isEmpty_eq_false_iff.mp hg.2)
    have hpre := hinv.prefix_accepted
    exact .inr (by simpa [system, feed, hbuf, ha, finish] using hpre)
  · exact intact_update e hg hb he hinv

/-- Where a run without a successful `feed` after a failed one stands. -/
theorem class_after {a : Actor} (ha : a.onFeedError = .breakBatch) {es : List (WriterEvent α)}
    (h : (system α a).Valid new es) (hes : ¬ FeedsAfterFailure es) :
    (.feed false ∉ es → ((system α a).after new es).Intact) ∧
      (.feed false ∈ es → ((system α a).after new es).Gapped) := by
  induction es using List.reverseRecOn with
  | nil => exact ⟨fun _ => .inl rfl, fun hmem => absurd hmem (by simp)⟩
  | append_singleton es e ih =>
      obtain ⟨hv, hg, _⟩ := (Machine.valid_append _ _ _ _).mp h
      have hb := batchInLoop_after hv
      rw [FeedsAfterFailure, pair_sublist_concat, not_or, not_and] at hes
      obtain ⟨hintact, hgapped⟩ := ih hv hes.1
      rw [Machine.after_append]
      constructor
      · intro hmem
        simp only [List.mem_append, List.mem_singleton, not_or] at hmem
        exact intact_update e hg hb (Ne.symm hmem.2) (hintact hmem.1)
      · intro hmem
        by_cases hes' : .feed false ∈ es
        · exact gapped_update e hg hb ha (Ne.symm (hes.2 hes')) (hgapped hes')
        · obtain rfl : e = .feed false := by
            simpa [hes', eq_comm] using hmem
          exact gapped_of_feed_false hg ha (hintact hes')

/-- A task that only breaks out of the batch leaves no gap iff it feeds nothing after a
failed `feed`. -/
theorem noGap_iff_of_breakBatch {a : Actor} (ha : a.onFeedError = .breakBatch)
    {es : List (WriterEvent α)} (h : (system α a).Valid new es) :
    NoGap a es ↔ ¬ FeedsAfterFailure es := by
  constructor
  · induction es using List.reverseRecOn with
    | nil =>
        intro _ hes
        exact absurd hes.length_le (by simp)
    | append_singleton es e ih =>
        intro hgap hes
        obtain ⟨hv, hg, _⟩ := (Machine.valid_append _ _ _ _).mp h
        have hold : ¬ FeedsAfterFailure es :=
          ih hv fun es' hes' => hgap es' (hes'.trans (List.prefix_append _ _))
        rcases pair_sublist_concat.mp hes with hes | ⟨hmem, rfl⟩
        · exact hold hes
        · have hfull := hgap _ (List.prefix_refl _)
          rw [Machine.after_append] at hfull
          exact not_prefix_of_feed_true hg (numbered_after a es)
            ((class_after ha hv hold).2 hmem) hfull
  · rintro hes es' ⟨rest, rfl⟩
    have hv := (Machine.valid_append _ _ _ _).mp h |>.1
    have hes' : ¬ FeedsAfterFailure es' :=
      fun hsub => hes (hsub.trans (List.sublist_append_left _ _))
    obtain ⟨hintact, hgapped⟩ := class_after ha hv hes'
    by_cases hmem : .feed false ∈ es'
    · exact (hgapped hmem).prefix_accepted
    · exact (hintact hmem).prefix_accepted

/-- The writers of the servers' client connections never leave a gap. The writers of
the peer connections and of the clients' server connections leave none iff no
successful `feed` follows a failed one. -/
theorem writers_leave_no_gap_iff (α : Type) (batchSize : ℕ) :
    (∀ es : List (WriterEvent α),
      (system α (ClientConnection.writerTask batchSize)).Valid new es →
        NoGap (ClientConnection.writerTask batchSize) es) ∧
    (∀ es : List (WriterEvent α),
      (system α (PeerConnection.writerTask batchSize)).Valid new es →
        (NoGap (PeerConnection.writerTask batchSize) es ↔ ¬ FeedsAfterFailure es)) ∧
    (∀ es : List (WriterEvent α),
      (system α (ServerConnection.writerTask batchSize)).Valid new es →
        (NoGap (ServerConnection.writerTask batchSize) es ↔ ¬ FeedsAfterFailure es)) :=
  ⟨fun _ h => noGap_of_returnTask rfl h, fun _ h => noGap_iff_of_breakBatch rfl h,
    fun _ h => noGap_iff_of_breakBatch rfl h⟩

/-- A batch of one is lost to an error, and the next batch is never fed. -/
theorem no_gap_when_nothing_follows :
    NoGap (PeerConnection.writerTask 2)
      [.send "a", .send "b", .recvMany 1, .feed false, .flush true, .recvMany 1] := by
  refine ((writers_leave_no_gap_iff String 2).2.1 _ (by decide)).mpr ?_
  decide

/-- Message `a` is over-long: its `feed` fails, the flush after it succeeds, and `b` of the
next batch is written. -/
theorem writer_resumes_behind_gap :
    (system String (PeerConnection.writerTask 2)).Valid new
      [.send "a", .send "b", .recvMany 1, .feed false, .flush true, .recvMany 1, .feed true,
        .flush true] ∧
    ¬ NoGap (PeerConnection.writerTask 2)
      [.send "a", .send "b", .recvMany 1, .feed false, .flush true, .recvMany 1, .feed true,
        .flush true] := by
  refine ⟨by decide, fun h => ?_⟩
  have hfull := h _ (List.prefix_refl _)
  revert hfull
  decide

end Writer

end OmnipaxosKv
