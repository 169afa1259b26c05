import Mathlib.Data.List.Basic
import Mathlib.Data.List.Infix
import Mathlib.Data.Prod.Lex
import OmnipaxosKv.Connection.Writer

/-! # One direction of a connection

From `send` on one side to the inbound channel on the other: the outgoing queue, the
writer task, the write buffer of its framed transport, the socket, and the reader task
(`ready_chunks`, then a loop that hands the messages of a chunk on one by one).

Bytes are counted but have no values: a frame is some number of `part`s and a last
byte that completes its message. Steps that need the receiver's channel (`forward`)
are separate, since that channel belongs to the receiver.
-/

namespace OmnipaxosKv

/-- A byte of a frame; the last one completes the message. -/
inductive Tok (α : Type) where
  | part
  | last (m : α)
deriving DecidableEq, Repr

namespace Tok

variable {α : Type}

def message : Tok α → Option α
  | part => none
  | last m => some m

/-- The messages whose frames are complete in a stretch of bytes. -/
def messages (ts : List (Tok α)) : List α := ts.filterMap message

def frame (parts : ℕ) (m : α) : List (Tok α) := List.replicate parts part ++ [last m]

/-- The first complete frame of a buffer, and what follows it. -/
def splitFrame : List (Tok α) → Option (α × List (Tok α))
  | [] => none
  | part :: ts => splitFrame ts
  | last m :: ts => some (m, ts)

@[simp] theorem messages_nil : messages ([] : List (Tok α)) = [] := rfl

@[simp] theorem messages_cons_part (ts : List (Tok α)) :
    messages (part :: ts) = messages ts := rfl

@[simp] theorem messages_cons_last (m : α) (ts : List (Tok α)) :
    messages (last m :: ts) = m :: messages ts := rfl

/-- The messages of two stretches are those of the one, then those of the other. -/
@[simp] theorem messages_append (ts us : List (Tok α)) :
    messages (ts ++ us) = messages ts ++ messages us :=
  List.filterMap_append

/-- A frame holds its message. -/
@[simp] theorem messages_frame (parts : ℕ) (m : α) : messages (frame parts m) = [m] := by
  induction parts with
  | zero => rfl
  | succ n ih => exact ih

/-- Splitting off a frame takes the first message. -/
theorem messages_of_splitFrame {ts us : List (Tok α)} {m : α} (h : splitFrame ts = some (m, us)) :
    messages ts = m :: messages us := by
  induction ts with
  | nil => cases h
  | cons t ts ih =>
      cases t with
      | part => exact ih h
      | last m' =>
          obtain ⟨rfl, rfl⟩ : m' = m ∧ ts = us := by simpa [splitFrame] using h
          simp

/-- What follows a frame is the end of the buffer. -/
theorem suffix_of_splitFrame {ts us : List (Tok α)} {m : α} (h : splitFrame ts = some (m, us)) :
    ∃ vs, ts = vs ++ us := by
  induction ts with
  | nil => cases h
  | cons t ts ih =>
      cases t with
      | part =>
          obtain ⟨vs, rfl⟩ := ih h
          exact ⟨part :: vs, rfl⟩
      | last m' =>
          obtain ⟨rfl, rfl⟩ : m' = m ∧ ts = us := by simpa [splitFrame] using h
          exact ⟨[last m'], rfl⟩

/-- Splitting off a frame makes the buffer shorter. -/
theorem length_of_splitFrame {ts us : List (Tok α)} {m : α} (h : splitFrame ts = some (m, us)) :
    us.length < ts.length := by
  induction ts with
  | nil => cases h
  | cons t ts ih =>
      cases t with
      | part => exact Nat.lt_succ_of_lt (ih h)
      | last m' =>
          obtain ⟨rfl, rfl⟩ : m' = m ∧ ts = us := by simpa [splitFrame] using h
          exact Nat.lt_succ_self _

/-- A buffer without a complete frame holds no message. -/
theorem messages_of_splitFrame_none {ts : List (Tok α)} (h : splitFrame ts = none) :
    messages ts = [] := by
  induction ts with
  | nil => rfl
  | cons t ts ih =>
      cases t with
      | part => exact ih h
      | last m => cases h

/-- A stretch of bytes that does not end inside a frame. -/
def Whole (ts : List (Tok α)) : Prop := ∀ t ∈ ts.getLast?, t ≠ part

theorem whole_nil : Whole ([] : List (Tok α)) := by simp [Whole]

/-- The end of whole bytes is whole. -/
theorem Whole.of_append (ts : List (Tok α)) {us : List (Tok α)} (h : Whole (ts ++ us)) :
    Whole us := by
  intro t ht
  refine h t ?_
  rw [List.getLast?_append, ht]
  rfl

/-- Bytes that end with a frame are whole. -/
theorem whole_append_frame (ts : List (Tok α)) (parts : ℕ) (m : α) :
    Whole (ts ++ frame parts m) := by
  intro t ht
  rw [frame, ← List.append_assoc, List.getLast?_concat] at ht
  obtain rfl : last m = t := by simpa using ht
  simp

/-- Whole bytes without a complete frame are none. -/
theorem Whole.eq_nil {ts : List (Tok α)} (h : Whole ts) (hnone : splitFrame ts = none) :
    ts = [] := by
  rcases List.eq_nil_or_concat ts with rfl | ⟨us, t, rfl⟩
  · rfl
  · exfalso
    have hmsg := messages_of_splitFrame_none hnone
    have ht : t ≠ part := h t (by simp)
    cases t with
    | part => exact ht rfl
    | last m => simp at hmsg

end Tok

/-- What is finite below the writer task: the room in the two socket buffers, and the
fill level at which the framed transport stops taking messages before it has written
some bytes. -/
structure Transport where
  socketSpace : ℕ
  highWater : ℕ
  socketSpace_pos : 0 < socketSpace
  highWater_pos : 0 < highWater

/-- Eight bytes each way. -/
def smallTransport : Transport := ⟨8, 8, by decide, by decide⟩

structure Pipe (α : Type) where
  writer : Writer α
  /-- write buffer of the framed transport -/
  encoded : List (Tok α)
  socket : List (Tok α)
  /-- read buffer of the framed transport -/
  readBuf : List (Tok α)
  /-- what the reader task holds: the chunk it collects, or the rest of the chunk it
  hands on -/
  chunk : List α
  collecting : Bool
  /-- the connection is reset: bytes written from now on go nowhere -/
  broken : Bool
  /-- history: what the reader task handed on -/
  delivered : List α
deriving DecidableEq, Repr

/-- The steps of the two tasks and of the socket between them. -/
inductive PipeStep where
  | recvMany (n : ℕ)
  | feed (parts : ℕ)
  | write (k : ℕ)
  | flushed
  | fill (k : ℕ)
  | decode
  | release
  | feedError
  | flushError
  | reset (k : ℕ)
deriving DecidableEq, Repr

/-- The steps in which something fails. -/
def PipeStep.IsFault : PipeStep → Prop
  | feedError | flushError | reset _ => True
  | _ => False

/-- The steps with which the connection fails. A task that only breaks out of its batch goes on
after a failed `feed`. -/
def PipeStep.Fails (a : Actor) : PipeStep → Prop
  | feedError => a.onFeedError = .returnTask
  | flushError | reset _ => True
  | _ => False

/-- The steps of the two tasks that succeed. -/
def PipeStep.Moves : PipeStep → Prop
  | recvMany _ | feed _ | write _ | flushed | fill _ | decode | release => True
  | _ => False

instance : DecidablePred PipeStep.IsFault := fun l => by
  cases l <;> unfold PipeStep.IsFault <;> infer_instance

instance (a : Actor) : DecidablePred (PipeStep.Fails a) := fun l => by
  cases l <;> unfold PipeStep.Fails <;> infer_instance

namespace Pipe

variable {α : Type}

def new : Pipe α := ⟨Writer.new, [], [], [], [], true, false, []⟩

/-- The framed transport asks the socket to take bytes: in `flush`, and in a `feed` at
the high-water mark. -/
def Writing (t : Transport) (p : Pipe α) : Prop :=
  p.writer.phase = .flushing ∨ p.writer.phase = .feeding ∧ t.highWater ≤ p.encoded.length

instance (t : Transport) (p : Pipe α) : Decidable (p.Writing t) :=
  inferInstanceAs (Decidable (_ ∨ _))

/-- The reader task's stream yields the chunk: it is full, or nothing more is ready. -/
def ChunkReady (a : Actor) (p : Pipe α) : Prop :=
  p.chunk.length = a.batchSize ∨ (Tok.splitFrame p.readBuf).isNone ∧ p.socket.isEmpty

instance (a : Actor) (p : Pipe α) : Decidable (p.ChunkReady a) :=
  inferInstanceAs (Decidable (_ ∨ _))

def guard (a : Actor) (t : Transport) : PipeStep → Pipe α → Prop
  | .recvMany n, p => p.writer.phase = .receiving ∧ 1 ≤ n ∧ n ≤ a.batchSize ∧
      n ≤ p.writer.queue.length
  | .feed _, p => p.writer.phase = .feeding ∧ p.writer.buffer.isEmpty = false ∧
      p.encoded.length < t.highWater
  | .write k, p => p.Writing t ∧ 1 ≤ k ∧ k ≤ p.encoded.length ∧
      p.socket.length + k ≤ t.socketSpace
  | .flushed, p => p.writer.phase = .flushing ∧ p.encoded.isEmpty
  | .fill k, p => p.collecting ∧ p.chunk.length < a.batchSize ∧
      (Tok.splitFrame p.readBuf).isNone ∧ 1 ≤ k ∧ k ≤ p.socket.length
  | .decode, p => p.collecting ∧ p.chunk.length < a.batchSize ∧
      (Tok.splitFrame p.readBuf).isSome
  | .release, p => p.collecting ∧ p.chunk.isEmpty = false ∧ p.ChunkReady a
  | .feedError, p => p.writer.phase = .feeding ∧ p.writer.buffer.isEmpty = false
  | .flushError, p => p.writer.phase = .flushing
  | .reset _, _ => True

instance (a : Actor) (t : Transport) (l : PipeStep) (p : Pipe α) : Decidable (guard a t l p) := by
  cases l <;> unfold guard <;> infer_instance

/-- The writer encodes the next message of its batch into a frame. -/
def feed (a : Actor) (parts : ℕ) (p : Pipe α) : Pipe α :=
  match p.writer.buffer with
  | [] => p
  | m :: _ => { p with
      writer := p.writer.feed a true
      encoded := p.encoded ++ Tok.frame parts m }

/-- The socket takes `k` bytes. The last bytes of a batch complete its `flush`. -/
def write (k : ℕ) (p : Pipe α) : Pipe α :=
  { p with
    encoded := p.encoded.drop k
    -- a reset connection swallows what is written
    socket := if p.broken then p.socket else p.socket ++ p.encoded.take k
    writer := if p.writer.phase = .flushing ∧ p.encoded.length ≤ k then p.writer.flush true
      else p.writer }

def decode (p : Pipe α) : Pipe α :=
  match Tok.splitFrame p.readBuf with
  | none => p
  | some (m, rest) => { p with readBuf := rest, chunk := p.chunk ++ [m] }

/-- The writer task returns: its half of the socket and its write buffer are dropped. -/
def closeIfEnded (p : Pipe α) : Pipe α :=
  if p.writer.phase = .ended then { p with encoded := [] } else p

def update (a : Actor) : PipeStep → Pipe α → Pipe α
  | .recvMany n, p => { p with writer := p.writer.recvMany n }
  | .feed parts, p => p.feed a parts
  | .write k, p => p.write k
  | .flushed, p => { p with writer := p.writer.flush true }
  | .fill k, p => { p with readBuf := p.readBuf ++ p.socket.take k, socket := p.socket.drop k }
  | .decode, p => p.decode
  | .release, p => { p with collecting := false }
  | .feedError, p => closeIfEnded { p with writer := p.writer.feed a false }
  | .flushError, p => closeIfEnded { p with writer := p.writer.flush false }
  | .reset k, p => { p with socket := p.socket.take k, broken := true }

/-- `connection.send`: an error iff the writer task is gone. -/
def send (m : α) (p : Pipe α) : Option (Pipe α) :=
  (p.writer.send m).map fun w => { p with writer := w }

/-- The message the reader task hands on next. -/
def next? (p : Pipe α) : Option α := if p.collecting then none else p.chunk.head?

/-- The receiver's channel takes the next message of the chunk. -/
def forward (p : Pipe α) : Pipe α :=
  { p with
    chunk := p.chunk.tail
    collecting := p.chunk.tail.isEmpty
    delivered := p.delivered ++ p.chunk.take 1 }

/-- `JoinHandle::abort` on the writer task. What the socket took before still arrives. -/
def close (p : Pipe α) : Pipe α := { p with writer := p.writer.finish, encoded := [] }

/-! ## What is on the way -/

/-- What the reader side will still see even if the writer stops now. -/
def arriving (p : Pipe α) : List α :=
  p.chunk ++ (Tok.messages p.readBuf ++ Tok.messages p.socket)

/-- All messages on the way, the next one to arrive first. -/
def contents (p : Pipe α) : List α :=
  p.arriving ++ (Tok.messages p.encoded ++ (p.writer.buffer ++ p.writer.queue))

/-- What arrives whatever the writer does is ahead of the rest. -/
theorem arriving_prefix_contents (p : Pipe α) : p.arriving <+: p.contents :=
  List.prefix_append _ _

/-- The message handed on next is the first of the chunk. -/
theorem next_mem_chunk {p : Pipe α} {m : α} (h : p.next? = some m) : p.chunk = m :: p.chunk.tail := by
  unfold next? at h
  split at h
  · cases h
  · exact (List.cons_head?_tail h).symm

section

variable {a : Actor} {t : Transport} {p q : Pipe α} {l : PipeStep} {m : α}

/-- A `send` that succeeds puts the message at the end of the queue of a writer that is not
gone. -/
theorem send_eq_some (h : p.send m = some q) :
    q = { p with writer := { p.writer with
      queue := p.writer.queue ++ [m], accepted := p.writer.accepted ++ [m] } } ∧
    p.writer.phase ≠ .ended := by
  unfold send Writer.send at h
  split at h
  · cases h
  · next hp => exact ⟨by simpa using h.symm, hp⟩

/-- A `send` fails iff the writer is gone. -/
theorem send_eq_none_iff : p.send m = none ↔ p.writer.phase = .ended := by
  unfold send Writer.send
  split <;> simp [*]

/-- A message sent is the last on the way. -/
theorem contents_send (h : p.send m = some q) : q.contents = p.contents ++ [m] := by
  obtain ⟨rfl, _⟩ := send_eq_some h
  simp [contents, arriving]

/-- A message sent is accepted. -/
theorem accepted_send (h : p.send m = some q) :
    q.writer.accepted = p.writer.accepted ++ [m] := by
  obtain ⟨rfl, _⟩ := send_eq_some h
  rfl

/-- A `send` delivers nothing. -/
theorem delivered_send (h : p.send m = some q) : q.delivered = p.delivered := by
  obtain ⟨rfl, _⟩ := send_eq_some h
  rfl

/-- The message handed on is delivered. -/
theorem delivered_forward (h : p.next? = some m) : p.forward.delivered = p.delivered ++ [m] := by
  rw [forward, next_mem_chunk h]
  rfl

/-- Handing a message on moves it from the front of the pipe to the delivered ones. -/
theorem delivered_contents_forward (h : p.next? = some m) :
    p.forward.delivered ++ p.forward.contents = p.delivered ++ p.contents := by
  rw [delivered_forward h]
  simp only [contents, arriving, forward]
  rw [next_mem_chunk h]
  simp

/-- Handing a message on changes nothing about what arrives in all. -/
theorem delivered_arriving_forward (h : p.next? = some m) :
    p.forward.delivered ++ p.forward.arriving = p.delivered ++ p.arriving := by
  rw [delivered_forward h]
  simp only [arriving, forward]
  rw [next_mem_chunk h]
  simp

/-- A `feed` accepts nothing. -/
theorem writer_accepted_feed (ok : Bool) (w : Writer α) : (w.feed a ok).accepted = w.accepted := by
  unfold Writer.feed
  split
  · rfl
  · split
    · rfl
    · split <;> rfl

/-- A `flush` accepts nothing. -/
theorem writer_accepted_flush (ok : Bool) (w : Writer α) : (w.flush ok).accepted = w.accepted := by
  cases ok <;> rfl

@[simp] theorem arriving_withWriter (w : Writer α) :
    ({ p with writer := w } : Pipe α).arriving = p.arriving := rfl

@[simp] theorem closeIfEnded_writer : (closeIfEnded p).writer = p.writer := by
  unfold closeIfEnded
  split <;> rfl

@[simp] theorem closeIfEnded_delivered : (closeIfEnded p).delivered = p.delivered := by
  unfold closeIfEnded
  split <;> rfl

@[simp] theorem closeIfEnded_arriving : (closeIfEnded p).arriving = p.arriving := by
  unfold closeIfEnded
  split <;> rfl

/-- No step inside the pipe accepts or hands on anything. -/
theorem accepted_update (l : PipeStep) (p : Pipe α) :
    (p.update a l).writer.accepted = p.writer.accepted := by
  cases l with
  | feed parts =>
      simp only [update, feed]
      split
      · rfl
      · exact writer_accepted_feed true _
  | write k =>
      simp only [update, write]
      split <;> rfl
  | decode =>
      simp only [update, decode]
      split <;> rfl
  | feedError => simp [update, writer_accepted_feed]
  | flushError => simp [update, writer_accepted_flush]
  | _ => rfl

/-- Only the receiver delivers. -/
theorem delivered_update (l : PipeStep) (p : Pipe α) : (p.update a l).delivered = p.delivered := by
  cases l with
  | feed parts =>
      simp only [update, feed]
      split <;> rfl
  | decode =>
      simp only [update, decode]
      split <;> rfl
  | feedError => simp [update]
  | flushError => simp [update]
  | _ => rfl

/-- Decoding a frame changes nothing about what arrives. -/
theorem arriving_decode (p : Pipe α) : p.decode.arriving = p.arriving := by
  unfold decode
  split
  · rfl
  · next m rest h => simp [arriving, Tok.messages_of_splitFrame h]

/-- Without faults, steps inside the pipe move messages along and drop none. -/
theorem contents_update (hg : p.guard a t l) (hf : ¬ l.IsFault) (hb : p.broken = false)
    (hloop : p.writer.BatchInLoop) : (p.update a l).contents = p.contents := by
  cases l with
  | recvMany n =>
      -- a batch is taken when the one before is done
      have hnil : p.writer.buffer = [] := hloop (by rw [hg.1]; decide)
      simp [update, Writer.recvMany, contents, arriving, hnil]
  | feed parts =>
      obtain ⟨m, rest, hbuf⟩ := List.exists_cons_of_ne_nil (List.isEmpty_eq_false_iff.mp hg.2.1)
      simp [update, feed, Writer.feed, hbuf, contents, arriving]
  | write k =>
      simp only [update, write, hb, contents, arriving, Bool.false_eq_true, if_false,
        Tok.messages_append]
      have hsplit : Tok.messages p.encoded =
          Tok.messages (p.encoded.take k) ++ Tok.messages (p.encoded.drop k) := by
        rw [← Tok.messages_append, List.take_append_drop]
      rw [hsplit]
      split <;> simp [Writer.flush]
  | flushed => rfl
  | fill k =>
      simp only [update, contents, arriving, Tok.messages_append]
      have hsplit : Tok.messages p.socket =
          Tok.messages (p.socket.take k) ++ Tok.messages (p.socket.drop k) := by
        rw [← Tok.messages_append, List.take_append_drop]
      rw [hsplit]
      simp
  | decode =>
      have hw : p.decode.writer = p.writer ∧ p.decode.encoded = p.encoded := by
        unfold decode
        split <;> exact ⟨rfl, rfl⟩
      simp only [update, contents, arriving_decode, hw]
  | release => rfl
  | feedError => exact absurd trivial hf
  | flushError => exact absurd trivial hf
  | reset k => exact absurd trivial hf

/-- Whatever happens inside a pipe, it never adds, repeats or reorders messages. -/
theorem contents_update_sublist (a : Actor) (l : PipeStep) (p : Pipe α) :
    (p.update a l).contents.Sublist p.contents := by
  have hfinish : (Tok.messages ([] : List (Tok α)) ++ ([] ++ [])).Sublist
      (Tok.messages p.encoded ++ (p.writer.buffer ++ p.writer.queue)) := by simp
  cases l with
  | recvMany n => simp [update, Writer.recvMany, contents, arriving]
  | feed parts =>
      simp only [update, feed, Writer.feed]
      split
      · exact List.Sublist.refl _
      · next m rest hbuf => simp [contents, arriving, hbuf]
  -- the bytes that are written are those in front of the rest
  | write k =>
      have hwriter : (p.write k).writer.buffer = p.writer.buffer ∧
          (p.write k).writer.queue = p.writer.queue := by
        unfold write
        dsimp only
        split <;> exact ⟨rfl, rfl⟩
      have hsplit : Tok.messages p.encoded =
          Tok.messages (p.encoded.take k) ++ Tok.messages (p.encoded.drop k) := by
        rw [← Tok.messages_append, List.take_append_drop]
      simp only [update, contents, hwriter]
      rw [hsplit]
      -- on a broken connection they are dropped
      unfold write arriving
      cases p.broken <;> simp
  | flushed => exact List.Sublist.refl _
  | fill k =>
      have hsplit : Tok.messages p.socket =
          Tok.messages (p.socket.take k) ++ Tok.messages (p.socket.drop k) := by
        rw [← Tok.messages_append, List.take_append_drop]
      simp [update, contents, arriving, hsplit]
  | decode =>
      have hw : p.decode.writer = p.writer ∧ p.decode.encoded = p.encoded := by
        unfold decode
        split <;> exact ⟨rfl, rfl⟩
      simp only [update, contents, arriving_decode, hw]
      exact List.Sublist.refl _
  | release => exact List.Sublist.refl _
  -- an error of the writer drops messages, and adds none
  | feedError =>
      simp only [update, Writer.feed]
      split
      · next hbuf =>
          unfold closeIfEnded
          split <;> simp [contents, arriving]
      · next m rest hbuf =>
          cases a.onFeedError with
          | breakBatch =>
              unfold closeIfEnded
              simp [contents, arriving]
          | returnTask =>
              unfold closeIfEnded
              simp [contents, arriving, Writer.finish]
  | flushError =>
      unfold update closeIfEnded
      simp [Writer.flush, Writer.finish, contents, arriving]
  | reset k =>
      -- what is left in the socket after a reset is a part of what was there
      have hsub : (Tok.messages (p.socket.take k)).Sublist (Tok.messages p.socket) :=
        (List.take_sublist k _).filterMap _
      simpa [update, contents, arriving] using hsub

/-- The pipe hands messages on in the order in which it accepted them, each at most once. -/
def Ordered (p : Pipe α) : Prop := (p.delivered ++ p.contents).Sublist p.writer.accepted

theorem ordered_new : (new : Pipe α).Ordered := List.Sublist.refl _

/-- A `send` keeps the order. -/
theorem Ordered.send (h : p.Ordered) (hs : p.send m = some q) : q.Ordered := by
  unfold Ordered
  rw [delivered_send hs, contents_send hs, accepted_send hs, ← List.append_assoc]
  exact h.append (List.Sublist.refl [m])

/-- Handing on keeps the order. -/
theorem Ordered.forward (h : p.Ordered) (hm : p.next? = some m) : p.forward.Ordered := by
  unfold Ordered
  rw [delivered_contents_forward hm]
  exact h

/-- Every step of the tasks and of the socket keeps the order, faults included. -/
theorem Ordered.update (h : p.Ordered) (l : PipeStep) : (p.update a l).Ordered := by
  unfold Ordered
  rw [delivered_update, accepted_update]
  have hsub := contents_update_sublist a l p
  exact ((List.Sublist.refl p.delivered).append hsub).trans h

/-- The end of the writer task keeps the order. -/
theorem Ordered.close (h : p.Ordered) : p.close.Ordered := by
  have hsub : p.close.contents.Sublist p.contents := by
    simp [Pipe.close, Writer.finish, contents, arriving]
  exact ((List.Sublist.refl p.delivered).append hsub).trans h

/-- What is delivered was accepted, in this order. -/
theorem Ordered.delivered_sublist (h : p.Ordered) : p.delivered.Sublist p.writer.accepted :=
  (List.sublist_append_left _ _).trans h

end

/-! ## Pipes that never skip a message

With a writer that returns on a failed `feed`, what arrives is at all times a prefix of
what was accepted, faults included. -/

structure Streamed (p : Pipe α) : Prop where
  batch : p.writer.BatchInLoop
  arriving : p.delivered ++ p.arriving <+: p.writer.accepted
  intact : p.broken = false → p.writer.phase ≠ .ended →
    p.delivered ++ p.contents = p.writer.accepted

/-- A new pipe has skipped nothing. -/
theorem streamed_new : (new : Pipe α).Streamed where
  batch := fun _ => rfl
  arriving := List.prefix_refl _
  intact := fun _ _ => rfl

section

variable {a : Actor} {t : Transport} {p q : Pipe α} {l : PipeStep} {m : α}

/-- A `send` skips nothing. -/
theorem Streamed.send (h : p.Streamed) (hs : p.send m = some q) : q.Streamed := by
  obtain ⟨rfl, hphase⟩ := send_eq_some hs
  refine ⟨h.batch, h.arriving.trans (List.prefix_append _ _), fun hb hp => ?_⟩
  have hintact := h.intact hb hp
  simp only [contents, Pipe.arriving] at hintact ⊢
  rw [← hintact]
  simp

/-- Handing on skips nothing. -/
theorem Streamed.forward (h : p.Streamed) (hm : p.next? = some m) : p.forward.Streamed where
  batch := h.batch
  arriving := by
    rw [delivered_arriving_forward hm]
    exact h.arriving
  intact := by
    rw [delivered_contents_forward hm]
    exact h.intact

/-- After a `feed` the batch is worked off in the loop, or the `feed` did nothing. -/
theorem batchInLoop_feed (ok : Bool) (w : Writer α) : (w.feed a ok).BatchInLoop ∨
    w.feed a ok = w := by
  unfold Writer.feed
  split
  · exact .inr rfl
  · next m rest hb =>
      left
      rcases rest with _ | ⟨m', rest⟩ <;> cases ok <;> cases a.onFeedError <;>
        simp [Writer.BatchInLoop, Writer.finish]

/-- A `flush` comes when the batch is empty. -/
theorem batchInLoop_flush (ok : Bool) {w : Writer α} (hp : w.phase = .flushing)
    (h : w.BatchInLoop) : (w.flush ok).BatchInLoop := by
  have hb : w.buffer = [] := h (by rw [hp]; decide)
  cases ok <;> simp [Writer.flush, Writer.finish, Writer.BatchInLoop, hb]

/-- Every step leaves the batch to the loop. -/
theorem batchInLoop_update (hg : p.guard a t l) (h : p.writer.BatchInLoop) :
    (p.update a l).writer.BatchInLoop := by
  have hfeed : ∀ ok, (p.writer.feed a ok).BatchInLoop := by
    intro ok
    rcases batchInLoop_feed (a := a) ok p.writer with hf | hf
    · exact hf
    · rw [hf]
      exact h
  cases l with
  | recvMany n => simp [update, Writer.recvMany, Writer.BatchInLoop]
  | feed parts =>
      simp only [update, feed]
      split
      · exact h
      · exact hfeed true
  | write k =>
      simp only [update, write]
      split
      · next hk => exact batchInLoop_flush true hk.1 h
      · exact h
  | flushed => exact batchInLoop_flush true hg.1 h
  | fill k => exact h
  | decode =>
      simp only [update, decode]
      split <;> exact h
  | release => exact h
  | feedError => simpa [update] using hfeed false
  | flushError => simpa [update] using batchInLoop_flush false hg h
  | reset k => exact h

/-- A writer that is gone stays gone. -/
theorem ended_update (hg : p.guard a t l) (hp : p.writer.phase = .ended) :
    (p.update a l).writer.phase = .ended := by
  cases l with
  | recvMany n => exact absurd (hg.1.symm.trans hp) (by decide)
  | feed parts => exact absurd (hg.1.symm.trans hp) (by decide)
  | write k =>
      rcases hg.1 with hw | ⟨hw, _⟩
      · exact absurd (hw.symm.trans hp) (by decide)
      · exact absurd (hw.symm.trans hp) (by decide)
  | flushed => exact absurd (hg.1.symm.trans hp) (by decide)
  | feedError => exact absurd (hg.1.symm.trans hp) (by decide)
  | flushError => exact absurd ((show p.writer.phase = .flushing from hg).symm.trans hp) (by decide)
  | decode =>
      simp only [update, decode]
      split <;> exact hp
  | _ => exact hp

/-- A reset connection stays reset. -/
theorem broken_update (hb : p.broken = true) : (p.update a l).broken = true := by
  cases l with
  | feed parts =>
      simp only [update, feed]
      split <;> exact hb
  | decode =>
      simp only [update, decode]
      split <;> exact hb
  | feedError =>
      simp only [update, closeIfEnded]
      split <;> exact hb
  | flushError =>
      simp only [update, closeIfEnded]
      split <;> exact hb
  | reset k => rfl
  | _ => exact hb

/-- With a writer that returns on a failed `feed`, no step skips a message. -/
theorem Streamed.update (ha : a.onFeedError = .returnTask) (hg : p.guard a t l)
    (h : p.Streamed) : (p.update a l).Streamed := by
  refine ⟨batchInLoop_update hg h.batch, ?_, ?_⟩
  · -- only `write` adds to what arrives, and a live writer has dropped nothing
    rw [delivered_update, accepted_update]
    cases l with
    | write k =>
        have hphase : p.writer.phase ≠ .ended := by
          rcases hg.1 with hp | ⟨hp, _⟩ <;> rw [hp] <;> decide
        cases hb : p.broken with
        | true => simpa [Pipe.update, write, Pipe.arriving, hb] using h.arriving
        | false =>
            have hall := contents_update hg (by simp [PipeStep.IsFault]) hb h.batch
            rw [← h.intact hb hphase, ← hall, List.prefix_append_right_inj]
            exact arriving_prefix_contents _
    | feed parts =>
        have harr : (p.feed a parts).arriving = p.arriving := by
          unfold feed
          split <;> rfl
        simpa [Pipe.update, harr] using h.arriving
    | fill k =>
        have hsplit : Tok.messages p.socket =
            Tok.messages (p.socket.take k) ++ Tok.messages (p.socket.drop k) := by
          rw [← Tok.messages_append, List.take_append_drop]
        simpa [Pipe.update, Pipe.arriving, hsplit] using h.arriving
    | decode => simpa [Pipe.update, arriving_decode] using h.arriving
    | feedError => simpa [Pipe.update] using h.arriving
    | flushError => simpa [Pipe.update] using h.arriving
    | reset k =>
        refine List.IsPrefix.trans ?_ h.arriving
        rw [List.prefix_append_right_inj]
        have hmsg : Tok.messages (p.socket.take k) <+: Tok.messages p.socket :=
          (List.take_prefix k _).filterMap _
        simpa [Pipe.update, Pipe.arriving, List.prefix_append_right_inj] using hmsg
    | _ => exact h.arriving
  -- while neither the connection nor the writer has ended, nothing is missing
  · intro hb hp
    have hb' : p.broken = false := by
      rw [← Bool.not_eq_true]
      exact fun hbroken => by simp [broken_update hbroken] at hb
    have hp' : p.writer.phase ≠ .ended := fun hend => hp (ended_update hg hend)
    rw [delivered_update, accepted_update]
    by_cases hf : l.IsFault
    -- a fault ends one of the two
    · cases l with
      | feedError =>
          obtain ⟨m, rest, hbuf⟩ :=
            List.exists_cons_of_ne_nil (List.isEmpty_eq_false_iff.mp hg.2)
          simp [Pipe.update, Writer.feed, hbuf, ha, Writer.finish] at hp
      | flushError => simp [Pipe.update, Writer.flush, Writer.finish] at hp
      | reset k => simp [Pipe.update] at hb
      | _ => exact absurd hf (by simp [PipeStep.IsFault])
    · rw [contents_update hg hf hb' h.batch]
      exact h.intact hb' hp'

end

/-! ## Pipes that have not failed -/

/-- The two tasks are alive and in step with their buffers. -/
structure Flowing (a : Actor) (p : Pipe α) : Prop where
  unbroken : p.broken = false
  alive : p.writer.phase ≠ .ended
  receiving : p.writer.phase = .receiving → p.writer.buffer = [] ∧ p.encoded = []
  feeding : p.writer.phase = .feeding → p.writer.buffer ≠ []
  flushing : p.writer.phase = .flushing → p.writer.buffer = []
  whole : Tok.Whole (p.readBuf ++ (p.socket ++ p.encoded))
  chunk_le : p.chunk.length ≤ a.batchSize
  handing : p.collecting = false → p.chunk ≠ []

/-- A new pipe flows. -/
theorem flowing_new (a : Actor) : (new : Pipe α).Flowing a := by
  constructor <;> simp [new, Writer.new, Tok.whole_nil]

section

variable {a : Actor} {t : Transport} {p q : Pipe α} {l : PipeStep} {m : α}

/-- A `send` leaves the pipe flowing. -/
theorem Flowing.send (h : p.Flowing a) (hs : p.send m = some q) : q.Flowing a := by
  obtain ⟨rfl, _⟩ := send_eq_some hs
  exact ⟨h.unbroken, h.alive, h.receiving, h.feeding, h.flushing, h.whole, h.chunk_le, h.handing⟩

/-- Handing on leaves the pipe flowing. -/
theorem Flowing.forward (h : p.Flowing a) : p.forward.Flowing a where
  unbroken := h.unbroken
  alive := h.alive
  receiving := h.receiving
  feeding := h.feeding
  flushing := h.flushing
  whole := h.whole
  chunk_le := le_trans (List.tail_sublist _).length_le h.chunk_le
  handing := by simp [Pipe.forward]

/-- Every step that fails no connection keeps a pipe flowing. -/
theorem Flowing.update (hg : p.guard a t l) (hf : ¬ l.Fails a) (h : p.Flowing a) :
    (p.update a l).Flowing a := by
  cases l with
  | recvMany n =>
      obtain ⟨hphase, hn, _, hle⟩ := hg
      have hne : p.writer.queue.take n ≠ [] := by
        rw [← List.length_pos_iff, List.length_take]
        omega
      exact ⟨h.unbroken, by simp [Pipe.update, Writer.recvMany],
        by simp [Pipe.update, Writer.recvMany], fun _ => hne,
        by simp [Pipe.update, Writer.recvMany], h.whole, h.chunk_le, h.handing⟩
  | feed parts =>
      obtain ⟨m, rest, hbuf⟩ := List.exists_cons_of_ne_nil (List.isEmpty_eq_false_iff.mp hg.2.1)
      have hwhole : Tok.Whole (p.readBuf ++ (p.socket ++ (p.encoded ++ Tok.frame parts m))) := by
        simpa using Tok.whole_append_frame (p.readBuf ++ (p.socket ++ p.encoded)) parts m
      have hp : p.update a (.feed parts) = { p with
          writer := p.writer.feed a true, encoded := p.encoded ++ Tok.frame parts m } := by
        simp [Pipe.update, Pipe.feed, hbuf]
      rw [hp]
      refine ⟨h.unbroken, ?_, ?_, ?_, ?_, hwhole, h.chunk_le, h.handing⟩ <;>
        cases rest <;> simp [Writer.feed, hbuf]
  | write k =>
      have hwhole : Tok.Whole (p.readBuf ++
          ((p.socket ++ p.encoded.take k) ++ p.encoded.drop k)) := by
        rw [List.append_assoc, List.take_append_drop]
        exact h.whole
      have hsocket : (p.write k).socket = p.socket ++ p.encoded.take k := by
        simp [write, h.unbroken]
      by_cases hlast : p.writer.phase = .flushing ∧ p.encoded.length ≤ k
      · -- the last bytes of the batch: `flush` completes
        have hw : (p.write k).writer = p.writer.flush true := by simp [write, hlast]
        have hnil : (p.write k).encoded = [] := List.drop_eq_nil_of_le hlast.2
        have hbuf := h.flushing hlast.1
        refine ⟨h.unbroken, ?_, ?_, ?_, ?_, ?_, h.chunk_le, h.handing⟩
        · simp [Pipe.update, hw, Writer.flush]
        · simp [Pipe.update, hw, hnil, Writer.flush, hbuf]
        · simp [Pipe.update, hw, Writer.flush]
        · simp [Pipe.update, hw, Writer.flush]
        · show Tok.Whole ((p.write k).readBuf ++ ((p.write k).socket ++ (p.write k).encoded))
          rw [hsocket]
          exact hwhole
      · have hw : (p.write k).writer = p.writer := by simp [write, hlast]
        refine ⟨h.unbroken, ?_, ?_, ?_, ?_, ?_, h.chunk_le, h.handing⟩
        · simpa [Pipe.update, hw] using h.alive
        · intro hphase
          rw [Pipe.update, hw] at hphase
          rcases hg.1 with hp | ⟨hp, _⟩
          · exact absurd (hphase.symm.trans hp) (by decide)
          · exact absurd (hphase.symm.trans hp) (by decide)
        · simpa [Pipe.update, hw] using h.feeding
        · intro hphase
          rw [Pipe.update, hw] at hphase
          simpa [Pipe.update, hw] using h.flushing hphase
        · show Tok.Whole ((p.write k).readBuf ++ ((p.write k).socket ++ (p.write k).encoded))
          rw [hsocket]
          exact hwhole
  | flushed =>
      have hbuf := h.flushing hg.1
      have henc := List.isEmpty_iff.mp hg.2
      refine ⟨h.unbroken, ?_, ?_, ?_, ?_, h.whole, h.chunk_le, h.handing⟩
      · simp [Pipe.update, Writer.flush]
      · simp [Pipe.update, Writer.flush, hbuf, henc]
      · simp [Pipe.update, Writer.flush]
      · simp [Pipe.update, Writer.flush]
  | fill k =>
      refine ⟨h.unbroken, h.alive, h.receiving, h.feeding, h.flushing, ?_, h.chunk_le, h.handing⟩
      have hsame : p.readBuf ++ p.socket.take k ++ (p.socket.drop k ++ p.encoded) =
          p.readBuf ++ (p.socket ++ p.encoded) := by
        rw [List.append_assoc, ← List.append_assoc (p.socket.take k), List.take_append_drop]
      simpa only [Pipe.update, hsame] using h.whole
  | decode =>
      obtain ⟨hcoll, hlt, hsome⟩ := hg
      obtain ⟨⟨m, rest⟩, hsplit⟩ := Option.isSome_iff_exists.mp hsome
      have hp : p.update a .decode = { p with readBuf := rest, chunk := p.chunk ++ [m] } := by
        simp [Pipe.update, Pipe.decode, hsplit]
      obtain ⟨vs, hvs⟩ := Tok.suffix_of_splitFrame hsplit
      rw [hp]
      refine ⟨h.unbroken, h.alive, h.receiving, h.feeding, h.flushing, ?_, ?_, ?_⟩
      · refine Tok.Whole.of_append vs ?_
        rw [← List.append_assoc, ← hvs]
        exact h.whole
      · simpa using Nat.succ_le_of_lt hlt
      · simp
  | release =>
      exact ⟨h.unbroken, h.alive, h.receiving, h.feeding, h.flushing, h.whole, h.chunk_le,
        fun _ => List.isEmpty_eq_false_iff.mp hg.2.1⟩
  | feedError =>
      -- the rest of the batch is dropped, and the task goes on to flush
      obtain ⟨m, rest, hbuf⟩ := List.exists_cons_of_ne_nil (List.isEmpty_eq_false_iff.mp hg.2)
      have ha : a.onFeedError = .breakBatch := by
        cases hon : a.onFeedError with
        | breakBatch => rfl
        | returnTask => exact absurd hon hf
      have hp : p.update a .feedError =
          { p with writer := { p.writer with buffer := [], phase := .flushing } } := by
        simp [Pipe.update, Writer.feed, hbuf, ha, closeIfEnded]
      rw [hp]
      refine ⟨h.unbroken, ?_, ?_, ?_, ?_, h.whole, h.chunk_le, h.handing⟩
      · exact WriterPhase.noConfusion
      · exact fun habsurd => WriterPhase.noConfusion habsurd
      · exact fun habsurd => WriterPhase.noConfusion habsurd
      · exact fun _ => rfl
  | flushError => exact absurd trivial hf
  | reset k => exact absurd trivial hf

/-- A pipe that holds a message can move one, or waits for the receiver's channel. -/
theorem Flowing.progress (h : p.Flowing a) (hbatch : 0 < a.batchSize) (hne : p.contents ≠ []) :
    (∃ l : PipeStep, l.Moves ∧ p.guard a t l) ∨ ∃ m, p.next? = some m := by
  cases hcoll : p.collecting with
  | false =>
      obtain ⟨m, rest, hchunk⟩ := List.exists_cons_of_ne_nil (h.handing hcoll)
      exact .inr ⟨m, by simp [next?, hcoll, hchunk]⟩
  | true =>
      left
      by_cases hfull : p.chunk.length = a.batchSize
      · refine ⟨.release, trivial, hcoll, ?_, .inl hfull⟩
        rw [List.isEmpty_eq_false_iff, ← List.length_pos_iff]
        omega
      have hlt : p.chunk.length < a.batchSize := lt_of_le_of_ne h.chunk_le hfull
      cases hsplit : Tok.splitFrame p.readBuf with
      | some mr => exact ⟨.decode, trivial, hcoll, hlt, by simp [hsplit]⟩
      | none =>
          by_cases hsocket : p.socket = []
          swap
          · refine ⟨.fill 1, trivial, hcoll, hlt, by simp [hsplit], le_refl 1, ?_⟩
            exact List.length_pos_iff.mpr hsocket
          by_cases hchunk : p.chunk = []
          swap
          · exact ⟨.release, trivial, hcoll, List.isEmpty_eq_false_iff.mpr hchunk,
              .inr ⟨by simp [hsplit], by simp [hsocket]⟩⟩
          -- the reader side is idle, so the writer side has room
          by_cases hwriting : p.Writing t ∧ p.encoded ≠ []
          · refine ⟨.write 1, trivial, hwriting.1, le_refl 1, ?_, ?_⟩
            · exact List.length_pos_iff.mpr hwriting.2
            · simpa [hsocket] using Nat.succ_le_of_lt t.socketSpace_pos
          cases hphase : p.writer.phase with
          | ended => exact absurd hphase h.alive
          | flushing =>
              refine ⟨.flushed, trivial, hphase, ?_⟩
              by_contra henc
              exact hwriting ⟨.inl hphase, fun hnil => henc (List.isEmpty_iff.mpr hnil)⟩
          | feeding =>
              refine ⟨.feed 0, trivial, hphase,
                List.isEmpty_eq_false_iff.mpr (h.feeding hphase), ?_⟩
              by_contra hle
              have hhigh : t.highWater ≤ p.encoded.length := by omega
              have hpos := t.highWater_pos
              exact hwriting ⟨.inr ⟨hphase, hhigh⟩, List.length_pos_iff.mp (by omega)⟩
          | receiving =>
              obtain ⟨hbuf, henc⟩ := h.receiving hphase
              have hwhole := h.whole
              rw [hsocket, henc, List.append_nil, List.append_nil] at hwhole
              have hread : p.readBuf = [] := hwhole.eq_nil hsplit
              have hqueue : p.writer.queue ≠ [] := by
                intro hq
                exact hne (by simp [contents, arriving, hchunk, hread, hsocket, henc, hbuf, hq])
              exact ⟨.recvMany 1, trivial, hphase, le_refl 1, hbatch,
                List.length_pos_iff.mpr hqueue⟩

end

/-! ## How far there is to go -/

/-- The phase of a batch that is on its way to the socket, before the task receives the next. -/
def flushRank : WriterPhase → ℕ
  | .flushing => 1
  | _ => 0

/-- What is still ahead of the messages of a pipe: those in the queue, those in the batch, and
then the bytes, which go from the write buffer over the socket into the read buffer. -/
def ahead (p : Pipe α) : ℕ ×ₗ ℕ ×ₗ ℕ :=
  toLex (p.writer.queue.length, toLex (p.writer.buffer.length,
    flushRank p.writer.phase + 3 * p.encoded.length + 2 * p.socket.length + p.readBuf.length +
      p.collecting.toNat))

section

variable {a : Actor} {t : Transport} {p q : Pipe α} {l : PipeStep} {m : α}

/-- The pipe has got on if its queue is shorter. -/
theorem ahead_lt_of_queue (h : q.writer.queue.length < p.writer.queue.length) :
    q.ahead < p.ahead :=
  Prod.Lex.toLex_lt_toLex.mpr (.inl h)

/-- With the queue as it was, a pipe has got on if its batch is shorter. -/
theorem ahead_lt_of_buffer (hqueue : q.writer.queue = p.writer.queue)
    (h : q.writer.buffer.length < p.writer.buffer.length) : q.ahead < p.ahead :=
  Prod.Lex.toLex_lt_toLex.mpr
    (.inr ⟨congrArg List.length hqueue, Prod.Lex.toLex_lt_toLex.mpr (.inl h)⟩)

/-- With queue and batch as they were, a pipe has got on if the bytes and phases are further on. -/
theorem ahead_lt_of_bytes (hqueue : q.writer.queue = p.writer.queue)
    (hbuffer : q.writer.buffer = p.writer.buffer)
    (h : flushRank q.writer.phase + 3 * q.encoded.length + 2 * q.socket.length +
        q.readBuf.length + q.collecting.toNat <
      flushRank p.writer.phase + 3 * p.encoded.length + 2 * p.socket.length +
        p.readBuf.length + p.collecting.toNat) : q.ahead < p.ahead :=
  Prod.Lex.toLex_lt_toLex.mpr (.inr ⟨congrArg List.length hqueue,
    Prod.Lex.toLex_lt_toLex.mpr (.inr ⟨congrArg List.length hbuffer, h⟩)⟩)

/-- A step of one of the tasks gets a message, or some bytes, further. -/
theorem ahead_update_lt (hg : p.guard a t l) (hl : l.Moves) : (p.update a l).ahead < p.ahead := by
  cases l with
  -- the queue is shorter then
  | recvMany n =>
      rcases hg with ⟨_, hpos, _, hle⟩
      apply ahead_lt_of_queue
      show (p.writer.queue.drop n).length < p.writer.queue.length
      rw [List.length_drop]
      omega
  -- the batch is shorter
  | feed parts =>
      rcases List.exists_cons_of_ne_nil (List.isEmpty_eq_false_iff.mp hg.2.1) with ⟨m, rest, hbuf⟩
      apply ahead_lt_of_buffer
      · simp [Pipe.update, Pipe.feed, Writer.feed, hbuf]
      · simp [Pipe.update, Pipe.feed, Writer.feed, hbuf]
  | write k =>
      rcases hg with ⟨_, hpos, hle, _⟩
      -- a byte counts three before it is written and two in the socket
      have hwriter : (p.write k).writer.queue = p.writer.queue ∧
          (p.write k).writer.buffer = p.writer.buffer ∧
          flushRank (p.write k).writer.phase ≤ flushRank p.writer.phase := by
        unfold write
        dsimp only
        split
        · exact ⟨rfl, rfl, Nat.zero_le _⟩
        · exact ⟨rfl, rfl, Nat.le_refl _⟩
      have hsocket : (p.write k).socket.length ≤ p.socket.length + k := by
        unfold write
        dsimp only
        split
        · omega
        · rw [List.length_append, List.length_take]
          omega
      have hencoded : (p.write k).encoded.length = p.encoded.length - k := List.length_drop
      apply ahead_lt_of_bytes hwriter.1 hwriter.2.1
      show flushRank (p.write k).writer.phase + 3 * (p.write k).encoded.length +
        2 * (p.write k).socket.length + p.readBuf.length + p.collecting.toNat < _
      omega
  | flushed =>
      apply ahead_lt_of_bytes
      · rfl
      · rfl
      · have hphase : flushRank p.writer.phase = 1 := by rw [hg.1]; rfl
        show 0 + 3 * p.encoded.length + 2 * p.socket.length + p.readBuf.length +
          p.collecting.toNat < _
        omega
  -- and one once it is read
  | fill k =>
      rcases hg with ⟨_, _, _, hpos, hle⟩
      apply ahead_lt_of_bytes
      · rfl
      · rfl
      · show flushRank p.writer.phase + 3 * p.encoded.length + 2 * (p.socket.drop k).length +
          (p.readBuf ++ p.socket.take k).length + p.collecting.toNat < _
        rw [List.length_drop, List.length_append, List.length_take]
        omega
  | decode =>
      rcases Option.isSome_iff_exists.mp hg.2.2 with ⟨⟨m, rest⟩, hsplit⟩
      have hlt := Tok.length_of_splitFrame hsplit
      have hp : p.update a .decode = { p with readBuf := rest, chunk := p.chunk ++ [m] } := by
        simp [Pipe.update, Pipe.decode, hsplit]
      rw [hp]
      apply ahead_lt_of_bytes
      · rfl
      · rfl
      · show flushRank p.writer.phase + 3 * p.encoded.length + 2 * p.socket.length +
          rest.length + p.collecting.toNat < _
        omega
  | release =>
      have hcollecting : p.collecting.toNat = 1 := by rw [hg.1]; rfl
      apply ahead_lt_of_bytes
      · rfl
      · rfl
      · show flushRank p.writer.phase + 3 * p.encoded.length + 2 * p.socket.length +
          p.readBuf.length + 0 < _
        omega
  | feedError => exact absurd hl id
  | flushError => exact absurd hl id
  | reset k => exact absurd hl id

/-- A pipe has got on: its first message has left it, or less is ahead of the others. -/
def Advances (p q : Pipe α) : Prop := q.ahead < p.ahead ∨ ∃ m, p.contents = m :: q.contents

/-- The message that is handed on was the next one. -/
theorem contents_forward (h : p.next? = some m) : p.contents = m :: p.forward.contents := by
  simp only [contents, arriving, forward]
  rw [next_mem_chunk h]
  rfl

end

end Pipe

end OmnipaxosKv
