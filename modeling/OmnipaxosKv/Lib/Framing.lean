import Mathlib

/-! # Length-delimited framing

A frame is a four-byte big-endian length followed by that many bytes. A reader
keeps a buffer: it takes one frame off its front when a whole one is there and
otherwise appends whatever the next read of the socket returns.

* `frames_eq_decodeAll`: what a reader gets does not depend on how the stream was
  split into reads, only on the bytes;
* `decodeAll_encodeAll`: what was framed is what is decoded;
* `sum_le_of_decodeAll`: a reader cannot get more bytes of payload, headers
  included, than it was given.
-/

namespace Framing

/-- The bytes on the wire. -/
abbrev Bytes := List UInt8

/-- The length field: four bytes, most significant first. -/
def header (n : ℕ) : Bytes :=
  [UInt8.ofNat (n / 2 ^ 24), UInt8.ofNat (n / 2 ^ 16), UInt8.ofNat (n / 2 ^ 8), UInt8.ofNat n]

def headerValue (a b c d : UInt8) : ℕ :=
  a.toNat * 2 ^ 24 + b.toNat * 2 ^ 16 + c.toNat * 2 ^ 8 + d.toNat

/-- A header is read as it was written. -/
theorem headerValue_header {n : ℕ} (h : n < 2 ^ 32) :
    headerValue (UInt8.ofNat (n / 2 ^ 24)) (UInt8.ofNat (n / 2 ^ 16)) (UInt8.ofNat (n / 2 ^ 8))
      (UInt8.ofNat n) = n := by
  simp only [headerValue, UInt8.toNat_ofNat']
  omega

/-- What the codec makes of its buffer. -/
inductive Decoded where
  | incomplete
  | frame (payload rest : Bytes)
  | tooLong
deriving DecidableEq, Repr

section

/-! The longest frame the codec accepts; the length field has to hold it. -/

variable (maxLen : ℕ)

def encodeFrame (payload : Bytes) : Option Bytes :=
  if payload.length ≤ maxLen then some (header payload.length ++ payload) else none

def decodeFrame : Bytes → Decoded
  | a :: b :: c :: d :: rest =>
      if maxLen < headerValue a b c d then .tooLong
      else if headerValue a b c d ≤ rest.length then
        .frame (rest.take (headerValue a b c d)) (rest.drop (headerValue a b c d))
      else .incomplete
  | _ => .incomplete

/-- One `next().await` of a framed reader: what it returns, its buffer afterwards
and the reads it has not made yet. `none` when it waits for more bytes. -/
def nextFrame (buf : Bytes) : List Bytes → Option (Option Bytes × Bytes × List Bytes)
  | [] =>
      match decodeFrame maxLen buf with
      | .frame payload rest => some (some payload, rest, [])
      | .tooLong => some (none, buf, [])
      | .incomplete => none
  | r :: reads =>
      match decodeFrame maxLen buf with
      | .frame payload rest => some (some payload, rest, r :: reads)
      | .tooLong => some (none, buf, r :: reads)
      | .incomplete => nextFrame (buf ++ r) reads

/-- All frames a reader gets out of its buffer and its reads. After a frame that is
too long the stream has ended. The fuel bounds the number of frames. -/
def framesWithin : ℕ → Bytes → List Bytes → List (Option Bytes)
  | 0, _, _ => []
  | fuel + 1, buf, reads =>
      match nextFrame maxLen buf reads with
      | some (some payload, buf', reads') => some payload :: framesWithin fuel buf' reads'
      | some (none, _, _) => [none]
      | none => []

/-- All frames of a reader with an empty buffer; every frame takes a byte at least. -/
def frames (reads : List Bytes) : List (Option Bytes) :=
  framesWithin maxLen (reads.flatten.length + 1) [] reads

/-- The frames of a stream that is there as a whole. -/
def decodeWithin : ℕ → Bytes → List (Option Bytes)
  | 0, _ => []
  | fuel + 1, bytes =>
      match decodeFrame maxLen bytes with
      | .frame payload rest => some payload :: decodeWithin fuel rest
      | .tooLong => [none]
      | .incomplete => []

def decodeAll (bytes : Bytes) : List (Option Bytes) :=
  decodeWithin maxLen (bytes.length + 1) bytes

/-- Frames of consecutive payloads, if the codec accepts them all. -/
def encodeAll : List Bytes → Option Bytes
  | [] => some []
  | p :: ps => do
      let f ← encodeFrame maxLen p
      let fs ← encodeAll ps
      return f ++ fs

end

variable {maxLen : ℕ}

/-! ## One frame -/

/-- Bytes that come later change nothing about a frame that is there. -/
theorem decodeFrame_append_frame {buf payload rest : Bytes} (more : Bytes)
    (h : decodeFrame maxLen buf = .frame payload rest) :
    decodeFrame maxLen (buf ++ more) = .frame payload (rest ++ more) := by
  match buf, h with
  | a :: b :: c :: d :: tl, h =>
      simp only [decodeFrame] at h
      split at h
      · cases h
      · next hmax =>
          split at h
          · next hlen =>
              obtain ⟨rfl, rfl⟩ := Decoded.frame.inj h
              have hlen' : headerValue a b c d ≤ (tl ++ more).length := by
                rw [List.length_append]
                omega
              simp only [List.cons_append, decodeFrame, if_neg hmax, if_pos hlen']
              rw [List.take_append_of_le_length hlen, List.drop_append_of_le_length hlen]
          · cases h

/-- Bytes that follow change nothing about a frame that is too long. -/
theorem decodeFrame_append_tooLong {buf : Bytes} (more : Bytes)
    (h : decodeFrame maxLen buf = .tooLong) : decodeFrame maxLen (buf ++ more) = .tooLong := by
  match buf, h with
  | a :: b :: c :: d :: tl, h =>
      simp only [decodeFrame] at h
      split at h
      · next hmax => simp only [List.cons_append, decodeFrame, if_pos hmax]
      · split at h <;> cases h

/-- A decoded frame and what follows it make up the buffer. -/
theorem length_of_decodeFrame {buf payload rest : Bytes}
    (h : decodeFrame maxLen buf = .frame payload rest) :
    buf.length = 4 + payload.length + rest.length := by
  match buf, h with
  | a :: b :: c :: d :: tl, h =>
      simp only [decodeFrame] at h
      split at h
      · cases h
      · split at h
        · next hlen =>
            obtain ⟨rfl, rfl⟩ := Decoded.frame.inj h
            simp only [List.length_cons, List.length_take, List.length_drop]
            omega
        · cases h

/-- A frame is decoded to its payload, whatever follows it. -/
theorem decodeFrame_encodeFrame {payload f : Bytes} (more : Bytes) (hmax : maxLen < 2 ^ 32)
    (h : encodeFrame maxLen payload = some f) :
    decodeFrame maxLen (f ++ more) = .frame payload more := by
  unfold encodeFrame at h
  split at h
  · next hle =>
      obtain rfl := Option.some.inj h
      have hval := headerValue_header (n := payload.length) (by omega)
      simp only [header, List.cons_append, List.nil_append, decodeFrame, hval]
      rw [if_neg (by omega), if_pos (by simp)]
      simp
  · cases h

/-- A frame is its payload and four bytes. -/
theorem length_of_encodeFrame {payload f : Bytes} (h : encodeFrame maxLen payload = some f) :
    f.length = 4 + payload.length := by
  unfold encodeFrame at h
  split at h
  · obtain rfl := Option.some.inj h
    simp [header]
    omega
  · cases h

/-! ## Streams -/

/-- What `next` returns is the first frame of buffer and reads taken together. -/
theorem nextFrame_spec (buf : Bytes) (reads : List Bytes) :
    match nextFrame maxLen buf reads with
    | some (some payload, buf', reads') =>
        decodeFrame maxLen (buf ++ reads.flatten) = .frame payload (buf' ++ reads'.flatten)
    | some (none, _, _) => decodeFrame maxLen (buf ++ reads.flatten) = .tooLong
    | none => decodeFrame maxLen (buf ++ reads.flatten) = .incomplete := by
  induction reads generalizing buf with
  | nil => cases h : decodeFrame maxLen buf <;> simp [nextFrame, h]
  | cons r reads ih =>
      cases h : decodeFrame maxLen buf with
      | incomplete => simpa [nextFrame, h] using ih (buf ++ r)
      | frame payload rest => simpa [nextFrame, h] using decodeFrame_append_frame _ h
      | tooLong => simpa [nextFrame, h] using decodeFrame_append_tooLong _ h

/-- How the bytes are split into reads does not matter for the frames. -/
theorem framesWithin_eq_decodeWithin (fuel : ℕ) (buf : Bytes) (reads : List Bytes) :
    framesWithin maxLen fuel buf reads = decodeWithin maxLen fuel (buf ++ reads.flatten) := by
  induction fuel generalizing buf reads with
  | zero => rfl
  | succ fuel ih =>
      have hspec := @nextFrame_spec maxLen buf reads
      simp only [framesWithin, decodeWithin]
      split at hspec
      · simp only [hspec, ih]
      · simp only [hspec]
      · simp only [hspec]

/-- How a stream is split into reads does not matter to its reader. -/
theorem frames_eq_decodeAll (reads : List Bytes) :
    frames maxLen reads = decodeAll maxLen reads.flatten := by
  simp [frames, decodeAll, framesWithin_eq_decodeWithin]

/-- Payloads are encoded one after the other. -/
theorem encodeAll_cons {p : Bytes} {ps : List Bytes} {bs : Bytes} :
    encodeAll maxLen (p :: ps) = some bs ↔
      ∃ f fs, encodeFrame maxLen p = some f ∧ encodeAll maxLen ps = some fs ∧ f ++ fs = bs := by
  simp [encodeAll, Option.bind_eq_some_iff]

/-- The length of what is encoded. -/
theorem length_of_encodeAll {ps : List Bytes} {bs : Bytes} (h : encodeAll maxLen ps = some bs) :
    bs.length = (ps.map (fun p => 4 + p.length)).sum := by
  induction ps generalizing bs with
  | nil => simp_all [encodeAll]
  | cons p ps ih =>
      obtain ⟨f, fs, hf, hfs, rfl⟩ := encodeAll_cons.mp h
      simp [length_of_encodeFrame hf, ih hfs]

/-- What was encoded is decoded, with enough fuel. -/
theorem decodeWithin_encodeAll {ps : List Bytes} {bs : Bytes} (hmax : maxLen < 2 ^ 32)
    (h : encodeAll maxLen ps = some bs) (fuel : ℕ) (hfuel : ps.length < fuel) :
    decodeWithin maxLen fuel bs = ps.map some := by
  induction ps generalizing bs fuel with
  | nil =>
      obtain ⟨fuel, rfl⟩ := Nat.exists_eq_succ_of_ne_zero (Nat.ne_of_gt hfuel)
      simp_all [encodeAll, decodeWithin, decodeFrame]
  | cons p ps ih =>
      obtain ⟨f, fs, hf, hfs, rfl⟩ := encodeAll_cons.mp h
      obtain ⟨fuel, rfl⟩ := Nat.exists_eq_succ_of_ne_zero (Nat.ne_of_gt (Nat.zero_lt_of_lt hfuel))
      simp only [decodeWithin, decodeFrame_encodeFrame fs hmax hf, List.map_cons]
      rw [ih hfs fuel (by simpa using hfuel)]

/-- Framing a list of payloads and decoding the stream gives the list back. -/
theorem decodeAll_encodeAll {ps : List Bytes} {bs : Bytes} (hmax : maxLen < 2 ^ 32)
    (h : encodeAll maxLen ps = some bs) : decodeAll maxLen bs = ps.map some := by
  refine decodeWithin_encodeAll hmax h _ ?_
  have hlen : ps.length ≤ (ps.map (fun p => 4 + p.length)).sum := by
    clear h
    induction ps with
    | nil => simp
    | cons p ps ih =>
        simp only [List.map_cons, List.sum_cons, List.length_cons]
        omega
  rw [length_of_encodeAll h]
  omega

/-- The payloads decoded from a stream, with their headers, are no longer than it. -/
theorem sum_le_of_decodeAll {bytes : Bytes} {qs : List Bytes}
    (h : decodeAll maxLen bytes = qs.map some) :
    (qs.map (fun q => 4 + q.length)).sum ≤ bytes.length := by
  have hgen : ∀ (fuel : ℕ) (bytes : Bytes) (qs : List Bytes),
      decodeWithin maxLen fuel bytes = qs.map some →
        (qs.map (fun q => 4 + q.length)).sum ≤ bytes.length := by
    intro fuel
    induction fuel with
    | zero =>
        intro bytes qs h
        cases qs <;> simp_all [decodeWithin]
    | succ fuel ih =>
        intro bytes qs h
        simp only [decodeWithin] at h
        split at h
        · next payload rest hdec =>
            cases qs with
            | nil => simp
            | cons q qs =>
                simp only [List.map_cons, List.cons.injEq, Option.some.injEq] at h
                obtain ⟨rfl, h⟩ := h
                have hle := ih rest qs h
                have hlen := length_of_decodeFrame hdec
                simp only [List.map_cons, List.sum_cons]
                omega
        · cases qs <;> simp_all
        · cases qs <;> simp_all
  exact hgen _ bytes qs h

/-! ## What is left in the buffer -/

/-- `next` stops at the first read boundary that completes a frame: if a frame ends
at a boundary, nothing is left in the buffer. -/
theorem nextFrame_of_boundary {buf payload : Bytes} {reads : List Bytes} (k : ℕ)
    (h : decodeFrame maxLen (buf ++ (reads.take k).flatten) = .frame payload []) :
    ∃ reads', nextFrame maxLen buf reads = some (some payload, [], reads') := by
  induction reads generalizing buf k with
  | nil =>
      simp only [List.take_nil, List.flatten_nil, List.append_nil] at h
      exact ⟨[], by simp [nextFrame, h]⟩
  | cons r reads ih =>
      cases hbuf : decodeFrame maxLen buf with
      | frame payload' rest =>
          rw [decodeFrame_append_frame _ hbuf] at h
          obtain ⟨rfl, hrest⟩ := Decoded.frame.inj h
          obtain ⟨rfl, -⟩ := List.append_eq_nil_iff.mp hrest
          exact ⟨r :: reads, by simp [nextFrame, hbuf]⟩
      | tooLong =>
          rw [decodeFrame_append_tooLong _ hbuf] at h
          cases h
      | incomplete =>
          cases k with
          | zero => simp [hbuf] at h
          | succ k =>
              have h' : decodeFrame maxLen (buf ++ r ++ (reads.take k).flatten) =
                  .frame payload [] := by simpa using h
              obtain ⟨reads', hnext⟩ := ih k h'
              exact ⟨reads', by simpa [nextFrame, hbuf] using hnext⟩

/-- The reads that `next` made, and what was left of them in the buffer. -/
theorem exists_used_of_nextFrame {buf buf' payload : Bytes} {reads reads' : List Bytes}
    (h : nextFrame maxLen buf reads = some (some payload, buf', reads')) :
    ∃ used, reads = used ++ reads' ∧
      decodeFrame maxLen (buf ++ used.flatten) = .frame payload buf' := by
  induction reads generalizing buf with
  | nil =>
      cases hbuf : decodeFrame maxLen buf <;> simp only [nextFrame, hbuf] at h <;> cases h
      exact ⟨[], by simp, by simpa using hbuf⟩
  | cons r reads ih =>
      cases hbuf : decodeFrame maxLen buf with
      | incomplete =>
          obtain ⟨used, rfl, hdec⟩ := ih (by simpa [nextFrame, hbuf] using h)
          exact ⟨r :: used, by simp, by simpa using hdec⟩
      | tooLong => simp [nextFrame, hbuf] at h
      | frame payload' rest =>
          simp only [nextFrame, hbuf, Option.some.injEq, Prod.mk.injEq] at h
          obtain ⟨rfl, rfl, rfl⟩ := h
          exact ⟨[], by simp, by simpa using hbuf⟩

/-! ## Messages in frames -/

/-- A serializer of messages. -/
structure Codec (α : Type) where
  encode : α → Bytes
  decode : Bytes → Option α

/-- Decoding undoes encoding, and no encoding of a message is shorter than the one
that the serializer writes. -/
structure Codec.Lawful {α : Type} (c : Codec α) : Prop where
  roundTrip : ∀ m, c.decode (c.encode m) = some m
  shortest : ∀ b m, c.decode b = some m → (c.encode m).length ≤ b.length

/-- The messages a framed reader returns, `none` where it reports an error. -/
def messages {α : Type} (maxLen : ℕ) (c : Codec α) (reads : List Bytes) : List (Option α) :=
  (frames maxLen reads).map (fun f => f.bind c.decode)

/-- Messages are received as they were sent, however the bytes are split into reads. -/
theorem messages_of_flatten {α : Type} {c : Codec α} (hc : c.Lawful) {ms : List α} {bs : Bytes}
    {reads : List Bytes} (hmax : maxLen < 2 ^ 32)
    (hms : encodeAll maxLen (ms.map c.encode) = some bs) (hreads : reads.flatten = bs) :
    messages maxLen c reads = ms.map some := by
  rw [messages, frames_eq_decodeAll, hreads, decodeAll_encodeAll hmax hms]
  simp [hc.roundTrip]

/-- A reader that returns all of `ms` was given at least the bytes `ms` are framed in. -/
theorem length_le_of_messages {α : Type} {c : Codec α} (hc : c.Lawful) {ms : List α} {bs : Bytes}
    {reads : List Bytes} (hms : encodeAll maxLen (ms.map c.encode) = some bs)
    (h : messages maxLen c reads = ms.map some) : bs.length ≤ reads.flatten.length := by
  obtain ⟨qs, hqs, hdec⟩ : ∃ qs : List Bytes, frames maxLen reads = qs.map some ∧
      qs.map c.decode = ms.map some := by
    rw [messages] at h
    clear hms
    generalize frames maxLen reads = fs at h
    induction fs generalizing ms with
    | nil => exact ⟨[], rfl, by simpa using h⟩
    | cons f fs ih =>
        cases ms with
        | nil => simp at h
        | cons m ms =>
            simp only [List.map_cons, List.cons.injEq] at h
            obtain ⟨q, rfl, hq⟩ := Option.bind_eq_some_iff.mp h.1
            obtain ⟨qs, rfl, hqs⟩ := ih h.2
            exact ⟨q :: qs, rfl, by simp [hq, hqs]⟩
  have hsum : ((ms.map c.encode).map (fun p => 4 + p.length)).sum ≤
      (qs.map (fun q => 4 + q.length)).sum := by
    clear hms h hqs
    induction qs generalizing ms with
    | nil => cases ms <;> simp_all
    | cons q qs ih =>
        cases ms with
        | nil => simp
        | cons m ms =>
            simp only [List.map_cons, List.cons.injEq] at hdec
            have hq := hc.shortest q m hdec.1
            have hrest := ih hdec.2
            simp only [List.map_cons, List.sum_cons]
            omega
  calc bs.length = ((ms.map c.encode).map (fun p => 4 + p.length)).sum := length_of_encodeAll hms
    _ ≤ (qs.map (fun q => 4 + q.length)).sum := hsum
    _ ≤ reads.flatten.length := sum_le_of_decodeAll (by rw [← frames_eq_decodeAll, hqs])

end Framing
