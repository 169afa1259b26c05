import Mathlib.Logic.Equiv.Nat
import OmnipaxosKv.Common
import OmnipaxosKv.Lib.Framing

/-! # The handshake of a connection (`Network::handle_incoming_connection`)

A server that connects to a peer writes a `NodeRegister` frame and then, on the
same socket, its cluster messages. The accepting side reads the handshake with
one framed transport, takes the socket out of it and builds the peer connection
on the bare socket. Whatever the first transport had read beyond the handshake
stays in its buffer and is dropped with it.

`handshake_exact_iff` says for which splits of the stream into socket reads the
peer connection still decodes exactly the messages that were sent.
-/

namespace OmnipaxosKv.Handshake

open Framing

/-- The default frame limit of `LengthDelimitedCodec`. -/
def maxFrameLength : ℕ := 8 * 1024 * 1024

/-- What a handshake task hands on: who connected, and the reads that the socket
taken out of the registration transport will still return. -/
inductive NewConnection where
  | toPeer (peerId : NodeId) (stream : List Bytes)
  | toClient (stream : List Bytes)
deriving DecidableEq, Repr

/-- `handle_incoming_connection`. The serializers are parameters: the payload
format is `bincode`'s and the consensus messages are a library's. -/
def handleIncomingConnection (reg : Codec RegistrationMessage) (reads : List Bytes) :
    Option NewConnection :=
  match nextFrame maxFrameLength [] reads with
  | some (some payload, _buffer, stream) =>
      -- `into_inner().into_inner()` returns the socket without `_buffer`
      match reg.decode payload with
      | some (.nodeRegister nodeId) => some (.toPeer nodeId stream)
      | some .clientRegister => some (.toClient stream)
      | none => none
  | _ => none

/-- What the reader actor of `PeerConnection::new` gets out of its socket; `none` is
an item it logs as an error. -/
def received {M : Type} (codec : Codec (ClusterMessage M)) (stream : List Bytes) :
    List (Option (ClusterMessage M)) :=
  messages maxFrameLength codec stream

/-- The bytes of the handshake of `spawn_peer_connectors`. -/
def handshakeBytes (reg : Codec RegistrationMessage) (myId : NodeId) : Option Bytes :=
  encodeFrame maxFrameLength (reg.encode (.nodeRegister myId))

/-- The bytes of the cluster messages that follow it. -/
def messageBytes {M : Type} (codec : Codec (ClusterMessage M)) (ms : List (ClusterMessage M)) :
    Option Bytes :=
  encodeAll maxFrameLength (ms.map codec.encode)

theorem maxFrameLength_lt : maxFrameLength < 2 ^ 32 := by decide

section

variable {M : Type} {reg : Codec RegistrationMessage} {codec : Codec (ClusterMessage M)}

/-- A peer's handshake is always recognised; the socket keeps what was not read yet. -/
theorem handleIncomingConnection_eq (hreg : reg.Lawful) {myId : NodeId} {hs bs : Bytes}
    {reads : List Bytes} (hhs : handshakeBytes reg myId = some hs)
    (hreads : reads.flatten = hs ++ bs) :
    ∃ buf stream,
      nextFrame maxFrameLength [] reads =
        some (some (reg.encode (.nodeRegister myId)), buf, stream) ∧
      buf ++ stream.flatten = bs ∧
      handleIncomingConnection reg reads = some (.toPeer myId stream) := by
  have hdec := decodeFrame_encodeFrame bs maxFrameLength_lt hhs
  have hspec := @nextFrame_spec maxFrameLength [] reads
  rw [List.nil_append, hreads, hdec] at hspec
  split at hspec
  · next payload buf stream hnext =>
      obtain ⟨rfl, hrest⟩ := Decoded.frame.inj hspec
      refine ⟨buf, stream, hnext, hrest.symm, ?_⟩
      simp [handleIncomingConnection, hnext, hreg.roundTrip]
  · cases hspec
  · cases hspec

/-- The peer connection decodes exactly what was sent after the handshake iff some
socket read ends with the last byte of the handshake. -/
theorem handshake_exact_iff (hreg : reg.Lawful) (hcodec : codec.Lawful) {myId : NodeId}
    {ms : List (ClusterMessage M)} {hs bs : Bytes} {reads : List Bytes}
    (hhs : handshakeBytes reg myId = some hs) (hms : messageBytes codec ms = some bs)
    (hreads : reads.flatten = hs ++ bs) :
    (∃ stream, handleIncomingConnection reg reads = some (.toPeer myId stream) ∧
      received codec stream = ms.map some) ↔
    ∃ k, (reads.take k).flatten = hs := by
  obtain ⟨buf, stream, hnext, hrest, hconn⟩ := handleIncomingConnection_eq hreg hhs hreads
  constructor
  · rintro ⟨stream', hconn', hrecv⟩
    obtain rfl : stream = stream' := by
      rw [hconn] at hconn'
      simpa using hconn'
    -- all bytes of the messages were still in the socket, so none were in the buffer
    have hle : bs.length ≤ stream.flatten.length := length_le_of_messages hcodec hms hrecv
    have hbuf : buf = [] := by
      rw [← List.length_eq_zero_iff]
      have hlen := congrArg List.length hrest
      rw [List.length_append] at hlen
      omega
    subst hbuf
    obtain ⟨used, rfl, hused⟩ := exists_used_of_nextFrame hnext
    refine ⟨used.length, ?_⟩
    have hlen : used.flatten.length = hs.length := by
      rw [length_of_encodeFrame hhs]
      simpa using length_of_decodeFrame hused
    rw [List.flatten_append] at hreads
    rw [List.take_left]
    exact (List.append_inj hreads hlen).1
  · rintro ⟨k, hk⟩
    have hdec : decodeFrame maxFrameLength ([] ++ (reads.take k).flatten) =
        .frame (reg.encode (.nodeRegister myId)) [] := by
      simpa [hk] using decodeFrame_encodeFrame [] maxFrameLength_lt hhs
    obtain ⟨stream', hnext'⟩ := nextFrame_of_boundary k hdec
    rw [hnext'] at hnext
    simp only [Option.some.injEq, Prod.mk.injEq, true_and] at hnext
    obtain ⟨rfl, rfl⟩ := hnext
    exact ⟨stream', hconn, messages_of_flatten hcodec maxFrameLength_lt hms (by simpa using hrest)⟩

end

/-! ## Concrete serializers

`bincode` writes an enum as its variant index and an integer below 251 as one byte.
Longer integers are written in unary here, which no example below does; a library
message is the bytes it was serialized to. -/

def varint (n : ℕ) : Bytes := if n < 251 then [UInt8.ofNat n] else 251 :: List.replicate n 0

def readVarint : Bytes → Option ℕ
  | [b] => if b < 251 then some b.toNat else none
  | b :: rest => if b = 251 ∧ 251 ≤ rest.length then some rest.length else none
  | [] => none

/-- A number is read as it was written. -/
theorem readVarint_varint (n : ℕ) : readVarint (varint n) = some n := by
  unfold varint
  split
  · next h =>
      have hlt : UInt8.ofNat n < 251 := by
        rw [UInt8.lt_iff_toNat_lt, UInt8.toNat_ofNat']
        show n % 256 < 251
        omega
      simp only [readVarint, if_pos hlt, UInt8.toNat_ofNat', Option.some.injEq]
      omega
  · next h =>
      have hne : List.replicate n (0 : UInt8) ≠ [] := by
        intro hnil
        have := congrArg List.length hnil
        simp at this
        omega
      obtain ⟨b, rest, hrest⟩ := List.exists_cons_of_ne_nil hne
      have hlen : (b :: rest).length = n := by rw [← hrest, List.length_replicate]
      rw [hrest]
      simp only [readVarint, true_and, hlen]
      rw [if_pos (by omega)]

/-- No number is read from fewer bytes than it is written with. -/
theorem length_varint_le {bs : Bytes} {n : ℕ} (h : readVarint bs = some n) :
    (varint n).length ≤ bs.length := by
  match bs, h with
  | [b], h =>
      simp only [readVarint] at h
      split at h
      · next hb =>
          obtain rfl := Option.some.inj h
          have hlt : b.toNat < 251 := hb
          simp [varint, hlt]
      · cases h
  | b :: b' :: rest, h =>
      simp only [readVarint] at h
      split at h
      · next hb =>
          obtain rfl := Option.some.inj h
          rw [varint, if_neg (by omega)]
          simp
      · cases h

def bincodeRegistration : Codec RegistrationMessage where
  encode
    | .nodeRegister n => 0 :: varint n
    | .clientRegister => [1]
  decode
    | [] => none
    | b :: rest =>
        if b = 0 then (readVarint rest).map .nodeRegister
        else if b = 1 ∧ rest = [] then some .clientRegister
        else none

def bincodeCluster : Codec (ClusterMessage Bytes) where
  encode
    | .omniPaxosMessage m => 0 :: m
    | .leaderStartSignal t => 1 :: varint (Equiv.intEquivNat t)
  decode
    | [] => none
    | b :: rest =>
        if b = 0 then some (.omniPaxosMessage rest)
        else if b = 1 then
          (readVarint rest).map (fun n => .leaderStartSignal (Equiv.intEquivNat.symm n))
        else none

/-- A registration message is decoded as it was encoded. -/
theorem bincodeRegistration_lawful : bincodeRegistration.Lawful where
  roundTrip := by
    rintro (n | _)
    · simp [bincodeRegistration, readVarint_varint]
    · rfl
  shortest := by
    intro bs m h
    match bs, h with
    | b :: rest, h =>
        simp only [bincodeRegistration] at h
        split at h
        · obtain ⟨n, hn, rfl⟩ := Option.map_eq_some_iff.mp h
          simpa [bincodeRegistration] using length_varint_le hn
        · split at h
          · obtain rfl := Option.some.inj h
            simp [bincodeRegistration]
          · cases h

/-- A message between servers is decoded as it was encoded. -/
theorem bincodeCluster_lawful : bincodeCluster.Lawful where
  roundTrip := by
    rintro (m | t)
    · simp [bincodeCluster]
    · simp [bincodeCluster, readVarint_varint]
  shortest := by
    intro bs m h
    match bs, h with
    | b :: rest, h =>
        simp only [bincodeCluster] at h
        split at h
        · obtain rfl := Option.some.inj h
          simp [bincodeCluster]
        · split at h
          · obtain ⟨n, hn, rfl⟩ := Option.map_eq_some_iff.mp h
            simpa [bincodeCluster] using length_varint_le hn
          · cases h

/-- Server 2 connects to server 1 and sends the consensus message `7`. When the reads
split the stream after the handshake, the message arrives. -/
theorem handshake_exact_when_split :
    ∃ stream, handleIncomingConnection bincodeRegistration [[0, 0, 0, 2, 0, 2], [0, 0, 0, 2, 0, 7]]
        = some (.toPeer 2 stream) ∧
      received bincodeCluster stream = [.omniPaxosMessage [7]].map some := by
  have hhs : handshakeBytes bincodeRegistration 2 = some [0, 0, 0, 2, 0, 2] := by decide
  have hms : messageBytes bincodeCluster [.omniPaxosMessage [7]] = some [0, 0, 0, 2, 0, 7] := by
    decide
  exact (handshake_exact_iff bincodeRegistration_lawful bincodeCluster_lawful hhs hms rfl).mpr
    ⟨1, rfl⟩

/-- The same bytes in one read: the message is in the buffer of the registration
transport and the peer connection decodes nothing. -/
theorem handshake_loses_message :
    ¬ ∃ stream, handleIncomingConnection bincodeRegistration
          [[0, 0, 0, 2, 0, 2, 0, 0, 0, 2, 0, 7]] = some (.toPeer 2 stream) ∧
        received bincodeCluster stream = [.omniPaxosMessage [7]].map some := by
  rintro ⟨stream, hconn, hrecv⟩
  have hempty : handleIncomingConnection bincodeRegistration
      [[0, 0, 0, 2, 0, 2, 0, 0, 0, 2, 0, 7]] = some (.toPeer 2 []) := by decide
  rw [hempty] at hconn
  obtain rfl : [] = stream := by simpa using hconn
  revert hrecv
  decide

end OmnipaxosKv.Handshake
