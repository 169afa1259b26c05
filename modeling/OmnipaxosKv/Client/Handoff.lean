import OmnipaxosKv.Client.Pending

/-! # Hand-off of commands

A request's id enters a pending table before its `network.send`, and `network.send`
reports no failure. `handoff_reported_iff` says in which runs every command is handed off, or
else its request answered, and no request stays pending with nothing in flight: those in
which each `send` finds a live connection and the connection drops no message that a request
waits for.
-/

namespace OmnipaxosKv

namespace Client

namespace Shim

/-- The shim, the tasks of its connection, and a server that sends anything. -/
inductive ShimEvent where
  | task (l : ShimStep)
  | connection (l : PipeStep)
  | handOn
  | arrive (msg : ServerMessage)
deriving DecidableEq, Repr

/-- What an event does to the tasks and the socket of the connection. -/
def ShimEvent.connectionStep : ShimEvent → Option PipeStep
  | .connection l => some l
  | _ => none

/-- The connection to the active server. -/
def pipe (activeServer : NodeId) (s : Shim) : Pipe ClientMessage := s.network.toServer activeServer

def withPipe (activeServer : NodeId) (p : Pipe ClientMessage) (s : Shim) : Shim :=
  { s with network := { s.network with
    toServer := Function.update s.network.toServer activeServer p } }

def system (activeServer : NodeId) (t : Transport) : Machine Shim ShimEvent where
  init := fun s => s = new activeServer
  guard
    | .task l, s => s.guard activeServer l
    | .connection l, s => (s.pipe activeServer).guard serverTask t l
    | .handOn, s => (s.pipe activeServer).next?.isSome
    | .arrive _, s => s.network.serverMessages.length < networkBatchSize
  update
    | .task l, s => s.update activeServer l
    | .connection l, s => s.withPipe activeServer ((s.pipe activeServer).update serverTask l)
    | .handOn, s => s.withPipe activeServer (s.pipe activeServer).forward
    | .arrive msg, s =>
        { s with network := { s.network with serverMessages := s.network.serverMessages ++ [msg] } }

instance (activeServer : NodeId) (t : Transport) (e : ShimEvent) (s : Shim) :
    Decidable ((system activeServer t).guard e s) := by
  cases e <;> unfold system <;> infer_instance

/-- The request of the message is in a pending table. -/
def Awaits (s : Shim) : ClientMessage → Prop
  | .append i _ => i ∈ s.pendingPut ∨ i ∈ s.pendingGet

instance (s : Shim) : DecidablePred s.Awaits
  | .append _ _ => inferInstanceAs (Decidable (_ ∨ _))

/-- The step loses no command that is waited for: a `network.send` returns while the slot is
filled and the writer task lives, and the connection drops no message of a pending request. -/
def Delivers (activeServer : NodeId) (e : ShimEvent) (s : Shim) : Prop :=
  (e = .task .resolveSend → s.network.Connected activeServer) ∧
  ∀ l ∈ e.connectionStep, ∀ m ∈ (s.pipe activeServer).contents, s.Awaits m →
    m ∈ ((s.pipe activeServer).update serverTask l).contents

instance (activeServer : NodeId) (e : ShimEvent) (s : Shim) :
    Decidable (Delivers activeServer e s) :=
  inferInstanceAs (Decidable (_ ∧ _))

/-- The outgoing queue of the connection accepted the command. -/
def Accepted (activeServer : NodeId) (s : Shim) (i : CommandId) (c : KVCommand) : Prop :=
  .append i c ∈ (s.pipe activeServer).writer.accepted

/-- The reply channel of the request was completed or dropped, and no table holds its id. -/
def Reported (s : Shim) (r : RequestId) (i : CommandId) : Prop :=
  (∃ q, s.requests[r]? = some q ∧ q.reply ≠ .empty) ∧ i ∉ s.pendingPut ∧ i ∉ s.pendingGet

/-- The command is accepted or its failure is reported. -/
def HandedOff (activeServer : NodeId) (s : Shim) (r : RequestId) (i : CommandId) (c : KVCommand) :
    Prop :=
  s.Accepted activeServer i c ∨ s.Reported r i

/-- The message is in `network.send`, on the way, or with the server. -/
def InFlight (activeServer : NodeId) (s : Shim) (i : CommandId) (c : KVCommand) : Prop :=
  s.sending = some (.append i c) ∨
    .append i c ∈ (s.pipe activeServer).delivered ++ (s.pipe activeServer).contents

/-- Every processed command was handed off, and no pending request has nothing in flight. -/
def Sound (activeServer : NodeId) (s : Shim) : Prop :=
  (∀ i r c, s.issued[i]? = some (r, c) → s.sending ≠ some (.append i c) →
    s.HandedOff activeServer r i c) ∧
  (∀ i r c, s.issued[i]? = some (r, c) → s.Awaits (.append i c) → s.InFlight activeServer i c)

section

variable {activeServer : NodeId} {t : Transport} {s : Shim}

@[simp] theorem pipe_withPipe (p : Pipe ClientMessage) :
    (s.withPipe activeServer p).pipe activeServer = p := by
  simp [withPipe, pipe]

theorem Pending.withPipe (h : s.Pending activeServer) {p : Pipe ClientMessage}
    (hp : p.writer.accepted = (s.pipe activeServer).writer.accepted) :
    (s.withPipe activeServer p).Pending activeServer := by
  refine h.withNetwork _ (h.session.frame rfl ?_ rfl) (List.Subset.refl _)
  simpa [pipe] using hp

/-- The tables are right in every reachable state. -/
theorem pending_reachable (hr : (system activeServer t).Reachable s) : s.Pending activeServer := by
  refine (system activeServer t).invariant (Pending activeServer) ?_ ?_ s hr
  · rintro _ rfl
    exact pending_new activeServer
  · rintro (l | l | _ | msg) s _ hg h
    · exact h.update hg
    · exact h.withPipe (Pipe.accepted_update l _)
    · exact h.withPipe rfl
    · exact h.withNetwork _ (h.session.frame rfl rfl rfl) (List.Subset.refl _)

/-- A message among the numbered commands is that of a command taken. -/
theorem exists_issued {i : CommandId} {c : KVCommand} (h : .append i c ∈ numbered s.commands) :
    ∃ r, s.issued[i]? = some (r, c) := by
  have hget := mem_numbered.mp h
  rw [commands, List.getElem?_map] at hget
  rcases Option.map_eq_some_iff.mp hget with ⟨⟨r, c'⟩, hissued, rfl⟩
  exact ⟨r, hissued⟩

/-- What runs keep whose steps all deliver: commands taken are accepted, but for the one in
`network.send`, and what a request waits for is in flight. -/
structure Tended (activeServer : NodeId) (s : Shim) : Prop where
  pending : s.Pending activeServer
  ordered : (s.pipe activeServer).Ordered
  accepted : ∀ i r c, s.issued[i]? = some (r, c) →
    s.sending = some (.append i c) ∨ s.Accepted activeServer i c
  inFlight : ∀ i r c, s.issued[i]? = some (r, c) → s.Awaits (.append i c) →
    s.InFlight activeServer i c

theorem tended_new (activeServer : NodeId) : (new activeServer).Tended activeServer where
  pending := pending_new activeServer
  ordered := Pipe.ordered_new
  accepted := by simp [new]
  inFlight := by simp [new]

theorem Tended.sound (h : s.Tended activeServer) : s.Sound activeServer := by
  refine ⟨fun i r c hi hne => ?_, h.inFlight⟩
  exact .inl ((h.accepted i r c hi).resolve_left hne)

/-- What the connection still holds it has not delivered. -/
theorem Tended.not_delivered (h : s.Tended activeServer) {m : ClientMessage}
    (hm : m ∈ (s.pipe activeServer).contents) : m ∉ (s.pipe activeServer).delivered := by
  intro hdelivered
  have hsent := (List.sublist_append_left _ _).trans h.pending.session.sent
  have hnodup := (h.ordered.trans hsent).nodup (nodup_numbered _)
  rw [List.nodup_append] at hnodup
  exact hnodup.2.2 m hdelivered m hm rfl

/-- Steps of the shim that are no `network.send` leave its connection alone; only
`takeCommand` takes a command. -/
theorem pipe_update {l : ShimStep} (hl : l ≠ .resolveSend) :
    (s.update activeServer l).pipe activeServer = s.pipe activeServer := by
  cases l with
  | enqueue r =>
      simp only [update, enqueue]
      repeat' split
      all_goals rfl
  | answer r =>
      simp only [update, answer]
      split <;> rfl
  | takeCommand =>
      simp only [update, takeCommand]
      split <;> rfl
  | resolveSend => exact absurd rfl hl
  | recvServer =>
      simp only [update, recvServer]
      split
      · rfl
      · next msg _ _ =>
          cases msg with
          | write id =>
              simp only [handleServerMessage]
              split <;> rfl
          | read id value =>
              simp only [handleServerMessage]
              split <;> rfl
          | startSignal startTime => rfl
  | _ => rfl

/-- Only `takeCommand` puts an id into a pending table. -/
theorem awaits_update {l : ShimStep} (hl : l ≠ .takeCommand) {m : ClientMessage}
    (h : (s.update activeServer l).Awaits m) : s.Awaits m := by
  cases m with
  | append i c =>
      cases l with
      | enqueue r =>
          simp only [update, enqueue] at h
          repeat' split at h
          all_goals exact h
      | answer r =>
          simp only [update, answer] at h
          split at h <;> exact h
      | takeCommand => exact absurd rfl hl
      | resolveSend =>
          simp only [update, resolveSend] at h
          repeat' split at h
          all_goals exact h
      | recvServer =>
          simp only [update, recvServer] at h
          split at h
          · exact h
          · next msg _ _ =>
              cases msg with
              | write id =>
                  simp only [handleServerMessage] at h
                  split at h
                  · exact h
                  · exact h.imp_left fun hmem => (Finmap.mem_erase.mp hmem).2
              | read id value =>
                  simp only [handleServerMessage] at h
                  split at h
                  · exact h
                  · exact h.imp_right fun hmem => (Finmap.mem_erase.mp hmem).2
              | startSignal startTime => exact h
      | _ => exact h

/-- `takeCommand` adds the id of the command it takes. -/
theorem awaits_takeCommand {cmd : ApiCommand} {rest : List ApiCommand}
    (hcons : s.cmdRx = cmd :: rest) {i : CommandId} {c : KVCommand} (hne : i ≠ s.nextRequestId)
    (h : s.takeCommand.Awaits (.append i c)) : s.Awaits (.append i c) := by
  simp only [takeCommand, hcons] at h
  cases cmd with
  | put key value replyTo =>
      exact h.imp_left fun hmem => (Finmap.mem_insert.mp hmem).resolve_left hne
  | get key replyTo =>
      exact h.imp_right fun hmem => (Finmap.mem_insert.mp hmem).resolve_left hne

/-- The command taken is the one in `network.send`; the earlier ones are accepted. -/
theorem Tended.takeCommand (h : s.Tended activeServer)
    (hg : s.guard activeServer .takeCommand) : s.takeCommand.Tended activeServer := by
  rcases hg with ⟨hphase, hsending, hqueue⟩
  rcases List.exists_cons_of_ne_nil (List.isEmpty_eq_false_iff.mp hqueue) with ⟨cmd, rest, hcons⟩
  have hpipe : s.takeCommand.pipe activeServer = s.pipe activeServer :=
    pipe_update (l := .takeCommand) (by decide)
  have hissued : s.takeCommand.issued = s.issued ++ [(cmd.replyTo, cmd.kvCommand)] := by
    simp only [Shim.takeCommand, hcons]
  have hsend : s.takeCommand.sending = some (.append s.nextRequestId cmd.kvCommand) := by
    simp only [Shim.takeCommand, hcons]
  -- a command is the new one, which is in `network.send`, or an earlier one
  have hcases : ∀ i r c, s.takeCommand.issued[i]? = some (r, c) →
      s.takeCommand.sending = some (.append i c) ∨
        (s.issued[i]? = some (r, c) ∧ i ≠ s.nextRequestId) := by
    intro i r c hi
    rw [hissued] at hi
    rcases getElem?_concat_eq_some.mp hi with hold | ⟨rfl, heq⟩
    · right
      refine ⟨hold, ?_⟩
      rw [h.pending.next]
      exact Nat.ne_of_lt (List.getElem?_eq_some_iff.mp hold).1
    · left
      rw [hsend, h.pending.next, (Prod.mk.inj heq).2]
  have hidle : ∀ m, s.sending ≠ some m := by
    intro m
    rw [hsending]
    exact Option.some_ne_none m ∘ Eq.symm
  refine ⟨h.pending.takeCommand hphase hsending, by rw [hpipe]; exact h.ordered, ?_, ?_⟩
  · intro i r c hi
    refine (hcases i r c hi).imp_right fun hold => ?_
    rw [Accepted, hpipe]
    exact (h.accepted i r c hold.1).resolve_left (hidle _)
  · intro i r c hi hawaits
    refine (hcases i r c hi).imp_right fun hold => ?_
    rw [hpipe]
    exact (h.inFlight i r c hold.1 (awaits_takeCommand hcons hold.2 hawaits)).resolve_left (hidle _)

/-- A `network.send` that finds a live connection puts the message into its queue. -/
theorem Tended.resolveSend (h : s.Tended activeServer) (hg : s.guard activeServer .resolveSend)
    (hconn : s.network.Connected activeServer) :
    (s.resolveSend activeServer).Tended activeServer := by
  rcases hg with ⟨_, msg, hmsg, hsome⟩
  rcases Option.isSome_iff_exists.mp hsome with ⟨n, hn⟩
  rcases Network.send_cases h.pending.session.aligned hn with ⟨_, p, hp, rfl⟩ | ⟨hno, _⟩
  · have hstep : s.resolveSend activeServer =
        { s.withPipe activeServer p with sending := none } := by
      simp [Shim.resolveSend, show s.sending = some msg from hmsg, hn, withPipe]
    have hpipe : (s.resolveSend activeServer).pipe activeServer = p := by
      rw [hstep]
      exact pipe_withPipe p
    have hissued : (s.resolveSend activeServer).issued = s.issued := by rw [hstep]; rfl
    refine ⟨h.pending.resolveSend, by rw [hpipe]; exact h.ordered.send hp, ?_, ?_⟩
    · intro i r c hi
      right
      rw [hissued] at hi
      rw [Accepted, hpipe, Pipe.accepted_send hp, List.mem_append, List.mem_singleton]
      rcases h.accepted i r c hi with hcur | hacc
      · right
        exact Option.some.inj (hcur.symm.trans hmsg)
      · exact .inl hacc
    · intro i r c hi hawaits
      right
      rw [hissued] at hi
      rw [hpipe, Pipe.delivered_send hp, Pipe.contents_send hp, ← List.append_assoc,
        List.mem_append, List.mem_singleton]
      rcases h.inFlight i r c hi (awaits_update (l := .resolveSend) (by decide) hawaits) with
        hcur | hmem
      · right
        exact Option.some.inj (hcur.symm.trans hmsg)
      · exact .inl hmem
  · exact absurd hconn hno

/-- Steps of the connection take nothing back that was accepted or delivered. -/
theorem Tended.withPipe (h : s.Tended activeServer) {p : Pipe ClientMessage} (hord : p.Ordered)
    (hacc : p.writer.accepted = (s.pipe activeServer).writer.accepted)
    (hkept : ∀ m, s.Awaits m →
      m ∈ (s.pipe activeServer).delivered ++ (s.pipe activeServer).contents →
        m ∈ p.delivered ++ p.contents) :
    (s.withPipe activeServer p).Tended activeServer := by
  refine ⟨h.pending.withPipe hacc, by rw [pipe_withPipe]; exact hord, ?_, ?_⟩
  · intro i r c hi
    rw [Accepted, pipe_withPipe, hacc]
    exact h.accepted i r c hi
  · intro i r c hi hawaits
    rw [InFlight, pipe_withPipe]
    exact (h.inFlight i r c hi hawaits).imp_right (hkept _ hawaits)

/-- A step of the shim that delivers keeps it tended. -/
theorem Tended.task (h : s.Tended activeServer) {l : ShimStep} (hg : s.guard activeServer l)
    (hd : l = .resolveSend → s.network.Connected activeServer) :
    (s.update activeServer l).Tended activeServer := by
  by_cases htake : l = .takeCommand
  · subst htake
    exact h.takeCommand hg
  by_cases hres : l = .resolveSend
  · subst hres
    exact h.resolveSend hg (hd rfl)
  -- no other step of the shim takes a command or touches the connection
  have hpipe : (s.update activeServer l).pipe activeServer = s.pipe activeServer :=
    pipe_update hres
  rcases issued_update activeServer s htake hres with ⟨hissued, hsending⟩
  refine ⟨h.pending.update hg, by rw [hpipe]; exact h.ordered, ?_, ?_⟩
  · intro i r c hi
    rw [hissued] at hi
    rw [Accepted, hpipe, hsending]
    exact h.accepted i r c hi
  · intro i r c hi hawaits
    rw [hissued] at hi
    rw [InFlight, hpipe, hsending]
    exact h.inFlight i r c hi (awaits_update htake hawaits)

/-- A step that delivers keeps the shim tended. -/
theorem tended_update (e : ShimEvent) (hg : (system activeServer t).guard e s)
    (hd : Delivers activeServer e s) (h : s.Tended activeServer) :
    ((system activeServer t).update e s).Tended activeServer := by
  cases e with
  | task l =>
      refine h.task hg ?_
      intro hl
      exact hd.1 (congrArg ShimEvent.task hl)
  | connection l =>
      refine h.withPipe (h.ordered.update l) (Pipe.accepted_update l _) ?_
      intro m hawaits hm
      rw [Pipe.delivered_update, List.mem_append]
      exact (List.mem_append.mp hm).imp_right fun hc => hd.2 l rfl m hc hawaits
  | handOn =>
      rcases Option.isSome_iff_exists.mp hg with ⟨m, hm⟩
      refine h.withPipe (h.ordered.forward hm) rfl ?_
      intro m' _ hm'
      rw [Pipe.delivered_contents_forward hm]
      exact hm'
  | arrive msg =>
      exact ⟨h.pending.withNetwork _ (h.pending.session.frame rfl rfl rfl) (List.Subset.refl _),
        h.ordered, h.accepted, h.inFlight⟩

/-- A command leaves `network.send` handed off iff the `send` finds a live connection. -/
theorem handedOff_resolveSend_iff (hpend : s.Pending activeServer) {i : CommandId}
    {r : RequestId} {c : KVCommand} (hg : s.guard activeServer .resolveSend)
    (hsending : s.sending = some (.append i c)) :
    (s.update activeServer .resolveSend).HandedOff activeServer r i c ↔
      s.network.Connected activeServer := by
  obtain ⟨_, msg, hmsg, hsome⟩ := hg
  obtain ⟨n, hn⟩ := Option.isSome_iff_exists.mp hsome
  obtain rfl : msg = .append i c := Option.some.inj ((Option.mem_def.mp hmsg).symm.trans hsending)
  have hstep : s.update activeServer .resolveSend = { s with network := n, sending := none } := by
    simp [update, Shim.resolveSend, hsending, hn]
  have hsession := hpend.session
  rw [hsending] at hsession
  rcases Network.send_cases hpend.session.aligned hn with ⟨hconn, p, hp, rfl⟩ | ⟨hno, slots, rfl, _⟩
  · refine ⟨fun _ => hconn, fun _ => .inl ?_⟩
    rw [hstep]
    simp [Accepted, pipe, Pipe.accepted_send hp]
  · refine ⟨fun hoff => ?_, fun hconn => absurd hconn hno⟩
    exfalso
    rw [hstep] at hoff
    rcases hoff with hacc | ⟨_, hput, hget⟩
    · exact hsession.not_accepted_of_sending hacc
    · rcases hpend.current i c hsending with hmem | hmem
      · exact hput hmem
      · exact hget hmem

/-- If the command in `network.send` is sound once it returned, the `send` found a live
connection. -/
theorem Tended.connected_of_sound (h : s.Tended activeServer)
    (hg : s.guard activeServer .resolveSend)
    (hsound : (s.update activeServer .resolveSend).Sound activeServer) :
    s.network.Connected activeServer := by
  rcases hg.2 with ⟨⟨i, c⟩, hsending, hsome⟩
  have hmem : .append i c ∈ numbered s.commands := by
    refine h.pending.session.sent.subset (List.mem_append_right _ ?_)
    rw [Option.mem_def.mp hsending]
    exact List.mem_singleton_self _
  rcases exists_issued hmem with ⟨r, hissued⟩
  rcases Option.isSome_iff_exists.mp hsome with ⟨n, hn⟩
  have hstep : s.update activeServer .resolveSend = { s with network := n, sending := none } := by
    simp [update, Shim.resolveSend, Option.mem_def.mp hsending, hn]
  refine (handedOff_resolveSend_iff h.pending hg hsending).mp (hsound.1 i r c ?_ ?_)
  · rw [hstep]
    exact hissued
  · rw [hstep]
    exact Option.some_ne_none _ ∘ Eq.symm

/-- If nothing that is waited for is missing after a step of the connection, the step dropped
no such message. -/
theorem Tended.keeps_of_sound (h : s.Tended activeServer) {l : PipeStep}
    (hsound : (s.withPipe activeServer ((s.pipe activeServer).update serverTask l)).Sound
      activeServer) {m : ClientMessage} (hm : m ∈ (s.pipe activeServer).contents)
    (hawaits : s.Awaits m) : m ∈ ((s.pipe activeServer).update serverTask l).contents := by
  cases m with
  | append i c =>
      have hacc : .append i c ∈ (s.pipe activeServer).writer.accepted :=
        h.ordered.subset (List.mem_append_right _ hm)
      have hmem : .append i c ∈ numbered s.commands :=
        h.pending.session.sent.subset (List.mem_append_left _ hacc)
      rcases exists_issued hmem with ⟨r, hissued⟩
      rcases hsound.2 i r c hissued hawaits with hsending | hflight
      · have hsession := h.pending.session
        rw [show s.sending = some (.append i c) from hsending] at hsession
        exact absurd hacc hsession.not_accepted_of_sending
      · rw [pipe_withPipe, Pipe.delivered_update, List.mem_append] at hflight
        exact hflight.resolve_left (h.not_delivered hm)

/-- A step leads to a sound state just if it delivers. -/
theorem sound_update_iff (e : ShimEvent) (hg : (system activeServer t).guard e s)
    (h : s.Tended activeServer) :
    ((system activeServer t).update e s).Sound activeServer ↔ Delivers activeServer e s := by
  constructor
  · intro hsound
    constructor
    · rintro rfl
      exact h.connected_of_sound hg hsound
    · intro l hl m hm hawaits
      cases e with
      | connection k =>
          obtain rfl : k = l := Option.some.inj hl
          exact h.keeps_of_sound hsound hm hawaits
      | _ => cases hl
  · exact fun hd => (tended_update e hg hd h).sound

/-- A run in which every processed command is handed off, and no pending request ever has
nothing in flight, is one in which every `network.send` returns with a live connection and
the connection drops nothing that is waited for. And a command leaves its `network.send`
handed off just if there was a live connection. -/
theorem handoff_reported_iff (activeServer : NodeId) (t : Transport) :
    (∀ events, (system activeServer t).Valid (new activeServer) events →
      ((∀ done rest, events = done ++ rest →
          ((system activeServer t).after (new activeServer) done).Sound activeServer) ↔
        ∀ done e rest, events = done ++ e :: rest →
          Delivers activeServer e ((system activeServer t).after (new activeServer) done))) ∧
    (∀ s r i c, (system activeServer t).Reachable s → s.guard activeServer .resolveSend →
      s.sending = some (.append i c) →
      ((s.update activeServer .resolveSend).HandedOff activeServer r i c ↔
        s.network.Connected activeServer)) := by
  constructor
  · intro events hvalid
    rw [(system activeServer t).good_along_iff (Tended activeServer) (Sound activeServer)
      (fun e s hg hd h => tended_update e hg hd h) (fun e s hg h _ => sound_update_iff e hg h)
      hvalid (tended_new activeServer) (tended_new activeServer).sound,
      Machine.valid_restrict_iff]
    exact and_iff_right hvalid
  · intro s r i c hr hg hsending
    exact handedOff_resolveSend_iff (pending_reachable hr) hg hsending

end

/-! ## A writer task that ends -/

/-- The shim has started and sent its first command. -/
def firstCommand : List ShimEvent :=
  [.task .connected, .arrive (.startSignal 0), .task .recvStart, .task (.invoke (.put "k" "a")),
    .task (.enqueue 0), .task .takeCommand, .task .resolveSend]

/-- Then a flush fails, and a second command comes. -/
def writerEnds : List ShimEvent :=
  firstCommand ++ [.connection (.recvMany 1), .connection (.feed 0), .connection .flushError,
    .task (.invoke (.put "k" "b")), .task (.enqueue 1), .task .takeCommand, .task .resolveSend]

/-- Every step up to the end of the first command delivers, so the run ends in a sound state. -/
theorem first_command_handed_off :
    ((system 1 smallTransport).after (new 1) firstCommand).Sound 1 := by
  have hrun : ((system 1 smallTransport).restrict (Delivers 1)).Valid (new 1) firstCommand := by
    decide
  have hdelivers := (Machine.valid_restrict_iff _ _ _ _).mp hrun
  exact ((handoff_reported_iff 1 smallTransport).1 firstCommand hdelivers.1).mpr hdelivers.2
    firstCommand [] (List.append_nil _).symm

/-- The second command enters `pending_put` and is dropped by `network.send`: it is not
accepted, not answered, and its id stays pending. -/
theorem lost_command_not_reported :
    ¬ ∀ s, (system 1 smallTransport).Reachable s → s.Sound 1 := by
  intro h
  have hr := (system 1 smallTransport).reachable_after writerEnds (.start rfl) (by decide)
  rcases (h _ hr).1 1 1 (.put "k" "b") (by decide) (by decide) with hacc | ⟨_, hput, _⟩
  · revert hacc
    unfold Accepted
    decide
  · exact hput (by decide)

end Shim

end Client

end OmnipaxosKv
