import OmnipaxosKv.Client.Session
import OmnipaxosKv.Client.Shim

/-! # The pending tables of the shim

`Pending` ties the two tables to the commands taken so far and to the server messages
seen since.
-/

namespace OmnipaxosKv

namespace Client

/-- An element of a longer list is an old one or the last. -/
theorem getElem?_concat_eq_some {β : Type} {l : List β} {a x : β} {i : ℕ} :
    (l ++ [a])[i]? = some x ↔ l[i]? = some x ∨ i = l.length ∧ a = x := by
  rcases lt_trichotomy i l.length with h | h | h
  · simp [List.getElem?_append_left h, Nat.ne_of_lt h]
  · subst h
    simp
  · rw [List.getElem?_eq_none (by simp; omega)]
    simp [List.getElem?_eq_none (le_of_lt h), Nat.ne_of_gt h]

namespace Shim

/-- The commands taken so far; a command's id is its position. -/
def commands (s : Shim) : List KVCommand := s.issued.map Prod.snd

structure Pending (activeServer : NodeId) (s : Shim) : Prop where
  session : Session activeServer s.network s.commands s.sending
  next : s.nextRequestId = s.issued.length
  put : ∀ i r, s.pendingPut.lookup i = some r → ∃ key value, s.issued[i]? = some (r, .put key value)
  get : ∀ i r, s.pendingGet.lookup i = some r → ∃ key, s.issued[i]? = some (r, .get key)
  putOrTaken : ∀ i r key value, s.issued[i]? = some (r, .put key value) →
    s.pendingPut.lookup i = some r ∨ .write i ∈ s.network.taken
  getOrTaken : ∀ i r key, s.issued[i]? = some (r, .get key) →
    s.pendingGet.lookup i = some r ∨ ∃ value, .read i value ∈ s.network.taken
  current : ∀ i c, s.sending = some (.append i c) → i ∈ s.pendingPut ∨ i ∈ s.pendingGet
  started : s.phase = .looping → ∃ startTime, .startSignal startTime ∈ s.network.taken
  quiet : s.phase ≠ .looping → s.issued = [] ∧ s.sending = none

section

variable {activeServer : NodeId} {s s' : Shim}

/-- A new shim has taken no command. -/
theorem pending_new (activeServer : NodeId) : (new activeServer).Pending activeServer where
  session := Session.init _
  next := rfl
  put := by simp [new]
  get := by simp [new]
  putOrTaken := by simp [new]
  getOrTaken := by simp [new]
  current := by simp [new]
  started := by simp [new]
  quiet := fun _ => ⟨rfl, rfl⟩

/-- The pending tables do not depend on the handlers. -/
theorem Pending.requests (h : s.Pending activeServer) (requests : List Request)
    (cmdRx : List ApiCommand) :
    ({ s with requests := requests, cmdRx := cmdRx } : Shim).Pending activeServer where
  session := h.session
  next := h.next
  put := h.put
  get := h.get
  putOrTaken := h.putOrTaken
  getOrTaken := h.getOrTaken
  current := h.current
  started := h.started
  quiet := h.quiet

/-- The network may change, if the session is kept and no message is taken back. -/
theorem Pending.withNetwork (h : s.Pending activeServer) (n : Network)
    (hsession : Session activeServer n s.commands s.sending) (htaken : s.network.taken ⊆ n.taken) :
    ({ s with network := n } : Shim).Pending activeServer where
  session := hsession
  next := h.next
  put := h.put
  get := h.get
  putOrTaken := fun i r key value hi => (h.putOrTaken i r key value hi).imp_right (htaken ·)
  getOrTaken := fun i r key hi => (h.getOrTaken i r key hi).imp_right fun ⟨v, hv⟩ => ⟨v, htaken hv⟩
  current := h.current
  started := fun hp => (h.started hp).imp fun _ hmem => htaken hmem
  quiet := h.quiet

/-- The id of the command taken enters its table. -/
theorem Pending.takeCommand (h : s.Pending activeServer) (hphase : s.phase = .looping)
    (hsending : s.sending = none) : s.takeCommand.Pending activeServer := by
  unfold Shim.takeCommand
  split
  · exact h
  · next cmd rest _ =>
      have hsession := h.session
      rw [hsending] at hsession
      have hissue := hsession.issue cmd.kvCommand (h.started hphase)
      -- ids are given in order, so the new one is the number of commands so far
      have hlen : s.commands.length = s.nextRequestId := by simp [commands, h.next]
      rw [hlen] at hissue
      have hcommands : (s.issued ++ [(cmd.replyTo, cmd.kvCommand)]).map Prod.snd =
          s.commands ++ [cmd.kvCommand] := by simp [commands]
      cases cmd with
      | put key value replyTo =>
          refine ⟨?_, by simp [h.next], ?_, ?_, ?_, ?_, ?_, h.started, ?_⟩
          · simpa only [commands, hcommands] using hissue
          · intro i r hi
            -- the new entry, or an old one
            rw [lookup_insert_ite] at hi
            split at hi
            · next heq =>
                obtain rfl := Option.some.inj hi
                exact ⟨key, value, getElem?_concat_eq_some.mpr (.inr ⟨heq.trans h.next, rfl⟩)⟩
            · obtain ⟨k, v, hkv⟩ := h.put i r hi
              exact ⟨k, v, getElem?_concat_eq_some.mpr (.inl hkv)⟩
          · intro i r hi
            obtain ⟨k, hk⟩ := h.get i r hi
            exact ⟨k, getElem?_concat_eq_some.mpr (.inl hk)⟩
          · intro i r k v hi
            rw [lookup_insert_ite]
            rcases getElem?_concat_eq_some.mp hi with hold | ⟨rfl, heq⟩
            -- the old ids are below the new one, so its insertion hides none of them
            · have hlt : i ≠ s.nextRequestId := by
                rw [h.next]
                exact Nat.ne_of_lt (List.getElem?_eq_some_iff.mp hold).1
              simpa [hlt] using h.putOrTaken i r k v hold
            · left
              obtain ⟨rfl, _⟩ := Prod.mk.inj heq
              simp [h.next, ApiCommand.replyTo]
          · intro i r k hi
            rcases getElem?_concat_eq_some.mp hi with hold | ⟨rfl, heq⟩
            · exact h.getOrTaken i r k hold
            · simp [ApiCommand.kvCommand] at heq
          · intro i c hi
            left
            obtain ⟨rfl, _⟩ := ClientMessage.append.inj (Option.some.inj hi)
            simp
          · intro hne
            exact absurd hphase hne
      -- the same with the two tables exchanged
      | get key replyTo =>
          refine ⟨?_, by simp [h.next], ?_, ?_, ?_, ?_, ?_, h.started, ?_⟩
          · simpa only [commands, hcommands] using hissue
          · intro i r hi
            obtain ⟨k, v, hkv⟩ := h.put i r hi
            exact ⟨k, v, getElem?_concat_eq_some.mpr (.inl hkv)⟩
          · intro i r hi
            rw [lookup_insert_ite] at hi
            split at hi
            · next heq =>
                obtain rfl := Option.some.inj hi
                exact ⟨key, getElem?_concat_eq_some.mpr (.inr ⟨heq.trans h.next, rfl⟩)⟩
            · obtain ⟨k, hk⟩ := h.get i r hi
              exact ⟨k, getElem?_concat_eq_some.mpr (.inl hk)⟩
          · intro i r k v hi
            rcases getElem?_concat_eq_some.mp hi with hold | ⟨rfl, heq⟩
            · exact h.putOrTaken i r k v hold
            · simp [ApiCommand.kvCommand] at heq
          · intro i r k hi
            rw [lookup_insert_ite]
            rcases getElem?_concat_eq_some.mp hi with hold | ⟨rfl, heq⟩
            · have hlt : i ≠ s.nextRequestId := by
                rw [h.next]
                exact Nat.ne_of_lt (List.getElem?_eq_some_iff.mp hold).1
              simpa [hlt] using h.getOrTaken i r k hold
            · left
              obtain ⟨rfl, _⟩ := Prod.mk.inj heq
              simp [h.next, ApiCommand.replyTo]
          · intro i c hi
            right
            obtain ⟨rfl, _⟩ := ClientMessage.append.inj (Option.some.inj hi)
            simp
          · intro hne
            exact absurd hphase hne

/-- The tables do not depend on how `network.send` returns. -/
theorem Pending.resolveSend (h : s.Pending activeServer) :
    (s.resolveSend activeServer).Pending activeServer := by
  unfold Shim.resolveSend
  split
  · exact h
  · next msg hmsg =>
      split
      · exact h
      · next n hn =>
          have hsession := h.session
          rw [hmsg] at hsession
          have htaken : n.taken = s.network.taken := by
            rcases Network.send_cases h.session.aligned hn with ⟨_, _, _, rfl⟩ | ⟨_, _, rfl, _⟩ <;> rfl
          exact {
            session := hsession.resolve hn
            next := h.next
            put := h.put
            get := h.get
            putOrTaken := htaken ▸ h.putOrTaken
            getOrTaken := htaken ▸ h.getOrTaken
            current := fun _ _ hc => by cases hc
            started := htaken ▸ h.started
            quiet := fun hp => ⟨(h.quiet hp).1, rfl⟩ }

theorem taken_recv {n : Network} {msg : ServerMessage} {rest : List ServerMessage}
    (h : n.serverMessages = msg :: rest) : n.recv.taken = n.taken ++ [msg] := by
  simp [Network.recv, h]

/-- The wait for the start signal takes no command. -/
theorem Pending.recvStart (h : s.Pending activeServer) : s.recvStart.Pending activeServer := by
  have hrecv := h.withNetwork s.network.recv h.session.recv (List.subset_append_left _ _)
  refine { hrecv with started := ?_, quiet := ?_ }
  · intro hphase
    simp only [Shim.recvStart] at hphase ⊢
    split at hphase
    · next startTime hhead =>
        obtain ⟨rest, hcons⟩ := List.head?_eq_some_iff.mp hhead
        exact ⟨startTime, by rw [taken_recv hcons]; simp⟩
    · exact hrecv.started hphase
  · intro hphase
    refine hrecv.quiet ?_
    simp only [Shim.recvStart] at hphase
    split at hphase
    · exact absurd rfl hphase
    · exact hphase

/-- An id leaves its table when its response is there. -/
theorem Pending.handleServerMessage (h : s.Pending activeServer) (msg : ServerMessage)
    (hmsg : msg ∈ s.network.taken) (hsending : s.sending = none) :
    (handleServerMessage msg s).Pending activeServer := by
  cases msg with
  | write id =>
      simp only [Shim.handleServerMessage]
      split
      · exact h
      · next tx _ =>
          refine { h.requests (s.setReply tx (.completed .written)).requests s.cmdRx with
            put := ?_, putOrTaken := ?_, current := ?_ }
          -- the entry of the response is taken out, and the others stay
          · intro i r hi
            change (s.pendingPut.erase id).lookup i = some r at hi
            rw [lookup_erase_ite] at hi
            split at hi
            · cases hi
            · exact h.put i r hi
          · intro i r key value hi
            change (s.pendingPut.erase id).lookup i = some r ∨ _
            rw [lookup_erase_ite]
            by_cases heq : i = id
            -- its response has been taken
            · subst heq
              exact .inr hmsg
            · rw [if_neg heq]
              exact h.putOrTaken i r key value hi
          · intro i c hc
            exact absurd (hsending.symm.trans hc) (by simp)
  | read id value =>
      simp only [Shim.handleServerMessage]
      split
      · exact h
      · next tx _ =>
          refine { h.requests (s.setReply tx (.completed (.value value))).requests s.cmdRx with
            get := ?_, getOrTaken := ?_, current := ?_ }
          · intro i r hi
            change (s.pendingGet.erase id).lookup i = some r at hi
            rw [lookup_erase_ite] at hi
            split at hi
            · cases hi
            · exact h.get i r hi
          · intro i r key hi
            change (s.pendingGet.erase id).lookup i = some r ∨ _
            rw [lookup_erase_ite]
            by_cases heq : i = id
            · subst heq
              exact .inr ⟨value, hmsg⟩
            · rw [if_neg heq]
              exact h.getOrTaken i r key hi
          · intro i c hc
            exact absurd (hsending.symm.trans hc) (by simp)
  | startSignal startTime => exact h

/-- The branch for a server message keeps the tables right. -/
theorem Pending.recvServer (h : s.Pending activeServer) (hsending : s.sending = none) :
    s.recvServer.Pending activeServer := by
  unfold Shim.recvServer
  split
  · exact h
  · next msg rest hcons =>
      have hrecv := h.withNetwork s.network.recv h.session.recv (List.subset_append_left _ _)
      exact hrecv.handleServerMessage msg (by rw [taken_recv hcons]; simp) hsending

/-- Every step of the shim keeps the tables right. -/
theorem Pending.update (h : s.Pending activeServer) {l : ShimStep} (hg : s.guard activeServer l) :
    (s.update activeServer l).Pending activeServer := by
  cases l with
  | invoke op => exact h.requests _ _
  | enqueue r =>
      simp only [Shim.update, enqueue]
      repeat' split
      · exact h
      · exact h.requests _ _
      · exact h.requests _ _
  | answer r =>
      simp only [Shim.update, answer]
      split
      · exact h
      · exact h.requests _ _
  | disconnect r => exact h.requests _ _
  | connected =>
      -- no command has been issued before the connection is there
      have hquiet := h.quiet (by rw [show s.phase = .connecting from hg]; decide)
      have hnet := h.withNetwork (s.network.connect [activeServer]) (h.session.connect _)
        (List.Subset.refl _)
      exact { hnet with
        started := fun hp => by cases hp
        quiet := fun _ => hquiet }
  | connectFailed =>
      have hquiet := h.quiet (by rw [show s.phase = .connecting from hg]; decide)
      exact { h.requests s.connectFailed.requests [] with
        started := fun hp => by cases hp
        quiet := fun _ => hquiet }
  | recvStart => exact h.recvStart
  | takeCommand => exact h.takeCommand hg.1 hg.2.1
  | resolveSend => exact h.resolveSend
  | recvServer => exact h.recvServer hg.2.1

/-- Only the command branch issues and sends. -/
theorem issued_update (activeServer : NodeId) (s : Shim) {l : ShimStep} (hl : l ≠ .takeCommand)
    (hl' : l ≠ .resolveSend) : (s.update activeServer l).issued = s.issued ∧
      (s.update activeServer l).sending = s.sending := by
  cases l with
  | enqueue r =>
      simp only [Shim.update, Shim.enqueue]
      repeat' split
      all_goals exact ⟨rfl, rfl⟩
  | answer r =>
      simp only [Shim.update, Shim.answer]
      split <;> exact ⟨rfl, rfl⟩
  | takeCommand => exact absurd rfl hl
  | resolveSend => exact absurd rfl hl'
  | recvServer =>
      simp only [Shim.update, Shim.recvServer]
      split
      · exact ⟨rfl, rfl⟩
      · next msg _ _ =>
          cases msg with
          | write id =>
              simp only [Shim.handleServerMessage]
              split <;> exact ⟨rfl, rfl⟩
          | read id value =>
              simp only [Shim.handleServerMessage]
              split <;> exact ⟨rfl, rfl⟩
          | startSignal startTime => exact ⟨rfl, rfl⟩
  | _ => exact ⟨rfl, rfl⟩

end

end Shim

end Client

end OmnipaxosKv
