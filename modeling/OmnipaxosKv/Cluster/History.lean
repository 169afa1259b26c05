import OmnipaxosKv.Cluster.Links

/-! # The history of HTTP requests

The history has an event for each request of each shim and one for each answer, and no
other.
-/

namespace OmnipaxosKv

namespace Cluster

open Server Client Linearizability

variable {Ω M : Type} {lib : OmniPaxos Ω M} {decided : Ω → List Command} {cfg : Config}
  {t : Transport} {s : State Ω M}

open State

/-! ## What an action does to one endpoint -/

theorem withNetwork_network (e : Endpoint) : e.withNetwork e.network = e := by
  cases e <;> rfl

/-- An endpoint makes a step of its task, or nothing but its network changes. -/
theorem endpoints_cases {a : Action} (hg : s.guard lib cfg t a) (e : EndpointId) :
    (∃ l sh, a = .shim e l ∧ s.endpoints e = .shim sh ∧ sh.guard (cfg.activeServer e) l ∧
      (s.act lib cfg a).endpoints e = .shim (sh.update (cfg.activeServer e) l)) ∨
    (∃ l c, a = .bench e l ∧ s.endpoints e = .bench c ∧
      (s.act lib cfg a).endpoints e = .bench (c.update (cfg.activeServer e) l)) ∨
    ((∀ l, a ≠ .shim e l) ∧
      ∃ n, (s.act lib cfg a).endpoints e = (s.endpoints e).withNetwork n) := by
  have hself : ∃ n, s.endpoints e = (s.endpoints e).withNetwork n :=
    ⟨_, (withNetwork_network _).symm⟩
  -- what happens to one endpoint only reaches its network, and the others are as before
  have hone : ∀ (f : EndpointId) (l : EndpointStep),
      (∃ n, (s.endpoints f).update (cfg.activeServer f) l = (s.endpoints f).withNetwork n) →
      ∃ n, (s.onEndpoint cfg f l).endpoints e = (s.endpoints e).withNetwork n := by
    intro f l hnetwork
    by_cases hf : e = f
    · subst hf
      rw [endpoints_onEndpoint_self]
      exact hnetwork
    · rw [endpoints_onEndpoint_of_ne hf]
      exact hself
  cases a with
  | shim f l =>
      by_cases hf : e = f
      · subst hf
        left
        cases he : s.endpoints e with
        | shim sh =>
            simp only [State.guard, he] at hg
            refine ⟨l, sh, rfl, rfl, hg, ?_⟩
            refine (endpoints_onEndpoint_self e (.shim l) s).trans ?_
            rw [he]
            rfl
        | bench c =>
            simp only [State.guard, he] at hg
            exact hg.elim
      -- a shim makes the step, but another one
      · right; right
        refine ⟨fun l' heq => hf (Action.shim.inj heq).1.symm, ?_⟩
        exact ⟨_, (endpoints_onEndpoint_of_ne hf (.shim l) s).trans (withNetwork_network _).symm⟩
  | bench f l =>
      by_cases hf : e = f
      · subst hf
        right; left
        cases he : s.endpoints e with
        | shim sh =>
            simp only [State.guard, he] at hg
            exact hg.elim
        | bench c =>
            refine ⟨l, c, rfl, rfl, ?_⟩
            refine (endpoints_onEndpoint_self e (.bench l) s).trans ?_
            rw [he]
            rfl
      · right; right
        refine ⟨by simp, ?_⟩
        exact ⟨_, (endpoints_onEndpoint_of_ne hf (.bench l) s).trans (withNetwork_network _).symm⟩
  | connection f l => exact .inr (.inr ⟨by simp, hone f (.connection l) ⟨_, rfl⟩⟩)
  -- messages that arrive
  | clusterArrive sender receiver =>
      right; right
      refine ⟨by simp, ?_⟩
      simp only [act]
      split
      · exact hself
      · exact hself
  | clientArrive f =>
      right; right
      refine ⟨by simp, ?_⟩
      simp only [act]
      split
      · exact hone f .handOn ⟨_, rfl⟩
      · exact hself
  | serverArrive f =>
      right; right
      refine ⟨by simp, ?_⟩
      simp only [act]
      split
      · next k msg _ _ => exact hone f (.arrive msg) ⟨_, rfl⟩
      · exact hself
  | _ => exact .inr (.inr ⟨by simp, hself⟩)

/-- A step that is not the shim's own leaves its requests and commands alone. -/
theorem shim_of_withNetwork {sh : Shim} {n : Client.Network} {e : Endpoint}
    (h : e.withNetwork n = .shim sh) : ∃ sh₀, e = .shim sh₀ ∧ sh = { sh₀ with network := n } := by
  cases e with
  | shim sh₀ => exact ⟨sh₀, rfl, (Endpoint.shim.inj h).symm⟩
  | bench c => cases h

/-- Only the steps of a shim enter the history. -/
theorem history_act {a : Action} (ha : ∀ e l, a ≠ .shim e l) :
    (s.act lib cfg a).history = s.history := by
  cases a with
  | shim e l => exact absurd rfl (ha e l)
  | clusterArrive sender receiver =>
      simp only [act]
      split <;> rfl
  | clientArrive e =>
      simp only [act]
      split <;> rfl
  | serverArrive e =>
      simp only [act]
      split <;> rfl
  | _ => rfl

/-- The event of a shim's step: a request, an answer or none. -/
theorem httpEvents_cases (e : EndpointId) (l : ShimStep) (sh sh' : Shim) :
    httpEvents e l (.shim sh) (.shim sh') = [] ∨
    (∃ op, l = .invoke op ∧
      httpEvents e l (.shim sh) (.shim sh') = [.invoke (e, sh.requests.length) op]) ∨
    (∃ r code, (l = .enqueue r ∨ l = .answer r) ∧ sh'.handlerOf r = some (.answered code) ∧
      httpEvents e l (.shim sh) (.shim sh') = [.respond (e, r) code]) := by
  cases l with
  | invoke op => exact .inr (.inl ⟨op, rfl, rfl⟩)
  | enqueue r =>
      simp only [httpEvents]
      split
      · next code hcode => exact .inr (.inr ⟨r, code, .inl rfl, hcode, rfl⟩)
      · exact .inl rfl
  | answer r =>
      simp only [httpEvents]
      split
      · next code hcode => exact .inr (.inr ⟨r, code, .inr rfl, hcode, rfl⟩)
      · exact .inl rfl
  | _ => exact .inl rfl

/-! ## The invariant -/

structure Recorded (s : State Ω M) : Prop where
  wellFormed : WellFormed s.history
  invoked : ∀ e r op, .invoke (e, r) op ∈ s.history →
    ∃ sh q, s.endpoints e = .shim sh ∧ sh.requests[r]? = some q ∧ q.op = op
  requested : ∀ e sh r q, s.endpoints e = .shim sh → sh.requests[r]? = some q →
    .invoke (e, r) q.op ∈ s.history
  responded : ∀ e r code, .respond (e, r) code ∈ s.history →
    ∃ sh q, s.endpoints e = .shim sh ∧ sh.requests[r]? = some q ∧ q.handler = .answered code

theorem Recorded.op_unique (h : Recorded s) {ticket : Ticket} {op op' : HttpOp}
    (hop : .invoke ticket op ∈ s.history) (hop' : .invoke ticket op' ∈ s.history) : op = op' := by
  rcases h.invoked ticket.1 ticket.2 op hop with ⟨sh, q, he, hq, rfl⟩
  rcases h.invoked ticket.1 ticket.2 op' hop' with ⟨sh', q', he', hq', rfl⟩
  obtain rfl : sh = sh' := Endpoint.shim.inj (he.symm.trans he')
  exact congrArg Request.op (Option.some.inj (hq.symm.trans hq'))

/-- Nothing is recorded of a new cluster. -/
theorem recorded_new (cfg : Config) (ω : NodeId → Ω) : Recorded (State.new cfg ω : State Ω M) := by
  refine ⟨wellFormed_nil, ?_, ?_, ?_⟩
  · intro e r op h
    cases h
  · intro e sh r q he hq
    have hempty : sh.requests = [] := by
      cases hkind : cfg.kind e with
      | shim =>
          have hsh : Endpoint.shim (Shim.new (cfg.activeServer e)) = .shim sh := by
            rw [← he]
            simp only [State.new, hkind, Endpoint.new]
          rw [← Endpoint.shim.inj hsh]
          rfl
      | bench intervals =>
          simp only [State.new, hkind, Endpoint.new] at he
          cases he
    rw [hempty] at hq
    cases hq
  · intro e r code h
    cases h

/-- An action of others than the shims. -/
theorem Recorded.frame (h : Recorded s) {s' : State Ω M} (hhistory : s'.history = s.history)
    (hrequests : ∀ e sh', s'.endpoints e = .shim sh' →
      ∃ sh, s.endpoints e = .shim sh ∧ sh'.requests = sh.requests)
    (hkeep : ∀ e sh, s.endpoints e = .shim sh →
      ∃ sh', s'.endpoints e = .shim sh' ∧ sh'.requests = sh.requests) : Recorded s' := by
  refine ⟨hhistory ▸ h.wellFormed, ?_, ?_, ?_⟩
  · intro e r op hmem
    rw [hhistory] at hmem
    rcases h.invoked e r op hmem with ⟨sh, q, he, hq, hop⟩
    rcases hkeep e sh he with ⟨sh', he', heq⟩
    exact ⟨sh', q, he', heq ▸ hq, hop⟩
  · intro e sh' r q he' hq
    rcases hrequests e sh' he' with ⟨sh, he, heq⟩
    rw [hhistory]
    exact h.requested e sh r q he (heq ▸ hq)
  · intro e r code hmem
    rw [hhistory] at hmem
    rcases h.responded e r code hmem with ⟨sh, q, he, hq, hcode⟩
    rcases hkeep e sh he with ⟨sh', he', heq⟩
    exact ⟨sh', q, he', heq ▸ hq, hcode⟩

/-- A step of shim `e`. -/
theorem Recorded.shim (h : Recorded s) {e : EndpointId} {l : ShimStep} {sh : Shim}
    (hsound : (s.endpoints e).Sound (cfg.activeServer e)) (he : s.endpoints e = .shim sh)
    (hg : sh.guard (cfg.activeServer e) l) : Recorded (s.act lib cfg (.shim e l)) := by
  have htickets := (hsound.shim sh he).2
  have hafter : (s.act lib cfg (.shim e l)).endpoints e =
      .shim (sh.update (cfg.activeServer e) l) := by
    refine (endpoints_onEndpoint_self e (.shim l) s).trans ?_
    rw [he]
    rfl
  have hother : ∀ f, f ≠ e → (s.act lib cfg (.shim e l)).endpoints f = s.endpoints f :=
    fun f hf => endpoints_onEndpoint_of_ne hf (.shim l) s
  have hhistory : (s.act lib cfg (.shim e l)).history = s.history ++
      httpEvents e l (.shim sh) (.shim (sh.update (cfg.activeServer e) l)) := by
    simp only [act, he]
    rfl
  -- what the old part of the history says still holds
  have hinvoked : ∀ f r op, .invoke (f, r) op ∈ s.history → ∃ sh' q',
      (s.act lib cfg (.shim e l)).endpoints f = .shim sh' ∧ sh'.requests[r]? = some q' ∧
        q'.op = op := by
    intro f r op hmem
    rcases h.invoked f r op hmem with ⟨sh₀, q, hf, hq, hop⟩
    by_cases hfe : f = e
    · subst hfe
      obtain rfl : sh = sh₀ := Endpoint.shim.inj (he.symm.trans hf)
      rcases htickets.final hg hq with ⟨q', hq', hfinal⟩
      exact ⟨_, q', hafter, hq', hfinal.op.trans hop⟩
    · exact ⟨sh₀, q, (hother f hfe).trans hf, hq, hop⟩
  have hresponded : ∀ f r code, .respond (f, r) code ∈ s.history → ∃ sh' q',
      (s.act lib cfg (.shim e l)).endpoints f = .shim sh' ∧ sh'.requests[r]? = some q' ∧
        q'.handler = .answered code := by
    intro f r code hmem
    rcases h.responded f r code hmem with ⟨sh₀, q, hf, hq, hcode⟩
    by_cases hfe : f = e
    · subst hfe
      obtain rfl : sh = sh₀ := Endpoint.shim.inj (he.symm.trans hf)
      rcases htickets.final hg hq with ⟨q', hq', hfinal⟩
      exact ⟨_, q', hafter, hq', hfinal.handler code hcode⟩
    · exact ⟨sh₀, q, (hother f hfe).trans hf, hq, hcode⟩
  have hrequested : (∀ op, l ≠ .invoke op) → ∀ f sh' r q',
      (s.act lib cfg (.shim e l)).endpoints f = .shim sh' → sh'.requests[r]? = some q' →
        .invoke (f, r) q'.op ∈ s.history := by
    intro hl f sh' r q' hf hq'
    by_cases hfe : f = e
    · subst hfe
      obtain rfl := Endpoint.shim.inj (hafter.symm.trans hf)
      rcases htickets.request_of_update hg hl hq' with ⟨q, hq, hfinal⟩
      rw [hfinal.op]
      exact h.requested f sh r q he hq
    · rw [hother f hfe] at hf
      exact h.requested f sh' r q' hf hq'
  rcases httpEvents_cases e l sh (sh.update (cfg.activeServer e) l) with
    hnil | ⟨op, rfl, hone⟩ | ⟨r, code, hl, hcode, hone⟩
  · -- no event, and so no new request
    rw [hnil, List.append_nil] at hhistory
    have hl : ∀ op, l ≠ .invoke op := by
      intro op hop
      subst hop
      cases hnil
    refine ⟨hhistory ▸ h.wellFormed, ?_, ?_, ?_⟩
    · rw [hhistory]
      exact hinvoked
    · rw [hhistory]
      exact hrequested hl
    · rw [hhistory]
      exact hresponded
  · -- a new request
    rw [hone] at hhistory
    have hnew : (sh.update (cfg.activeServer e) (.invoke op)).requests =
        sh.requests ++ [⟨op, .enqueuing, .empty⟩] := rfl
    refine ⟨?_, ?_, ?_, ?_⟩
    · rw [hhistory]
      refine h.wellFormed.invoke op fun o hmem => ?_
      rcases h.invoked _ _ o hmem with ⟨sh₀, q, hf, hq, _⟩
      obtain rfl : sh = sh₀ := Endpoint.shim.inj (he.symm.trans hf)
      have hlt := (List.getElem?_eq_some_iff.mp hq).1
      exact absurd hlt (lt_irrefl _)
    · intro f r o hmem
      rw [hhistory] at hmem
      rcases List.mem_append.mp hmem with hold | hlast
      · exact hinvoked f r o hold
      · obtain ⟨hticket, rfl⟩ := Event.invoke.inj (List.mem_singleton.mp hlast)
        obtain ⟨rfl, rfl⟩ := Prod.mk.inj hticket
        exact ⟨_, _, hafter, by rw [hnew, List.getElem?_concat_length], rfl⟩
    · intro f sh' r q' hf hq'
      rw [hhistory]
      by_cases hfe : f = e
      · subst hfe
        obtain rfl := Endpoint.shim.inj (hafter.symm.trans hf)
        rw [hnew] at hq'
        rcases getElem?_concat_eq_some.mp hq' with hq | ⟨rfl, rfl⟩
        · exact List.mem_append_left _ (h.requested f sh r q' he hq)
        · exact List.mem_append_right _ (List.mem_singleton.mpr rfl)
      · rw [hother f hfe] at hf
        exact List.mem_append_left _ (h.requested f sh' r q' hf hq')
    · intro f r code hmem
      rw [hhistory] at hmem
      rcases List.mem_append.mp hmem with hold | hlast
      · exact hresponded f r code hold
      · cases List.mem_singleton.mp hlast
  · -- an answer to a request that had none
    rw [hone] at hhistory
    have hnot : ∀ op, l ≠ .invoke op := by
      intro op hop
      subst hop
      rcases hl with hl | hl
      · cases hl
      · cases hl
    rcases Option.map_eq_some_iff.mp hcode with ⟨q', hq', hhandler⟩
    rcases htickets.request_of_update hg hnot hq' with ⟨q, hq, _⟩
    have hopen : ∀ code', q.handler ≠ .answered code' := by
      intro code' hans
      have hof : sh.handlerOf r = some (.answered code') := by simp [Shim.handlerOf, hq, hans]
      rcases hl with rfl | rfl
      · cases hof.symm.trans hg.1
      · cases hof.symm.trans hg.1
    refine ⟨?_, ?_, ?_, ?_⟩
    · rw [hhistory]
      refine h.wellFormed.respond code (h.requested e sh r q he hq) fun code' hmem => ?_
      rcases h.responded e r code' hmem with ⟨sh₀, q₀, hf, hq₀, hans⟩
      obtain rfl : sh = sh₀ := Endpoint.shim.inj (he.symm.trans hf)
      obtain rfl : q₀ = q := Option.some.inj (hq₀.symm.trans hq)
      exact hopen code' hans
    · intro f r' o hmem
      rw [hhistory] at hmem
      rcases List.mem_append.mp hmem with hold | hlast
      · exact hinvoked f r' o hold
      · cases List.mem_singleton.mp hlast
    · intro f sh' r' q'' hf hq''
      rw [hhistory]
      exact List.mem_append_left _ (hrequested hnot f sh' r' q'' hf hq'')
    · intro f r' code' hmem
      rw [hhistory] at hmem
      rcases List.mem_append.mp hmem with hold | hlast
      · exact hresponded f r' code' hold
      · obtain ⟨hticket, rfl⟩ := Event.respond.inj (List.mem_singleton.mp hlast)
        obtain ⟨rfl, rfl⟩ := Prod.mk.inj hticket
        exact ⟨_, q', hafter, hq', hhandler⟩

/-- Every action is recorded. -/
theorem recorded_act (hc : Coherent lib cfg t s) (h : Recorded s) {a : Action}
    (hg : s.guard lib cfg t a) : Recorded (s.act lib cfg a) := by
  by_cases ha : ∃ e l, a = .shim e l
  · rcases ha with ⟨e, l, rfl⟩
    rcases endpoints_cases hg e with ⟨l', sh, hl, he, hguard, _⟩ | ⟨_, _, hl, _⟩ | ⟨hne, _⟩
    · obtain ⟨_, rfl⟩ := Action.shim.inj hl
      exact h.shim (hc.endpoints e) he hguard
    · cases hl
    · exact absurd rfl (hne l)
  · have hnot : ∀ e l, a ≠ .shim e l := fun e l heq => ha ⟨e, l, heq⟩
    refine h.frame (history_act hnot) ?_ ?_
    · intro e sh' he'
      rcases endpoints_cases hg e with ⟨l, _, hl, _⟩ | ⟨l, c, _, _, heq⟩ | ⟨_, n, heq⟩
      · exact absurd hl (hnot e l)
      · cases heq.symm.trans he'
      · rcases shim_of_withNetwork (heq.symm.trans he') with ⟨sh, he, rfl⟩
        exact ⟨sh, he, rfl⟩
    · intro e sh he
      rcases endpoints_cases hg e with ⟨l, _, hl, _⟩ | ⟨l, c, _, hc', _⟩ | ⟨_, n, heq⟩
      · exact absurd hl (hnot e l)
      · cases hc'.symm.trans he
      · refine ⟨{ sh with network := n }, ?_, rfl⟩
        rw [heq, he]
        rfl

/-- In every run the history tells of all requests and answers. -/
theorem recorded_reachable (hlib : lib.Lawful decided)
    (hr : (cluster lib decided cfg t).Reachable s) : Recorded s := by
  refine (cluster lib decided cfg t).invariant Recorded ?_ ?_ s hr
  · intro s hs
    rcases hs with ⟨ω, _, rfl⟩
    exact recorded_new cfg ω
  · intro l s hs hg h
    have hact := recorded_act (coherent_reachable hlib hs) h hg
    exact ⟨hact.wellFormed, hact.invoked, hact.requested, hact.responded⟩

end Cluster

end OmnipaxosKv
