import OmnipaxosKv.Jepsen.Lifecycle

/-! # Calls and parallel steps of a test

What is claimed of a database is a contract: its `teardown!` clears a machine, whatever is on it,
and its `setup!` brings a cleared machine up. Under a contract the rules for calls and for parallel
steps speak only of what has been called: an allowed call moves the status as `Call.after` says,
and the machines stay tied to it.
-/

namespace OmnipaxosKv

namespace Jepsen

namespace Lifecycle

open Script

/-! ## Contracts -/

/-- What a database does to the machines; what it leaves behind when it throws is open. -/
structure DB.Meets {ν : Type} (db : DB ν) (cleared up : Node → ν → Prop) : Prop where
  teardown : ∀ n, Triple (fun _ => True) (db.teardown n) (fun _ r => cleared n r.machine)
    fun _ _ => True
  setup : ∀ n, Triple (fun r => cleared n r.machine) (db.setup n) (fun _ r => up n r.machine)
    fun _ _ => True
  setupPrimary : ∀ x, db.setupPrimary = some x → ∀ n, Triple (fun r => up n r.machine) (x n)
    (fun _ r => up n r.machine) fun _ _ => True

structure Contract (ν : Type) where
  test : Test ν
  cleared : Node → ν → Prop
  up : Node → ν → Prop
  meets : test.db.Meets cleared up

namespace Contract

variable {ν α β : Type} (K : Contract ν)

/-- Until the database is killed for its logs, the machine is as the last call left it. -/
def Tied (n : Node) (ns : NodeStatus) (machine : ν) : Prop :=
  ns.logs = false →
    (ns.db = .torn true → K.cleared n machine) ∧ (ns.db = .setUp true → K.up n machine)

def Ties (s : Status) (remote : Node → ν) : Prop := ∀ n, K.Tied n (s.node n) (remote n)

/-- A call that was in turn, and the interpreter's only with the machines up. -/
def InTurn (a : Made ν) : Prop :=
  a.call.Allowed K.test a.status ∧
    (a.call = .interpret → ∀ n ∈ K.test.nodes, K.up n (a.remote n))

/-- The calls so far, of which the interpreter's is one if it is known to have been made. -/
structure Noted (s : Status) (calls : List (Made ν)) : Prop where
  inTurn : ∀ a ∈ calls, K.InTurn a
  interpreted : s.interpreted ≠ none → ∃ a ∈ calls, a.call = .interpret

structure Holds (P : Status → Prop) (w : World ν) : Prop where
  status : P w.status
  ties : K.Ties w.status w.remote
  calls : K.Noted w.status w.calls

/-- A triple about what has been called. -/
def Moves (P : Status → Prop) (x : Script (World ν) Throwable α) (Q : α → Status → Prop)
    (E : Throwable → Status → Prop) : Prop :=
  Triple (K.Holds P) x (fun a => K.Holds (Q a)) fun e => K.Holds (E e)

/-- An allowed call of this body moves the status as the call says. -/
def Takes (c : Call) (body : Script (World ν) Throwable α) : Prop :=
  ∀ s, c.Allowed K.test s →
    K.Moves (· = s) (call c body) (fun _ s' => s' = c.after none s)
      (fun e s' => s' = c.after (some e) s)

variable {K} {P P' : Status → Prop} {x : Script (World ν) Throwable α}
  {f : α → Script (World ν) Throwable β} {Q Q' : α → Status → Prop} {R : β → Status → Prop}
  {E E' : Throwable → Status → Prop}

/-- What holds of a world may be weakened. -/
theorem Holds.mono {w : World ν} (h : K.Holds P w) (himp : ∀ s, P s → P' s) : K.Holds P' w :=
  ⟨himp _ h.status, h.ties, h.calls⟩

/-- The rule of consequence. -/
theorem Moves.weaken (h : K.Moves P x Q E) (hP : ∀ s, P' s → P s) (hQ : ∀ a s, Q a s → Q' a s)
    (hE : ∀ e s, E e s → E' e s) : K.Moves P' x Q' E' :=
  Triple.weaken h (fun _ hw => hw.mono hP) (fun a _ hw => hw.mono (hQ a))
    fun e _ hw => hw.mono (hE e)

/-- A script that only returns moves nothing. -/
theorem moves_pure (a : α) (h : ∀ s, P s → Q a s) :
    K.Moves P (pure a : Script (World ν) Throwable α) Q E :=
  triple_pure a fun _ hw => hw.mono h

/-- A script that only throws moves nothing. -/
theorem moves_throw (e : Throwable) (h : ∀ s, P s → E e s) :
    K.Moves P (throw e : Script (World ν) Throwable α) Q E :=
  triple_throw e fun _ hw => hw.mono h

/-- One script after the other. -/
theorem Moves.bind (hx : K.Moves P x Q E) (hf : ∀ a, K.Moves (Q a) (f a) R E) :
    K.Moves P (x >>= f) R E :=
  Triple.bind hx hf

/-- The condition on an outcome may be taken into what holds. -/
theorem holds_post {outcome : Except Throwable α} {w : World ν} :
    post (fun a => K.Holds (Q a)) (fun e => K.Holds (E e)) outcome w ↔
      K.Holds (post Q E outcome) w := by
  cases outcome with
  | ok a => exact Iff.rfl
  | error e => exact Iff.rfl

/-- An attempt does not throw, and returns the outcome. -/
theorem Moves.attempt (h : K.Moves P x Q E) : K.Moves P (attempt x) (post Q E) E' := by
  refine Triple.weaken (Triple.attempt h) (fun _ hw => hw) ?_ fun e _ hw => hw
  intro outcome w hw
  exact holds_post.mp hw

/-- An outcome is delivered as it is. -/
theorem moves_deliver (outcome : Except Throwable α) (h : ∀ s, P s → post Q E outcome s) :
    K.Moves P (deliver outcome) Q E :=
  triple_deliver outcome fun _ hw => holds_post.mpr (hw.mono h)

/-- The clean-up runs after either outcome. -/
theorem Moves.ensuring {cleanup : Script (World ν) Throwable Unit} (hx : K.Moves P x Q E)
    (hcleanup : ∀ outcome, K.Moves (post Q E outcome) cleanup (fun _ => post Q' E' outcome) E') :
    K.Moves P (ensuring x cleanup) Q' E' :=
  hx.attempt.bind fun outcome => (hcleanup outcome).bind fun _ =>
    moves_deliver outcome fun _ hs => hs

/-- What comes of the body does not matter. -/
theorem Moves.ensuring_always {cleanup : Script (World ν) Throwable Unit} {M M' : Status → Prop}
    (hx : K.Moves P x (fun _ => M) fun _ => M)
    (hcleanup : K.Moves M cleanup (fun _ => M') fun _ => M') :
    K.Moves P (Script.ensuring x cleanup) (fun _ => M') fun _ => M' := by
  refine hx.ensuring fun outcome => ?_
  apply hcleanup.weaken
  · intro s hs
    exact post_const.mp hs
  · intro _ s hs
    exact post_const.mpr hs
  · intro e s hs
    exact hs

/-- Exceptions are returned, and errors are thrown on. -/
theorem moves_fcatch (h : K.Moves P x Q E) :
    K.Moves P (fcatch x) (post Q E) (fun e s => e = .error ∧ E .error s) := by
  rw [fcatch]
  refine h.attempt.bind fun outcome => ?_
  split
  · exact moves_throw .error fun _ hs => ⟨rfl, hs⟩
  · exact moves_pure outcome fun _ hs => hs

/-- What is known of the value alone. -/
theorem Moves.value {V : α → Prop} (h : K.Moves P x Q E)
    (hvalue : Triple (fun _ => True) x (fun a _ => V a) fun _ _ => True) :
    K.Moves P x (fun a s => V a ∧ Q a s) E := by
  refine (Triple.and h hvalue).weaken (fun _ hw => ⟨hw, trivial⟩) ?_ fun _ _ hw => hw.1
  rintro a w ⟨hw, hV⟩
  exact hw.mono fun _ hs => ⟨hV, hs⟩

/-- A call that delivers an outcome returns only if the outcome is a value. -/
theorem triple_call_deliver {c : Call} (outcome : Except Throwable α) :
    Triple (fun _ : World ν => True) (call c (deliver outcome)) (fun a _ => outcome = .ok a)
      fun _ _ => True := by
  intro w _
  have heval : ((call c (deliver outcome)).eval w).1 = outcome := by
    rw [call, eval_bind, eval_modify]
    dsimp only
    rw [eval_bind, eval_attempt, eval_deliver]
    dsimp only
    rw [eval_bind, eval_modify]
    dsimp only
    rw [eval_deliver]
  rw [heval]
  cases outcome with
  | ok a => rfl
  | error e => trivial

/-- To be proved from one status at a time. -/
theorem moves_of_each (h : ∀ s, P s → K.Moves (· = s) x Q E) : K.Moves P x Q E :=
  fun w hw => h w.status hw.status w ⟨rfl, hw.ties, hw.calls⟩

/-! ## Calls -/

/-- Only the call of the interpreter tells whether it returned. -/
theorem interpreted_after {c : Call} (h : c ≠ .interpret) (thrown : Option Throwable)
    (s : Status) : (c.after thrown s).interpreted = s.interpreted := by
  cases c with
  | interpret => exact absurd rfl h
  | _ => rfl

/-- A call in its turn is added to the calls made. -/
theorem Noted.make {w : World ν} {c : Call} (h : K.Noted w.status w.calls)
    (hturn : K.InTurn ⟨c, w.status, w.remote⟩) (thrown : Option Throwable) :
    K.Noted (c.after thrown w.status) (w.make c).calls := by
  constructor
  · intro a ha
    rcases List.mem_append.mp ha with hold | hnew
    · exact h.inTurn a hold
    · rw [List.mem_singleton.mp hnew]
      exact hturn
  · intro hinterpreted
    by_cases hc : c = .interpret
    · exact ⟨_, List.mem_append_right _ List.mem_cons_self, hc⟩
    · rw [interpreted_after hc] at hinterpreted
      rcases h.interpreted hinterpreted with ⟨a, ha, hcall⟩
      exact ⟨a, List.mem_append_left _ ha, hcall⟩

/-- The body leaves alone what has been noted, and ties the machines as the call says. -/
theorem takes_of_body {c : Call} {body : Script (World ν) Throwable α}
    (hup : ∀ s remote, c.Allowed K.test s → K.Ties s remote →
      c = .interpret → ∀ n ∈ K.test.nodes, K.up n (remote n))
    (hbody : ∀ s calls, c.Allowed K.test s →
      Triple (fun w => w.status = s ∧ w.calls = calls ∧ K.Ties s w.remote) body
        (fun _ w => w.status = s ∧ w.calls = calls ∧ K.Ties (c.after none s) w.remote)
        (fun e w => w.status = s ∧ w.calls = calls ∧ K.Ties (c.after (some e) s) w.remote)) :
    K.Takes c body := by
  intro s hallowed w hw
  rcases hw with ⟨hstatus, hties, hcalls⟩
  -- the call is noted when it is made, whatever comes of it
  have hmade : ∀ thrown, K.Noted (c.after thrown s) (w.make c).calls := by
    intro thrown
    have hturn : K.InTurn ⟨c, w.status, w.remote⟩ :=
      ⟨hstatus ▸ hallowed, hup _ _ hallowed (hstatus ▸ hties)⟩
    rw [← hstatus]
    exact hcalls.make hturn thrown
  have hafter := hbody s (w.make c).calls hallowed (w.make c)
    ⟨hstatus, rfl, hstatus ▸ hties⟩
  -- the body runs after the note, and its outcome is recorded
  have heval : (call c body).eval w =
      ((body.eval (w.make c)).1, (body.eval (w.make c)).2.record c (body.eval (w.make c)).1) := by
    rw [call, eval_bind, eval_modify]
    dsimp only
    rw [eval_bind, eval_attempt]
    dsimp only
    rw [eval_bind, eval_modify]
    dsimp only
    rw [eval_deliver]
  rw [heval]
  rcases hrun : body.eval (w.make c) with ⟨_ | a, w'⟩
  -- it threw
  · rw [hrun] at hafter
    rcases hafter with ⟨hs', hc', ht'⟩
    refine ⟨congrArg (fun s => c.after _ s) hs', ?_, ?_⟩
    · show K.Ties (c.after _ w'.status) w'.remote
      rw [hs']
      exact ht'
    · show K.Noted (c.after _ w'.status) w'.calls
      rw [hs', hc']
      exact hmade _
  -- it returned
  · rw [hrun] at hafter
    rcases hafter with ⟨hs', hc', ht'⟩
    refine ⟨congrArg (fun s => c.after _ s) hs', ?_, ?_⟩
    · show K.Ties (c.after _ w'.status) w'.remote
      rw [hs']
      exact ht'
    · show K.Noted (c.after _ w'.status) w'.calls
      rw [hs', hc']
      exact hmade _

/-! ### Calls that change no machine -/

/-- The calls that change what is known of a database. -/
def touchesDb : Call → Bool
  | .on _ .setupDb | .on _ .setupPrimary | .on _ .teardownDb | .on _ .snarfLogs => true
  | _ => false

/-- Other calls change neither the database nor whether the logs were asked for. -/
theorem node_after {c : Call} (h : touchesDb c = false) (thrown : Option Throwable) (s : Status)
    (n : Node) : ((c.after thrown s).node n).db = (s.node n).db ∧
      ((c.after thrown s).node n).logs = (s.node n).logs := by
  cases c with
  | on m c =>
      by_cases hn : n = m
      · subst hn
        rw [Call.after, setNode_self]
        cases c with
        | setupDb | setupPrimary | teardownDb | snarfLogs => cases h
        | _ => exact ⟨rfl, rfl⟩
      · rw [Call.after, setNode_ne s hn]
        exact ⟨rfl, rfl⟩
  | _ => exact ⟨rfl, rfl⟩

/-- After a call that does not touch the database the machines stay tied to what is known of them. -/
theorem ties_after {c : Call} (h : touchesDb c = false) (thrown : Option Throwable) {s : Status}
    {remote : Node → ν} (hties : K.Ties s remote) : K.Ties (c.after thrown s) remote := by
  intro n
  rcases node_after h thrown s n with ⟨hdb, hlogs⟩
  rw [Tied, hdb, hlogs]
  exact hties n

/-- The interpreter is called with the databases running. -/
theorem up_of_allowed {s : Status} {remote : Node → ν} (h : Call.interpret.Allowed K.test s)
    (hties : K.Ties s remote) : ∀ n ∈ K.test.nodes, K.up n (remote n) := by
  intro n hn
  rcases h with ⟨_, hrunning, _, _⟩
  rcases hrunning.db n hn with ⟨hdb, hlogs⟩
  exact (hties n hlogs).2 hdb

/-- A call to the outside meets the next fate. -/
theorem eval_outside (w : World ν) : (outside : Script (World ν) Throwable Unit).eval w =
    ((w.fates 0).outcome, { w with fates := fun i => w.fates (i + 1) }) := by
  rw [outside, eval_bind, eval_get]
  dsimp only
  rw [eval_bind, eval_set]
  dsimp only
  rw [eval_deliver]

/-- A call to the outside, if it is not one to a database, is taken as it comes. -/
theorem takes_outside {c : Call} (h : touchesDb c = false) : K.Takes c outside := by
  apply takes_of_body
  · intro s remote hallowed hties hc
    subst hc
    exact up_of_allowed hallowed hties
  · intro s calls _ w hw
    rcases hw with ⟨hstatus, hcalls, hties⟩
    rw [eval_outside]
    cases (w.fates 0).outcome with
    | ok _ => exact ⟨hstatus, hcalls, ties_after h none hties⟩
    | error e => exact ⟨hstatus, hcalls, ties_after h (some e) hties⟩

/-- A call that only delivers an outcome is taken in its turn. -/
theorem takes_deliver {c : Call} (h : touchesDb c = false) (hc : c ≠ .interpret)
    (outcome : Except Throwable α) : K.Takes c (deliver outcome) := by
  apply takes_of_body
  · intro s remote _ _ habsurd
    exact absurd habsurd hc
  · intro s calls _
    refine triple_deliver outcome ?_
    intro w hw
    rcases hw with ⟨hstatus, hcalls, hties⟩
    cases outcome with
    | ok a => exact ⟨hstatus, hcalls, ties_after h none hties⟩
    | error e => exact ⟨hstatus, hcalls, ties_after h (some e) hties⟩

/-! ### Calls to the database -/

section

variable {n : Node} {ns : NodeStatus} {machine : ν}

/-- A machine is tied that was cleared when its database was torn down. -/
theorem tied_of_cleared (hdb : ns.db = .torn true) (h : K.cleared n machine) :
    K.Tied n ns machine := by
  intro _
  refine ⟨fun _ => h, ?_⟩
  intro hup
  rw [hdb] at hup
  cases hup

/-- A machine is tied that was brought up when its database was set up. -/
theorem tied_of_up (hdb : ns.db = .setUp true) (h : K.up n machine) : K.Tied n ns machine := by
  intro _
  refine ⟨?_, fun _ => h⟩
  intro htorn
  rw [hdb] at htorn
  cases htorn

/-- Nothing is said of a machine where the last call threw. -/
theorem tied_of_thrown (hdb : ns.db = .torn false ∨ ns.db = .setUp false) :
    K.Tied n ns machine := by
  intro _
  constructor
  · intro htorn
    rw [htorn] at hdb
    rcases hdb with h | h
    · cases h
    · cases h
  · intro hup
    rw [hup] at hdb
    rcases hdb with h | h
    · cases h
    · cases h

/-- A machine is tied whose database has been killed. -/
theorem tied_of_killed (hlogs : ns.logs = true) : K.Tied n ns machine := by
  intro hnot
  rw [hlogs] at hnot
  cases hnot

end

/-- What a script does to the machine of a node carries over to the call. -/
theorem takes_onMachine {n : Node} {c : NodeCall} {x : Script (Remote ν) Throwable α}
    (hx : ∀ s, c.Allowed K.test s n →
      Triple (fun r => K.Tied n (s.node n) r.machine) x
        (fun _ r => K.Tied n (c.after none (s.node n)) r.machine)
        (fun e r => K.Tied n (c.after (some e) (s.node n)) r.machine)) :
    K.Takes (.on n c) (onMachine n x) := by
  apply takes_of_body
  · intro s remote _ _ habsurd
    cases habsurd
  · intro s calls hallowed w hw
    rcases hw with ⟨hstatus, hcalls, hties⟩
    have hpost := hx s hallowed ⟨w.fates, w.remote n⟩ (hties n)
    have hothers : ∀ (thrown : Option Throwable) (machine : ν),
        K.Tied n (c.after thrown (s.node n)) machine →
        K.Ties ((Call.on n c).after thrown s) (Function.update w.remote n machine) := by
      intro thrown machine htied m
      by_cases hm : m = n
      · subst hm
        rw [Call.after, setNode_self, Function.update_self]
        exact htied
      · rw [Call.after, setNode_ne s hm, Function.update_of_ne hm]
        exact hties m
    have heval : (onMachine n x).eval w =
        ((x.eval ⟨w.fates, w.remote n⟩).1,
          { w with
            fates := (x.eval ⟨w.fates, w.remote n⟩).2.fates
            remote := Function.update w.remote n (x.eval ⟨w.fates, w.remote n⟩).2.machine }) :=
      rfl
    rw [heval]
    rcases hrun : x.eval ⟨w.fates, w.remote n⟩ with ⟨_ | a, r⟩
    · rw [hrun] at hpost
      exact ⟨hstatus, hcalls, hothers _ _ hpost⟩
    · rw [hrun] at hpost
      exact ⟨hstatus, hcalls, hothers _ _ hpost⟩

/-- A tear-down that returns leaves the machine cleared. -/
theorem takes_teardownDb (n : Node) :
    K.Takes (.on n .teardownDb) (onMachine n (K.test.db.teardown n)) := by
  apply takes_onMachine
  intro s _
  apply (K.meets.teardown n).weaken
  · intro r _
    trivial
  · intro _ r hcleared
    exact tied_of_cleared rfl hcleared
  · intro e r _
    exact tied_of_thrown (.inl rfl)

/-- A set-up that returns brings a cleared machine up. -/
theorem takes_setupDb (n : Node) :
    K.Takes (.on n .setupDb) (onMachine n (K.test.db.setup n)) := by
  apply takes_onMachine
  intro s hallowed
  rcases hallowed with ⟨_, _, _, hdb, hlogs⟩
  apply (K.meets.setup n).weaken
  · intro r htied
    exact (htied hlogs).1 hdb
  · intro _ r hup
    exact tied_of_up rfl hup
  · intro e r _
    exact tied_of_thrown (.inr rfl)

/-- The set-up of the primary leaves the machine up. -/
theorem takes_setupPrimary {x : Node → Script (Remote ν) Throwable Unit}
    (hx : K.test.db.setupPrimary = some x) (n : Node) :
    K.Takes (.on n .setupPrimary) (onMachine n (x n)) := by
  apply takes_onMachine
  intro s hallowed
  rcases hallowed with ⟨_, _, hdb, hhead⟩
  have hn := hdb n (List.mem_of_mem_head? hhead)
  apply (K.meets.setupPrimary x hx n).weaken
  · intro r htied
    exact (htied hn.2).2 hn.1
  · intro _ r hup
    exact tied_of_up rfl hup
  · intro e r _
    exact tied_of_thrown (.inr rfl)

/-- Once the logs were asked for, nothing is known of the machine. -/
theorem takes_snarfLogs (n : Node) (x : Script (Remote ν) Throwable Unit) :
    K.Takes (.on n .snarfLogs) (onMachine n x) := by
  apply takes_onMachine
  intro s _
  apply (triple_true (P := fun _ => True) x).weaken
  · intro r _
    trivial
  · intro _ r _
    exact tied_of_killed rfl
  · intro e r _
    exact tied_of_killed rfl

/-! ## Parallel steps -/

/-- Where threads return together, each has returned. -/
theorem gather_ok {turn : ℕ} {os : List (Except Throwable α)} {bs : List α}
    (h : gather turn os = .ok bs) : os = bs.map .ok := by
  have hnone : firstThrown turn os = none := by
    rw [gather] at h
    split at h
    · cases h
    · assumption
  have hall : os.filterMap failure = [] := by
    dsimp only [firstThrown] at hnone
    rcases Option.or_eq_none_iff.mp hnone with ⟨_, hhead⟩
    rw [List.head?_eq_none_iff] at hhead
    exact List.rotate_eq_nil_iff.mp hhead
  rw [gather, hnone] at h
  rw [← Except.ok.inj h]
  clear h hnone
  induction os with
  | nil => rfl
  | cons o os ih =>
      cases o with
      | ok b => exact congrArg _ (ih hall)
      | error e => cases hall

/-- Where they throw, one of them has thrown this. -/
theorem mem_of_gather_error {turn : ℕ} {os : List (Except Throwable α)} {e : Throwable}
    (h : gather turn os = .error e) : .error e ∈ os := by
  have hmem : e ∈ os.filterMap failure := by
    rw [gather] at h
    split at h
    · next e' hfirst =>
        rw [← Except.error.inj h, ← @List.mem_rotate _ _ _ turn]
        dsimp only [firstThrown] at hfirst
        rcases Option.or_eq_some_iff.mp hfirst with hfind | ⟨_, hhead⟩
        · exact List.mem_of_find?_eq_some hfind
        · exact List.mem_of_mem_head? hhead
    · cases h
  rcases List.mem_filterMap.mp hmem with ⟨o, ho, hfailure⟩
  cases o with
  | ok a => cases hfailure
  | error e' =>
      rw [← Option.some.inj hfailure]
      exact ho

/-- Which of the threads throws first is not known. -/
theorem moves_takeTurn : K.Moves P (takeTurn : Script (World ν) Throwable ℕ) (fun _ => P) E := by
  intro w hw
  exact ⟨hw.status, hw.ties, hw.calls⟩

@[simp] theorem withNodes_node (s : Status) (g : Node → NodeStatus) : (s.withNodes g).node = g :=
  rfl

/-- A call to a node changes what is known of it, whatever is known of the others. -/
theorem after_withNodes {n : Node} {c : NodeCall} (thrown : Option Throwable) (s : Status)
    (g : Node → NodeStatus) : (Call.on n c).after thrown (s.withNodes g) =
      s.withNodes (Function.update g n (c.after thrown (g n))) := rfl

/-- What has become of the nodes, given what has come of their threads. -/
def Settled (s : Status) (R : Node → Except Throwable β → NodeStatus → Prop)
    (done : List (Node × Except Throwable β)) (s' : Status) : Prop :=
  ∃ g, s' = s.withNodes g ∧ (∀ n ∉ done.map Prod.fst, g n = s.node n) ∧
    ∀ p ∈ done, R p.1 p.2 (g p.1)

/-- A thread that keeps to its node settles it. -/
theorem moves_outcomes {nodes : List Node} (hnodup : nodes.Nodup)
    {f : Node → Script (World ν) Throwable β} {s : Status}
    (R : Node → Except Throwable β → NodeStatus → Prop)
    (h : ∀ n ∈ nodes, ∀ g : Node → NodeStatus, g n = s.node n →
      (∀ m, g m = s.node m ∨ m ∈ nodes ∧ ∃ o, R m o (g m)) →
      K.Moves (· = s.withNodes g) (f n)
        (fun b s' => ∃ ns, s' = s.withNodes (Function.update g n ns) ∧ R n (.ok b) ns)
        (fun e s' => ∃ ns, s' = s.withNodes (Function.update g n ns) ∧ R n (.error e) ns)) :
    K.Moves (· = s) (outcomes f nodes)
      (fun os s' => os.length = nodes.length ∧ Settled s R (nodes.zip os) s') E := by
  have hsettles : ∀ done n rest, nodes = done.map Prod.fst ++ n :: rest →
      Triple (K.Holds (Settled s R done)) (f n)
        (fun b => K.Holds (Settled s R (done ++ [(n, .ok b)])))
        (fun e => K.Holds (Settled s R (done ++ [(n, .error e)]))) := by
    intro done n rest hsplit
    have hn : n ∈ nodes := by
      rw [hsplit]
      exact List.mem_append_right _ List.mem_cons_self
    have hnew : n ∉ done.map Prod.fst := by
      rw [hsplit] at hnodup
      intro hmem
      exact (List.nodup_append.mp hnodup).2.2 n hmem n List.mem_cons_self rfl
    -- the node of the thread is settled, and the others stay
    have hadd : ∀ (g : Node → NodeStatus) (o : Except Throwable β) ns s',
        (∀ m ∉ done.map Prod.fst, g m = s.node m) → (∀ p ∈ done, R p.1 p.2 (g p.1)) →
        s' = s.withNodes (Function.update g n ns) → R n o ns →
        Settled s R (done ++ [(n, o)]) s' := by
      intro g o ns s' hothers hdone hs' hR
      refine ⟨_, hs', ?_, ?_⟩
      · intro m hm
        rw [List.map_append, List.mem_append, not_or] at hm
        have hne : m ≠ n := fun heq => hm.2 (List.mem_singleton.mpr heq)
        rw [Function.update_of_ne hne]
        exact hothers m hm.1
      · intro p hp
        rcases List.mem_append.mp hp with hold | hlast
        · have hne : p.1 ≠ n := fun heq => hnew (heq ▸ List.mem_map_of_mem hold)
          rw [Function.update_of_ne hne]
          exact hdone p hold
        · rw [List.mem_singleton.mp hlast, Function.update_self]
          exact hR
    refine moves_of_each ?_
    rintro s₁ ⟨g, hs₁, hothers, hdone⟩
    have hthread := h n hn g (hothers n hnew) (by
      intro m
      by_cases hm : m ∈ done.map Prod.fst
      · right
        rcases List.mem_map.mp hm with ⟨p, hp, heq⟩
        refine ⟨?_, p.2, heq ▸ hdone p hp⟩
        rw [hsplit]
        exact List.mem_append_left _ hm
      · exact .inl (hothers m hm))
    rw [← hs₁] at hthread
    apply hthread.weaken
    · intro s' hs'
      exact hs'
    · rintro b s' ⟨ns, hs', hR⟩
      exact hadd g _ ns s' hothers hdone hs' hR
    · rintro e s' ⟨ns, hs', hR⟩
      exact hadd g _ ns s' hothers hdone hs' hR
  apply (triple_outcomes (fun done => K.Holds (Settled s R done)) hsettles).weaken
  · intro w hw
    refine hw.mono ?_
    intro s' hs'
    exact ⟨s.node, hs', fun _ _ => rfl, fun p hp => by cases hp⟩
  · rintro os w ⟨hlength, hw⟩
    exact hw.mono fun _ hs' => ⟨hlength, hs'⟩
  · intro e w hw
    exact hw

/-- Each node has an outcome. -/
theorem mem_zip_of_mem {nodes : List Node} {os : List β} (hlength : os.length = nodes.length)
    {n : Node} (hn : n ∈ nodes) : ∃ o, (n, o) ∈ nodes.zip os := by
  rw [← List.map_fst_zip (Nat.le_of_eq hlength.symm)] at hn
  rcases List.mem_map.mp hn with ⟨p, hp, heq⟩
  exact ⟨p.2, heq ▸ hp⟩

/-- If each thread leaves its own node in `R`, whatever the others did before, all nodes are in
`R` in the end. -/
theorem moves_realPmap {nodes : List Node} (hnodup : nodes.Nodup)
    {f : Node → Script (World ν) Throwable β} {s : Status}
    (R : Node → Except Throwable β → NodeStatus → Prop)
    (h : ∀ n ∈ nodes, ∀ g : Node → NodeStatus, g n = s.node n →
      (∀ m, g m = s.node m ∨ m ∈ nodes ∧ ∃ o, R m o (g m)) →
      K.Moves (· = s.withNodes g) (f n)
        (fun b s' => ∃ ns, s' = s.withNodes (Function.update g n ns) ∧ R n (.ok b) ns)
        (fun e s' => ∃ ns, s' = s.withNodes (Function.update g n ns) ∧ R n (.error e) ns)) :
    K.Moves (· = s) (realPmap f nodes)
      (fun bs s' => bs.length = nodes.length ∧ ∃ g, s' = s.withNodes g ∧
        (∀ n ∉ nodes, g n = s.node n) ∧ ∀ p ∈ nodes.zip bs, R p.1 (.ok p.2) (g p.1))
      (fun e s' => ∃ g, s' = s.withNodes g ∧ (∀ n ∉ nodes, g n = s.node n) ∧
        (∀ n ∈ nodes, ∃ o, R n o (g n)) ∧ ∃ n ∈ nodes, R n (.error e) (g n)) := by
  rw [realPmap]
  refine (moves_outcomes hnodup R h).bind fun os => ?_
  refine moves_takeTurn.bind fun turn => moves_deliver _ ?_
  rintro s' ⟨hlength, g, hs', hothers, hdone⟩
  rw [List.map_fst_zip (Nat.le_of_eq hlength.symm)] at hothers
  cases hgather : gather turn os with
  | ok bs =>
      rw [gather_ok hgather] at hlength hdone
      rw [List.length_map] at hlength
      refine ⟨hlength, g, hs', hothers, ?_⟩
      intro p hp
      apply hdone (p.1, .ok p.2)
      rw [List.zip_map_right]
      exact List.mem_map.mpr ⟨p, hp, rfl⟩
  | error e =>
      refine ⟨g, hs', hothers, ?_, ?_⟩
      · intro n hn
        rcases mem_zip_of_mem hlength hn with ⟨o, ho⟩
        exact ⟨o, hdone _ ho⟩
      · have hmem := mem_of_gather_error hgather
        rw [← List.map_snd_zip (Nat.le_of_eq hlength)] at hmem
        rcases List.mem_map.mp hmem with ⟨p, hp, heq⟩
        refine ⟨p.1, (List.of_mem_zip hp).1, ?_⟩
        have hR := hdone p hp
        rw [heq] at hR
        exact hR

/-- A node among those something happened to. -/
theorem mapNodes_of_mem (s : Status) {nodes : List Node} {n : Node} (h : n ∈ nodes)
    (u : Node → NodeStatus → NodeStatus) : (s.mapNodes nodes u).node n = u n (s.node n) :=
  if_pos h

/-- One call to every node. -/
theorem moves_onNodes {nodes : List Node} (hnodup : nodes.Nodup) {c : NodeCall}
    {body : Node → Script (World ν) Throwable Unit} {s : Status}
    (htakes : ∀ n, K.Takes (.on n c) (body n))
    (hallowed : ∀ n ∈ nodes, ∀ g : Node → NodeStatus, g n = s.node n →
      (∀ m, g m = s.node m ∨ m ∈ nodes ∧ ∃ thrown, g m = c.after thrown (s.node m)) →
      c.Allowed K.test (s.withNodes g) n) :
    K.Moves (· = s) (onNodes nodes fun n => call (.on n c) (body n))
      (fun _ s' => s' = s.mapNodes nodes fun _ ns => c.after none ns)
      (fun _ s' => ∃ thrown : Node → Option Throwable,
        s' = s.mapNodes nodes fun n ns => c.after (thrown n) ns) := by
  -- each thread makes its call from what the other threads have left
  have hphase := moves_realPmap hnodup (f := fun n => call (.on n c) (body n))
    (fun n o ns => ns = c.after (failure o) (s.node n)) (by
      intro n hn g hg hothers
      have hcall := htakes n (s.withNodes g) (hallowed n hn g hg (by
        intro m
        rcases hothers m with hsame | ⟨hm, o, hR⟩
        · exact .inl hsame
        · exact .inr ⟨hm, failure o, hR⟩))
      rw [← hg]
      apply hcall.weaken
      · intro s' hs'
        exact hs'
      · intro b s' hs'
        exact ⟨_, hs'.trans (after_withNodes none s g), rfl⟩
      · intro e s' hs'
        exact ⟨_, hs'.trans (after_withNodes (some e) s g), rfl⟩)
  rw [onNodes]
  refine Moves.bind (Q := fun _ s' => s' = s.mapNodes nodes fun _ ns => c.after none ns) ?_
    fun _ => moves_pure () fun _ hs' => hs'
  apply hphase.weaken
  · intro s' hs'
    exact hs'
  · rintro bs s' ⟨hlength, g, hs', hothers, hdone⟩
    rw [hs']
    refine congrArg s.withNodes (funext fun n => ?_)
    by_cases hn : n ∈ nodes
    · rcases mem_zip_of_mem hlength hn with ⟨b, hb⟩
      rw [if_pos hn]
      exact hdone _ hb
    · rw [if_neg hn]
      exact hothers n hn
  · rintro e s' ⟨g, hs', hothers, hall, _⟩
    -- some of the calls have thrown, and which of them did is read off the outcomes
    have hchoice : ∀ n, ∃ thrown, n ∈ nodes → g n = c.after thrown (s.node n) := by
      intro n
      by_cases hn : n ∈ nodes
      · rcases hall n hn with ⟨o, hR⟩
        exact ⟨failure o, fun _ => hR⟩
      · exact ⟨none, fun habsurd => absurd habsurd hn⟩
    choose thrown hthrown using hchoice
    refine ⟨thrown, ?_⟩
    rw [hs']
    refine congrArg s.withNodes (funext fun n => ?_)
    by_cases hn : n ∈ nodes
    · rw [if_pos hn]
      exact hthrown n hn
    · rw [if_neg hn]
      exact hothers n hn

end Contract

end Lifecycle

end Jepsen

end OmnipaxosKv
