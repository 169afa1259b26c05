import OmnipaxosKv.Jepsen.Calls

/-! # What is set up is torn down

The triples of the parts of `run!`, from the clients outwards. Whatever throws, and wherever, the
calls stay in turn: the generator is run on databases that were all cleared and then all set up,
with every client ready; the logs are asked for before the databases are torn down, these before
the operating systems and these before the sessions are closed.
-/

namespace OmnipaxosKv

namespace Jepsen

namespace Lifecycle

open Script

namespace Contract

variable {ν α : Type} {K : Contract ν}

/-! ## Clients and nemesis -/

/-- The log and the file of the test are open. -/
structure Begun (s : Status) : Prop where
  handle : s.handle = true
  logging : s.logging = true

/-- A test that has no name is not saved. -/
def Saved (K : Contract ν) (k : ℕ) (s : Status) : Prop := K.test.named = true → s.saved = k

structure Ready (K : Contract ν) (s : Status) : Prop where
  begun : Begun s
  saved : Saved K 1 s
  interpreted : s.interpreted = none
  running : Running K.test s
  nemesis : s.nemesis = .untouched
  clients : Every K.test s (·.client = .untouched)

/-- A call from the status in which it is allowed. -/
theorem Takes.moves {c : Call} {body : Script (World ν) Throwable α} (h : K.Takes c body)
    {P : Status → Prop} {Q : α → Status → Prop} {E : Throwable → Status → Prop}
    (hallowed : ∀ s, P s → c.Allowed K.test s) (hQ : ∀ a s, P s → Q a (c.after none s))
    (hE : ∀ e s, P s → E e (c.after (some e) s)) : K.Moves P (call c body) Q E := by
  refine moves_of_each fun s hs => ?_
  apply (h s (hallowed s hs)).weaken
  · intro s' hs'
    exact hs'
  · intro a s' hs'
    rw [hs']
    exact hQ a s hs
  · intro e s' hs'
    rw [hs']
    exact hE e s hs

/-- Only clients have changed. -/
def ClientsMoved (s : Status) (g : Node → NodeStatus) : Prop :=
  ∀ n, ∃ c, g n = { s.node n with client := c }

theorem running_of_clientsMoved {s : Status} {g : Node → NodeStatus} (h : Running K.test s)
    (hg : ClientsMoved s g) : Running K.test (s.withNodes g) := by
  refine ⟨h.handle, h.saved, ?_, ?_, ?_⟩
  · intro n hn
    rcases hg n with ⟨c, hc⟩
    rw [withNodes_node, hc]
    exact h.live n hn
  · intro n hn
    rcases hg n with ⟨c, hc⟩
    rw [withNodes_node, hc]
    exact h.db n hn
  · intro hprimary n hn
    rcases hg n with ⟨c, hc⟩
    rw [withNodes_node, hc]
    exact h.primary hprimary n hn

/-- The thread that opens the client of a node and sets it up. -/
theorem moves_openNode {s : Status} (hinterpreted : s.interpreted = none)
    (hrunning : Running K.test s) (hclients : Every K.test s (·.client = .untouched)) {n : Node}
    (hn : n ∈ K.test.nodes) {g : Node → NodeStatus} (hg : g n = s.node n)
    (hmoved : ClientsMoved s g) :
    K.Moves (· = s.withNodes g) (openNode n)
      (fun _ s' => s' = s.withNodes (Function.update g n { s.node n with client := .ready }))
      (fun _ s' => ∃ c, True ∧
        s' = s.withNodes (Function.update g n { s.node n with client := c })) := by
  have hopened : ClientsMoved s (Function.update g n { s.node n with client := .opened }) := by
    intro m
    by_cases hm : m = n
    · subst hm
      rw [Function.update_self]
      exact ⟨_, rfl⟩
    · rw [Function.update_of_ne hm]
      exact hmoved m
  rw [openNode]
  apply Moves.bind (Q := fun _ s' =>
    s' = s.withNodes (Function.update g n { s.node n with client := .opened }))
  · apply (takes_outside rfl).moves
    · rintro s' rfl
      refine ⟨hinterpreted, running_of_clientsMoved hrunning hmoved, ?_⟩
      rw [withNodes_node, hg]
      exact hclients n hn
    · rintro _ s' rfl
      rw [after_withNodes, hg]
      rfl
    · rintro e s' rfl
      refine ⟨.failed, trivial, ?_⟩
      rw [after_withNodes, hg]
      rfl
  · intro _
    apply (takes_outside rfl).moves
    · rintro s' rfl
      refine ⟨hinterpreted, running_of_clientsMoved hrunning hopened, ?_⟩
      rw [withNodes_node, Function.update_self]
    · rintro _ s' rfl
      rw [after_withNodes, Function.update_self, Function.update_idem]
      rfl
    · rintro e s' rfl
      refine ⟨.opened, trivial, ?_⟩
      rw [after_withNodes, Function.update_self, Function.update_idem]
      rfl

/-- The thread that tears the client of a node down closes it in any case. -/
theorem moves_closeNode {s : Status} (hinterpreted : s.interpreted ≠ none)
    (hclients : Every K.test s (·.client = .ready)) {n : Node} (hn : n ∈ K.test.nodes)
    {g : Node → NodeStatus} (hg : g n = s.node n) :
    K.Moves (· = s.withNodes g) (closeNode n)
      (fun _ s' => s' = s.withNodes (Function.update g n { s.node n with client := .closed }))
      (fun _ s' => s' = s.withNodes (Function.update g n { s.node n with client := .closed })) := by
  have htorn : K.Moves (· = s.withNodes g) (call (.on n .teardownClient) outside)
      (fun _ s' => s' = s.withNodes (Function.update g n { s.node n with client := .torn }))
      (fun _ s' => s' = s.withNodes (Function.update g n { s.node n with client := .torn })) := by
    apply (takes_outside rfl).moves
    · rintro s' rfl
      refine ⟨hinterpreted, ?_⟩
      rw [withNodes_node, hg]
      exact hclients n hn
    · rintro _ s' rfl
      rw [after_withNodes, hg]
      rfl
    · rintro e s' rfl
      rw [after_withNodes, hg]
      rfl
  have hclosed : ∀ thrown, (Call.on n .closeClient).after thrown
        (s.withNodes (Function.update g n { s.node n with client := .torn })) =
      s.withNodes (Function.update g n { s.node n with client := .closed }) := by
    intro thrown
    rw [after_withNodes, Function.update_self, Function.update_idem]
    rfl
  refine htorn.ensuring_always ?_
  apply (takes_outside rfl).moves
  · rintro s' rfl
    show (Function.update g n { s.node n with client := .torn } n).client = .torn
    rw [Function.update_self]
  · rintro _ s' rfl
    rw [hclosed]
  · rintro e s' rfl
    rw [hclosed]

/-- Threads that move the client of their node move clients only. -/
theorem clientsMoved_of_threads {s : Status} {g : Node → NodeStatus} {nodes : List Node}
    (hothers : ∀ n ∉ nodes, g n = s.node n)
    (hthreads : ∀ n ∈ nodes, ∃ c, g n = { s.node n with client := c }) : ClientsMoved s g := by
  intro n
  by_cases hn : n ∈ nodes
  · exact hthreads n hn
  · exact ⟨(s.node n).client, hothers n hn⟩

/-- Threads that only move the client of their node. -/
theorem moves_clients {s : Status} {f : Node → Script (World ν) Throwable Unit}
    {c : ClientStage} {E : ClientStage → Prop}
    (h : ∀ n ∈ K.test.nodes, ∀ g : Node → NodeStatus, g n = s.node n → ClientsMoved s g →
      K.Moves (· = s.withNodes g) (f n)
        (fun _ s' => s' = s.withNodes (Function.update g n { s.node n with client := c }))
        (fun _ s' => ∃ c, E c ∧
          s' = s.withNodes (Function.update g n { s.node n with client := c }))) :
    K.Moves (· = s) (onNodes K.test.nodes f)
      (fun _ s' => ∃ g, s' = s.withNodes g ∧ ClientsMoved s g ∧
        Every K.test s' (·.client = c))
      (fun _ s' => ∃ g, s' = s.withNodes g ∧ ClientsMoved s g ∧
        Every K.test s' fun ns => ns.client = c ∨ E ns.client) := by
  -- each thread moves the client of its own node
  have hphase := moves_realPmap K.test.nodup (f := f)
    (fun n o ns => ∃ c', ns = { s.node n with client := c' } ∧
      (c' = c ∨ E c') ∧ (∀ b, o = .ok b → c' = c)) (by
    intro n hn g hg hothers
    have hmoved : ClientsMoved s g := by
      intro m
      rcases hothers m with hsame | ⟨_, _, c', hc', _⟩
      · exact ⟨(s.node m).client, hsame⟩
      · exact ⟨c', hc'⟩
    apply (h n hn g hg hmoved).weaken
    · intro s' hs'
      exact hs'
    · intro b s' hs'
      exact ⟨_, hs', c, rfl, .inl rfl, fun _ _ => rfl⟩
    · rintro e s' ⟨c', hE, hs'⟩
      exact ⟨_, hs', c', rfl, .inr hE, fun _ habsurd => by cases habsurd⟩)
  rw [onNodes]
  refine Moves.bind (Q := fun _ s' => ∃ g, s' = s.withNodes g ∧ ClientsMoved s g ∧
    Every K.test s' (·.client = c)) ?_ fun _ => moves_pure () fun _ hs' => hs'
  apply hphase.weaken
  · intro s' hs'
    exact hs'
  · rintro bs s' ⟨hlength, g, hs', hothers, hdone⟩
    -- no thread threw
    have hthreads : ∀ n ∈ K.test.nodes, g n = { s.node n with client := c } := by
      intro n hn
      rcases mem_zip_of_mem hlength hn with ⟨b, hb⟩
      rcases hdone _ hb with ⟨c', hc', _, hok⟩
      rw [← hok b rfl]
      exact hc'
    refine ⟨g, hs', clientsMoved_of_threads hothers fun n hn => ⟨c, hthreads n hn⟩, ?_⟩
    intro n hn
    rw [hs', withNodes_node, hthreads n hn]
  · rintro e s' ⟨g, hs', hothers, hall, _⟩
    -- some thread did, and the others may have come to their end
    refine ⟨g, hs', clientsMoved_of_threads hothers ?_, ?_⟩
    · intro n hn
      rcases hall n hn with ⟨_, c', hc', _⟩
      exact ⟨c', hc'⟩
    · intro n hn
      rcases hall n hn with ⟨_, c', hc', hE, _⟩
      rw [hs', withNodes_node, hc']
      exact hE

/-- No generator is running, or is run any more. -/
structure Idle (K : Contract ν) (s : Status) : Prop where
  begun : Begun s
  live : Every K.test s NodeStatus.Live
  quiet : Quiet K.test s

theorem live_of_clientsMoved {s : Status} {g : Node → NodeStatus}
    (h : Every K.test s NodeStatus.Live) (hg : ClientsMoved s g) :
    Every K.test (s.withNodes g) NodeStatus.Live := by
  intro n hn
  rcases hg n with ⟨c, hc⟩
  rw [withNodes_node, hc]
  exact h n hn

/-- All clients are set up, and so is the nemesis. -/
structure Prepared (K : Contract ν) (nemesis : Stage) (s : Status) : Prop where
  begun : Begun s
  saved : Saved K 1 s
  interpreted : s.interpreted = none
  running : Running K.test s
  nemesis : s.nemesis = nemesis
  clients : Every K.test s (·.client = .ready)

/-- The interpreter has come back, and nothing is torn down. -/
structure Finished (K : Contract ν) (nemesis : Stage) (interpreted : Bool) (s : Status) :
    Prop where
  begun : Begun s
  saved : Saved K 1 s
  interpreted : s.interpreted = some interpreted
  live : Every K.test s NodeStatus.Live
  nemesis : s.nemesis = nemesis
  clients : Every K.test s (·.client = .ready)

/-- All clients are set up; where that fails the test is idle. -/
theorem moves_openNodes {s : Status} (hbegun : Begun s) (hsaved : Saved K 1 s)
    (hinterpreted : s.interpreted = none) (hrunning : Running K.test s)
    (hclients : Every K.test s (·.client = .untouched)) :
    K.Moves (· = s) (onNodes K.test.nodes openNode)
      (fun _ => Prepared K s.nemesis) (fun _ => Idle K) := by
  have hkept : ∀ g, Begun (s.withNodes g) :=
    fun _ => ⟨hbegun.handle, hbegun.logging⟩
  have hphase := moves_clients (K := K) (s := s) (f := openNode)
    (c := .ready) (E := fun _ => True) fun n hn g hg hmoved =>
      moves_openNode hinterpreted hrunning hclients hn hg hmoved
  apply hphase.weaken
  · intro s' hs'
    exact hs'
  · rintro _ s' ⟨g, hs', hmoved, hready⟩
    rw [hs'] at hready ⊢
    exact ⟨hkept g, hsaved, hinterpreted, running_of_clientsMoved hrunning hmoved, rfl, hready⟩
  · rintro e s' ⟨g, hs', hmoved, _⟩
    rw [hs']
    exact ⟨hkept g, live_of_clientsMoved hrunning.live hmoved,
      fun habsurd => absurd hinterpreted habsurd⟩

/-- All clients are torn down and closed. -/
theorem moves_closeNodes {i : Bool} {s : Status} {torn : Bool}
    (h : Finished K (.torn torn) i s) :
    K.Moves (· = s) (onNodes K.test.nodes closeNode)
      (fun _ s' => Idle K s' ∧ Saved K 1 s' ∧ s'.interpreted = some i)
      (fun _ s' => Idle K s' ∧ Saved K 1 s' ∧ s'.interpreted = some i) := by
  have hinterpreted : s.interpreted ≠ none := by
    rw [h.interpreted]
    exact Option.some_ne_none i
  have hidle : ∀ g, ClientsMoved s g → Every K.test (s.withNodes g) (·.client = .closed) →
      Idle K (s.withNodes g) ∧ Saved K 1 (s.withNodes g) ∧
        (s.withNodes g).interpreted = some i := by
    intro g hmoved hclosed
    have hnemesis : (s.withNodes g).nemesis.isSetUp = false := by
      show s.nemesis.isSetUp = false
      rw [h.nemesis]
      rfl
    exact ⟨⟨⟨h.begun.handle, h.begun.logging⟩,
      live_of_clientsMoved h.live hmoved, fun _ => ⟨hnemesis, hclosed⟩⟩, h.saved,
      h.interpreted⟩
  have hphase := moves_clients (K := K) (s := s) (f := closeNode)
    (c := .closed) (E := fun c => c = .closed) fun n hn g hg _ =>
      (moves_closeNode hinterpreted h.clients hn hg).weaken (fun _ hs' => hs')
        (fun _ _ hs' => hs') fun _ _ hs' => ⟨_, rfl, hs'⟩
  apply hphase.weaken
  · intro s' hs'
    exact hs'
  · rintro _ s' ⟨g, hs', hmoved, hclosed⟩
    rw [hs'] at hclosed ⊢
    exact hidle g hmoved hclosed
  · rintro e s' ⟨g, hs', hmoved, hclosed⟩
    rw [hs'] at hclosed ⊢
    exact hidle g hmoved fun n hn => (hclosed n hn).elim id id

/-- The nemesis is torn down, and the clients whatever comes of that. -/
theorem moves_teardown (i : Bool) :
    K.Moves (Finished K (.setUp true) i)
      (do
        let nf ← attempt (call .teardownNemesis outside)
        onNodes K.test.nodes closeNode
        deliver nf)
      (fun _ s => Idle K s ∧ Saved K 1 s ∧ s.interpreted = some i)
      (fun _ s => Idle K s ∧ Saved K 1 s ∧ s.interpreted = some i) := by
  have hnemesis : K.Moves (Finished K (.setUp true) i) (call .teardownNemesis outside)
      (fun _ s => ∃ torn, Finished K (.torn torn) i s)
      (fun _ s => ∃ torn, Finished K (.torn torn) i s) := by
    apply (takes_outside rfl).moves
    · intro s h
      refine ⟨?_, h.nemesis⟩
      rw [h.interpreted]
      exact Option.some_ne_none i
    · intro _ s h
      exact ⟨true, ⟨h.begun.handle, h.begun.logging⟩, h.saved,
        h.interpreted, h.live, rfl, h.clients⟩
    · intro e s h
      exact ⟨false, ⟨h.begun.handle, h.begun.logging⟩, h.saved,
        h.interpreted, h.live, rfl, h.clients⟩
  refine hnemesis.attempt.bind fun nf => ?_
  apply Moves.bind (Q := fun _ s => Idle K s ∧ Saved K 1 s ∧ s.interpreted = some i)
  · refine moves_of_each fun s hs => ?_
    rcases post_const.mp hs with ⟨torn, hfinished⟩
    exact moves_closeNodes hfinished
  · refine fun _ => moves_deliver nf fun s hs => ?_
    exact post_const.mpr hs

/-- The generator is run on a cluster that is ready, and the cluster is idle afterwards. -/
theorem moves_runCase (history : List (Operation Payload)) :
    K.Moves (Ready K) (runCase K.test history)
      (fun a s => a = history ∧ Idle K s ∧ Saved K 1 s ∧ s.interpreted = some true)
      (fun _ => Idle K) := by
  -- the set-up of the nemesis may throw, and is waited for behind the clients
  have hnemesis : K.Moves (Ready K) (call .setupNemesis outside)
      (fun _ s => ∃ s₀, Ready K s₀ ∧ s = { s₀ with nemesis := .setUp true })
      (fun _ s => ∃ s₀, Ready K s₀ ∧ s = { s₀ with nemesis := .setUp false }) := by
    apply (takes_outside rfl).moves
    · intro s h
      exact ⟨h.interpreted, h.running, h.nemesis⟩
    · intro _ s h
      exact ⟨s, h, rfl⟩
    · intro e s h
      exact ⟨s, h, rfl⟩
  -- the interpreter runs with all of them set up
  have hbody : K.Moves (Prepared K (.setUp true))
      (do
        call .interpret outside
        return history)
      (fun a s => a = history ∧ Finished K (.setUp true) true s)
      (fun _ => Finished K (.setUp true) false) := by
    apply Moves.bind (Q := fun _ => Finished K (.setUp true) true)
    · apply (takes_outside rfl).moves
      · intro s h
        exact ⟨h.interpreted, h.running, h.nemesis, h.clients⟩
      · intro _ s h
        exact ⟨⟨h.begun.handle, h.begun.logging⟩, h.saved, rfl,
          h.running.live, h.nemesis, h.clients⟩
      · intro e s h
        exact ⟨⟨h.begun.handle, h.begun.logging⟩, h.saved, rfl,
          h.running.live, h.nemesis, h.clients⟩
    · exact fun _ => moves_pure history fun _ hs => ⟨rfl, hs⟩
  rw [runCase, withClientNemesis]
  refine hnemesis.attempt.bind fun nf => ?_
  apply Moves.bind (Q := fun _ => Prepared K (.setUp (returned (failure nf))))
  · refine moves_of_each fun s hs => ?_
    have hset : ∃ s₀, Ready K s₀ ∧ s = { s₀ with nemesis := .setUp (returned (failure nf)) } := by
      cases nf with
      | ok _ => exact hs
      | error e => exact hs
    rcases hset with ⟨s₀, h, heq⟩
    rw [heq]
    exact moves_openNodes ⟨h.begun.handle, h.begun.logging⟩ h.saved
      h.interpreted
      ⟨h.running.handle, h.running.saved, h.running.live, h.running.db, h.running.primary⟩
      h.clients
  · intro _
    cases nf with
    -- an exception of the nemesis comes out behind the clients, outside the clean-up
    | error e =>
        refine Moves.bind (Q := fun _ _ => False) ?_ ?_
        · refine moves_deliver _ fun s h => ?_
          exact ⟨h.begun, h.running.live, fun habsurd => absurd h.interpreted habsurd⟩
        · intro _ w hw
          exact hw.status.elim
    | ok _ =>
        refine Moves.bind (Q := fun _ => Prepared K (.setUp true)) ?_ ?_
        · exact moves_deliver _ fun s h => h
        · refine fun _ => hbody.ensuring fun outcome => ?_
          -- the clean-up goes on from a run that returned, or from one that did not
          cases outcome with
          | ok a =>
              refine moves_of_each fun s hs => ?_
              apply (moves_teardown true).weaken
              · rintro s' rfl
                exact hs.2
              · intro _ s' hs'
                exact ⟨hs.1, hs'⟩
              · intro e s' hs'
                exact hs'.1
          | error e =>
              apply (moves_teardown false).weaken
              · intro s hs
                exact hs
              · intro _ s hs
                exact hs.1
              · intro e' s hs
                exact hs.1

/-! ## The database -/

/-- Before the generator is run the database can be torn down and set up. -/
structure Cleanable (K : Contract ν) (s : Status) : Prop where
  begun : Begun s
  saved : Saved K 1 s
  interpreted : s.interpreted = none
  nemesis : s.nemesis = .untouched
  live : Every K.test s NodeStatus.Live
  logs : Every K.test s (·.logs = false)
  clients : Every K.test s (·.client = .untouched)

/-- What holds of every node after something that was done to all of them. -/
theorem every_mapNodes {s : Status} {u : Node → NodeStatus → NodeStatus} {p : NodeStatus → Prop}
    (h : ∀ n ∈ K.test.nodes, p (u n (s.node n))) :
    Every K.test (s.mapNodes K.test.nodes u) p := by
  intro n hn
  rw [mapNodes_of_mem s hn]
  exact h n hn

/-- What a call keeps of a node holds all the while that it is made to the nodes. -/
theorem every_during {s : Status} {g : Node → NodeStatus} {c : NodeCall} {nodes : List Node}
    {p : NodeStatus → Prop}
    (hg : ∀ m, g m = s.node m ∨ m ∈ nodes ∧ ∃ thrown, g m = c.after thrown (s.node m))
    (hbefore : Every K.test s p)
    (hafter : ∀ n ∈ K.test.nodes, ∀ thrown, p (c.after thrown (s.node n))) :
    Every K.test (s.withNodes g) p := by
  intro n hn
  rw [withNodes_node]
  rcases hg n with hsame | ⟨_, thrown, hthrown⟩
  · rw [hsame]
    exact hbefore n hn
  · rw [hthrown]
    exact hafter n hn thrown

theorem Cleanable.mapNodes {s : Status} (h : Cleanable K s)
    {u : Node → NodeStatus → NodeStatus}
    (hu : ∀ n ns, (u n ns).session = ns.session ∧ (u n ns).os = ns.os ∧
      (u n ns).client = ns.client ∧ (ns.logs = false → (u n ns).logs = false)) :
    Cleanable K (s.mapNodes K.test.nodes u) := by
  refine ⟨⟨h.begun.handle, h.begun.logging⟩, h.saved, h.interpreted, h.nemesis,
    every_mapNodes ?_, every_mapNodes ?_, every_mapNodes ?_⟩
  · intro n hn
    rcases hu n (s.node n) with ⟨hsession, hos, _, _⟩
    rw [NodeStatus.Live, hsession, hos]
    exact h.live n hn
  · intro n hn
    exact (hu n (s.node n)).2.2.2 (h.logs n hn)
  · intro n hn
    rw [(hu n (s.node n)).2.2.1]
    exact h.clients n hn

/-- The databases are torn down, on every node. -/
theorem moves_tearDownDb :
    K.Moves (Cleanable K) (tearDownDb K.test)
      (fun _ s => Cleanable K s ∧ Every K.test s (·.db = .torn true))
      (fun _ => Cleanable K) := by
  refine moves_of_each fun s h => ?_
  have hphase := moves_onNodes (s := s) K.test.nodup (takes_teardownDb (K := K)) (by
    intro n _ g _ hg
    refine ⟨every_during hg h.live fun m hm _ => h.live m hm, ?_, ?_⟩
    · exact fun habsurd => absurd h.interpreted habsurd
    · exact fun habsurd => absurd h.interpreted habsurd)
  apply hphase.weaken
  · intro s' hs'
    exact hs'
  · rintro _ s' rfl
    exact ⟨h.mapNodes fun _ _ => ⟨rfl, rfl, rfl, id⟩, every_mapNodes fun _ _ => rfl⟩
  · rintro e s' ⟨thrown, rfl⟩
    exact h.mapNodes fun _ _ => ⟨rfl, rfl, rfl, id⟩

/-- All databases are set up, but for the primary. -/
theorem moves_setupNodes :
    K.Moves (fun s => Cleanable K s ∧ Every K.test s (·.db = .torn true))
      (onNodes K.test.nodes fun n => call (.on n .setupDb) (onMachine n (K.test.db.setup n)))
      (fun _ s => Cleanable K s ∧ Every K.test s (·.db = .setUp true))
      (fun _ => Cleanable K) := by
  refine moves_of_each fun s hs => ?_
  rcases hs with ⟨h, hdb⟩
  have hphase := moves_onNodes (s := s) K.test.nodup (takes_setupDb (K := K)) (by
    intro n hn g hsame hg
    refine ⟨h.interpreted, every_during hg h.live fun m hm _ => h.live m hm, ?_, ?_, ?_⟩
    · -- the others are torn down, or set up after that
      refine every_during (p := fun ns => ns.db ≠ .untouched ∧ ns.db ≠ .torn false) hg ?_ ?_
      · intro m hm
        rw [hdb m hm]
        exact ⟨Stage.noConfusion, fun habsurd => by cases habsurd⟩
      · intro m hm thrown
        exact ⟨Stage.noConfusion, Stage.noConfusion⟩
    · rw [withNodes_node, hsame]
      exact hdb n hn
    · rw [withNodes_node, hsame]
      exact h.logs n hn)
  apply hphase.weaken
  · intro s' hs'
    exact hs'
  · rintro _ s' rfl
    exact ⟨h.mapNodes fun _ _ => ⟨rfl, rfl, rfl, fun _ => rfl⟩, every_mapNodes fun _ _ => rfl⟩
  · rintro e s' ⟨thrown, rfl⟩
    exact h.mapNodes fun _ _ => ⟨rfl, rfl, rfl, fun _ => rfl⟩

/-- With the databases set up, and the primary, the generator can be run. -/
theorem Cleanable.running {s : Status} (h : Cleanable K s)
    (hdb : Every K.test s (·.db = .setUp true))
    (hprimary : K.test.db.setupPrimary.isSome = true → ∀ n, K.test.nodes.head? = some n →
      (s.node n).primary = true) (hhandle : s.handle = true) : Ready K s where
  begun := h.begun
  saved := h.saved
  interpreted := h.interpreted
  running := {
    handle := hhandle
    saved := fun hnamed => Nat.le_of_eq (h.saved hnamed).symm
    live := h.live
    db := fun n hn => ⟨hdb n hn, h.logs n hn⟩
    primary := hprimary }
  nemesis := h.nemesis
  clients := h.clients

/-- What is done to some of the nodes is done to all of them, or not. -/
theorem mapNodes_of_subset {s : Status} {first nodes : List Node} (h : ∀ n ∈ first, n ∈ nodes)
    (u : Node → NodeStatus → NodeStatus) :
    s.mapNodes first u = s.mapNodes nodes fun n ns => if n ∈ first then u n ns else ns := by
  refine congrArg s.withNodes (funext fun n => ?_)
  dsimp only
  by_cases hn : n ∈ first
  · rw [if_pos hn, if_pos (h n hn)]
  · rw [if_neg hn, ite_self]

/-- The primary is the first node, which is set up already. -/
theorem moves_setupPrimary {x : Node → Script (Remote ν) Throwable Unit}
    (hx : K.test.db.setupPrimary = some x) :
    K.Moves (fun s => Cleanable K s ∧ Every K.test s (·.db = .setUp true))
      (onNodes K.test.nodes.head?.toList fun n => call (.on n .setupPrimary) (onMachine n (x n)))
      (fun _ => Ready K) (fun _ => Cleanable K) := by
  refine moves_of_each fun s hs => ?_
  rcases hs with ⟨h, hdb⟩
  have hhead : ∀ n ∈ K.test.nodes.head?.toList, K.test.nodes.head? = some n :=
    fun n hn => Option.mem_toList.mp hn
  have hnodup : K.test.nodes.head?.toList.Nodup := by
    cases K.test.nodes.head? with
    | none => exact List.nodup_nil
    | some n => exact List.nodup_singleton n
  have hphase := moves_onNodes (s := s) hnodup (takes_setupPrimary hx) (by
    intro n hn g hsame hg
    -- there is one node, and it has not been called
    have hall : ∀ m, g m = s.node m := by
      intro m
      rcases hg m with hm | ⟨hm, _⟩
      · exact hm
      · have heq : m = n := Option.some.inj ((hhead m hm).symm.trans (hhead n hn))
        rw [heq]
        exact hsame
    have hg' : s.withNodes g = s := by
      rw [funext hall]
      rfl
    rw [hg']
    exact ⟨h.interpreted, h.live, fun m hm => ⟨hdb m hm, h.logs m hm⟩, hhead n hn⟩)
  have hkept : ∀ thrown : Node → Option Throwable,
      Cleanable K (s.mapNodes K.test.nodes.head?.toList
        fun n ns => NodeCall.setupPrimary.after (thrown n) ns) := by
    intro thrown
    rw [mapNodes_of_subset fun n hn => List.mem_of_mem_head? (hhead n hn)]
    refine h.mapNodes fun n ns => ?_
    split
    · exact ⟨rfl, rfl, rfl, id⟩
    · exact ⟨rfl, rfl, rfl, id⟩
  apply hphase.weaken
  · intro s' hs'
    exact hs'
  · rintro _ s' rfl
    refine (hkept fun _ => none).running ?_ ?_ h.begun.handle
    · intro n hn
      by_cases hfirst : n ∈ K.test.nodes.head?.toList
      · rw [mapNodes_of_mem s hfirst]
        rfl
      · show (if n ∈ K.test.nodes.head?.toList then _ else s.node n).db = .setUp true
        rw [if_neg hfirst]
        exact hdb n hn
    · intro _ n hn
      rw [mapNodes_of_mem s (Option.mem_toList.mpr hn)]
      rfl
  · rintro e s' ⟨thrown, rfl⟩
    exact hkept thrown

/-- The databases are set up on all nodes, and the primary on the first. -/
theorem moves_setUpDb :
    K.Moves (fun s => Cleanable K s ∧ Every K.test s (·.db = .torn true)) (setUpDb K.test)
      (fun _ => Ready K) (fun _ => Cleanable K) := by
  rw [setUpDb]
  refine moves_setupNodes.bind fun _ => ?_
  split
  · next x hx => exact moves_setupPrimary hx
  · next hnone =>
      refine moves_pure () fun s hs => ?_
      refine hs.1.running hs.2 ?_ hs.1.begun.handle
      intro habsurd
      rw [hnone] at habsurd
      cases habsurd

/-- Every try tears the databases of all nodes down before it sets them up. -/
theorem moves_cycle (more : ℕ) :
    K.Moves (Cleanable K) (cycle K.test more) (fun _ => Ready K) (fun _ => Cleanable K) := by
  induction more with
  | zero => exact moves_tearDownDb.bind fun _ => moves_setUpDb
  | succ more ih =>
      refine moves_tearDownDb.bind fun _ => moves_setUpDb.attempt.bind fun outcome => ?_
      split
      · exact ih
      · exact moves_deliver _ fun s hs => hs

/-! ## Logs -/

/-- Only the logs have been asked for. -/
def LogsMoved (s s' : Status) : Prop :=
  ∃ g, s' = s.withNodes g ∧ ∀ n, ∃ logs, g n = { s.node n with logs := logs }

/-- To ask for logs is to stay idle. -/
theorem Idle.logsMoved {s s' : Status} (h : Idle K s) (hmoved : LogsMoved s s') : Idle K s' := by
  rcases hmoved with ⟨g, rfl, hg⟩
  refine ⟨⟨h.begun.handle, h.begun.logging⟩, ?_, ?_⟩
  · intro n hn
    rcases hg n with ⟨logs, hlogs⟩
    rw [withNodes_node, hlogs]
    exact h.live n hn
  · intro hinterpreted
    rcases h.quiet hinterpreted with ⟨hnemesis, hclients⟩
    refine ⟨hnemesis, ?_⟩
    intro n hn
    rcases hg n with ⟨logs, hlogs⟩
    rw [withNodes_node, hlogs]
    exact hclients n hn

/-- The logs of every node are asked for, whatever comes of it. -/
theorem moves_snarfLogs {s : Status} (h : Idle K s) :
    K.Moves (· = s) (snarfLogs K.test)
      (fun _ s' => LogsMoved s s' ∧ Logged K.test s')
      (fun _ s' => LogsMoved s s' ∧ Logged K.test s') := by
  rw [snarfLogs]
  apply Moves.ensuring_always (M := fun s' => LogsMoved s s' ∧ Logged K.test s')
  · split
    · next logFiles hlogFiles =>
        -- the logs of a node were asked for, even where that failed
        have hasked : ∀ thrown : Node → Option Throwable,
            LogsMoved s (s.mapNodes K.test.nodes
              fun n ns => NodeCall.snarfLogs.after (thrown n) ns) ∧
            Logged K.test (s.mapNodes K.test.nodes
              fun n ns => NodeCall.snarfLogs.after (thrown n) ns) := by
          intro thrown
          refine ⟨⟨_, rfl, ?_⟩, fun _ => every_mapNodes fun _ _ => rfl⟩
          intro n
          dsimp only
          split
          · exact ⟨true, rfl⟩
          · exact ⟨(s.node n).logs, rfl⟩
        -- meanwhile the nodes are up, and no generator runs
        have hphase := moves_onNodes (K := K) (s := s) K.test.nodup
          (fun n => takes_snarfLogs n (snarfNode K.test logFiles n)) (by
          intro n _ g _ hg
          refine ⟨every_during hg h.live fun m hm _ => h.live m hm, ?_⟩
          intro hinterpreted
          rcases h.quiet hinterpreted with ⟨hnemesis, hclients⟩
          exact ⟨hnemesis, every_during hg hclients fun m hm _ => hclients m hm⟩)
        apply hphase.weaken
        · intro s' hs'
          exact hs'
        · rintro _ s' rfl
          exact hasked fun _ => none
        · rintro e s' ⟨thrown, rfl⟩
          exact hasked thrown
    -- there are no logs to be asked for
    · next hnone =>
        refine moves_pure () ?_
        rintro s' rfl
        refine ⟨⟨s'.node, rfl, fun n => ⟨(s'.node n).logs, rfl⟩⟩, ?_⟩
        intro habsurd
        rw [hnone] at habsurd
        cases habsurd
  · apply (takes_outside rfl).moves
    · rintro s' ⟨⟨g, rfl, _⟩, _⟩
      exact h.begun.handle
    · intro _ s' hs'
      exact hs'
    · intro e s' hs'
      exact hs'

/-- After the body the logs have been asked for, whatever came of it. -/
theorem moves_withLogSnarfing {body : Script (World ν) Throwable α} {P : Status → Prop}
    {Q : α → Status → Prop} (hstable : ∀ a s s', Q a s → LogsMoved s s' → Q a s')
    (hbody : K.Moves P body (fun a s => Q a s ∧ Idle K s) fun _ => Idle K) :
    K.Moves P (withLogSnarfing K.test body) (fun a s => Q a s ∧ Idle K s ∧ Logged K.test s)
      (fun _ s => Idle K s ∧ Logged K.test s) := by
  rw [withLogSnarfing]
  have hfirst : K.Moves P
      (do
        let res ← body
        snarfLogs K.test
        return res)
      (fun a s => Q a s ∧ Idle K s ∧ Logged K.test s) (fun _ => Idle K) := by
    refine hbody.bind fun a => ?_
    apply Moves.bind (Q := fun _ s => Q a s ∧ Idle K s ∧ Logged K.test s)
    · refine moves_of_each fun s hs => ?_
      rcases hs with ⟨hQ, hidle⟩
      apply (moves_snarfLogs hidle).weaken
      · intro s' hs'
        exact hs'
      · rintro _ s' ⟨hmoved, hlogged⟩
        exact ⟨hstable a s s' hQ hmoved, hidle.logsMoved hmoved, hlogged⟩
      · rintro e s' ⟨hmoved, _⟩
        exact hidle.logsMoved hmoved
    · exact fun _ => moves_pure a fun _ hs => hs
  refine hfirst.attempt.bind fun outcome => ?_
  cases outcome with
  | ok a => exact moves_pure a fun _ hs => hs
  | error e =>
      apply Moves.bind (Q := fun _ s => Idle K s ∧ Logged K.test s)
      · rw [maybeSnarfLogs]
        refine moves_of_each fun s hidle => ?_
        apply (moves_snarfLogs hidle).attempt.bind
        refine fun outcome => moves_pure () fun s' hs' => ?_
        rcases post_const.mp hs' with ⟨hmoved, hlogged⟩
        exact ⟨Idle.logsMoved hidle hmoved, hlogged⟩
      · exact fun _ => moves_throw e fun _ hs => hs

/-! ## Around the generator -/

/-- A save of a test that has a name, and nothing for one that has none. -/
theorem moves_saveNamed {phase : ℕ} {P Q : Status → Prop} {E : Throwable → Status → Prop}
    (hallowed : ∀ s, P s → K.test.named = true → (Call.save phase).Allowed K.test s)
    (hnamed : ∀ s, P s → K.test.named = true → Q { s with saved := phase + 1 })
    (hunnamed : ∀ s, P s → K.test.named = false → Q s) (hE : ∀ e s, P s → E e s) :
    K.Moves P (saveNamed K.test phase) (fun _ => Q) E := by
  rw [saveNamed]
  split
  · next h =>
      apply (takes_outside rfl).moves
      · intro s hs
        exact hallowed s hs h
      · intro _ s hs
        exact hnamed s hs h
      · intro e s hs
        exact hE e s hs
  · next h => exact moves_pure () fun s hs => hunnamed s hs (Bool.eq_false_iff.mpr h)

/-- The history is there and saved. -/
structure Recorded (K : Contract ν) (s : Status) : Prop where
  saved : Saved K 2 s
  interpreted : s.interpreted = some true

def caseAndSave (K : Contract ν) (history : List (Operation Payload)) :
    Script (World ν) Throwable (List (Operation Payload)) := do
  let history ← runCase K.test history
  saveNamed K.test 1
  return history

/-- The generator is run, its history saved, and the test is idle then. -/
theorem moves_caseAndSave (history : List (Operation Payload)) :
    K.Moves (Ready K) (caseAndSave K history)
      (fun a s => (a = history ∧ Recorded K s) ∧ Idle K s) (fun _ => Idle K) := by
  rw [caseAndSave]
  refine (moves_runCase history).bind fun a => ?_
  apply Moves.bind (Q := fun _ s => (a = history ∧ Recorded K s) ∧ Idle K s)
  · apply moves_saveNamed
    · rintro s ⟨_, hidle, hsaved, hinterpreted⟩ hnamed
      exact ⟨hidle.begun.handle, hsaved hnamed, hinterpreted, hidle.quiet⟩
    · rintro s ⟨ha, hidle, _, hinterpreted⟩ _
      exact ⟨⟨ha, fun _ => rfl, hinterpreted⟩,
        ⟨hidle.begun.handle, hidle.begun.logging⟩, hidle.live, hidle.quiet⟩
    · rintro s ⟨ha, hidle, _, hinterpreted⟩ hunnamed
      refine ⟨⟨ha, ?_, hinterpreted⟩, hidle⟩
      intro hnamed
      rw [hunnamed] at hnamed
      cases hnamed
    · rintro e s ⟨_, hidle, _, _⟩
      exact hidle
  · exact fun _ => moves_pure a fun _ hs => hs

theorem Cleanable.idle {s : Status} (h : Cleanable K s) : Idle K s :=
  ⟨h.begun, h.live, fun habsurd => absurd h.interpreted habsurd⟩

/-- The databases are torn down in the end, once their logs have been asked for. -/
theorem moves_finalTearDown {s : Status} (hidle : Idle K s) (hlogged : Logged K.test s) :
    K.Moves (· = s) (tearDownDb K.test)
      (fun _ s' => (∃ g, s' = s.withNodes g) ∧ Idle K s' ∧ Logged K.test s' ∧
        Every K.test s' (·.db = .torn true))
      (fun _ s' => Idle K s' ∧ Logged K.test s' ∧ Every K.test s' (·.db.isSetUp = false)) := by
  have htorn : ∀ thrown : Node → Option Throwable,
      Idle K (s.mapNodes K.test.nodes fun n ns => NodeCall.teardownDb.after (thrown n) ns) ∧
        Logged K.test
          (s.mapNodes K.test.nodes fun n ns => NodeCall.teardownDb.after (thrown n) ns) := by
    intro thrown
    refine ⟨⟨⟨hidle.begun.handle, hidle.begun.logging⟩, ?_, ?_⟩, ?_⟩
    · exact every_mapNodes fun n hn => hidle.live n hn
    · intro hinterpreted
      rcases hidle.quiet hinterpreted with ⟨hnemesis, hclients⟩
      exact ⟨hnemesis, every_mapNodes fun n hn => hclients n hn⟩
    · intro hfiles
      exact every_mapNodes fun n hn => hlogged hfiles n hn
  have hphase := moves_onNodes (s := s) K.test.nodup (takes_teardownDb (K := K)) (by
    intro n _ g _ hg
    refine ⟨every_during hg hidle.live fun m hm _ => hidle.live m hm, ?_, ?_⟩
    · intro hinterpreted
      rcases hidle.quiet hinterpreted with ⟨hnemesis, hclients⟩
      exact ⟨hnemesis, every_during hg hclients fun m hm _ => hclients m hm⟩
    · intro _ hfiles
      exact every_during hg (hlogged hfiles) fun m hm _ => hlogged hfiles m hm)
  apply hphase.weaken
  · intro s' hs'
    exact hs'
  · rintro _ s' rfl
    rcases htorn fun _ => none with ⟨hidle', hlogged'⟩
    exact ⟨⟨_, rfl⟩, hidle', hlogged', every_mapNodes fun _ _ => rfl⟩
  · rintro e s' ⟨thrown, rfl⟩
    rcases htorn thrown with ⟨hidle', hlogged'⟩
    exact ⟨hidle', hlogged', every_mapNodes fun _ _ => rfl⟩

theorem every_not_isSetUp {s : Status} (h : Every K.test s (·.db = .torn true)) :
    Every K.test s (·.db.isSetUp = false) := by
  intro n hn
  show (s.node n).db.isSetUp = false
  rw [h n hn]
  rfl

/-- The body has its databases, and their logs are asked for and they are torn down whatever came
of it. -/
theorem moves_withDb (history : List (Operation Payload)) :
    K.Moves (Cleanable K) (withDb K.test (caseAndSave K history))
      (fun a s => (a = history ∧ Recorded K s) ∧ Idle K s ∧ Logged K.test s ∧
        (K.test.leaveDbRunning = true ∨ Every K.test s (·.db = .torn true)))
      (fun _ s => Idle K s ∧ Logged K.test s ∧ DbDown K.test s) := by
  rw [withDb]
  -- the database is brought up within its tries, and the test runs on it
  have hinner : K.Moves (Cleanable K)
      (do
        cycle K.test (cycleTries - 1)
        caseAndSave K history)
      (fun a s => (a = history ∧ Recorded K s) ∧ Idle K s) (fun _ => Idle K) := by
    apply Moves.bind (Q := fun _ => Ready K)
    · exact (moves_cycle _).weaken (fun _ hs => hs) (fun _ _ hs => hs) fun _ _ hs => hs.idle
    · exact fun _ => moves_caseAndSave history
  have hsnarfed := moves_withLogSnarfing (K := K)
    (Q := fun a s => a = history ∧ Recorded K s) (by
      rintro a s s' ⟨ha, hrecorded⟩ ⟨g, rfl, _⟩
      exact ⟨ha, hrecorded.saved, hrecorded.interpreted⟩) hinner
  refine hsnarfed.ensuring fun outcome => ?_
  split
  -- it is left running, whatever came of the test
  · next hleave =>
      refine moves_pure () fun s hs => ?_
      cases outcome with
      | ok a => exact ⟨hs.1, hs.2.1, hs.2.2, .inl hleave⟩
      | error e => exact ⟨hs.1, hs.2, .inl hleave⟩
  -- or it is torn down, after the logs
  · refine moves_of_each fun s hs => ?_
    cases outcome with
    | ok a =>
        rcases hs with ⟨⟨ha, hrecorded⟩, hidle, hlogged⟩
        apply (moves_finalTearDown hidle hlogged).weaken
        · intro s' hs'
          exact hs'
        · rintro _ s' ⟨⟨g, rfl⟩, hidle', hlogged', hdb⟩
          exact ⟨⟨ha, hrecorded.saved, hrecorded.interpreted⟩, hidle', hlogged', .inr hdb⟩
        · rintro e s' ⟨hidle', hlogged', hdb⟩
          exact ⟨hidle', hlogged', .inr hdb⟩
    | error e =>
        rcases hs with ⟨hidle, hlogged⟩
        apply (moves_finalTearDown hidle hlogged).weaken
        · intro s' hs'
          exact hs'
        · rintro _ s' ⟨_, hidle', hlogged', hdb⟩
          exact ⟨hidle', hlogged', .inr (every_not_isSetUp hdb)⟩
        · rintro e' s' ⟨hidle', hlogged', hdb⟩
          exact ⟨hidle', hlogged', .inr hdb⟩

end Contract

end Lifecycle

end Jepsen

end OmnipaxosKv
