import OmnipaxosKv.Jepsen.Teardown

/-! # Operating systems, the check and sessions

What `run!` has around the database, up to the sessions.
-/

namespace OmnipaxosKv

namespace Jepsen

namespace Lifecycle

open Script

namespace Contract

variable {ν α : Type} {K : Contract ν}

/-! ## Operating systems -/

/-- The sessions are open, and nothing else has been done to the nodes. -/
structure Connected (K : Contract ν) (s : Status) : Prop where
  begun : Begun s
  saved : Saved K 1 s
  interpreted : s.interpreted = none
  nemesis : s.nemesis = .untouched
  nodes : Every K.test s (· = { session := .open })

/-- All is down but the sessions; the logs of every database that was touched have been asked
for. -/
structure Down (K : Contract ν) (s : Status) : Prop where
  begun : Begun s
  quiet : Quiet K.test s
  logs : K.test.db.logFiles.isSome = true →
    Every K.test s fun ns => ns.db ≠ .untouched → ns.logs = true
  db : DbDown K.test s
  os : Every K.test s (·.os.isSetUp = false)

/-- What `with-os` has around it while the operating systems are there. -/
structure Undone (K : Contract ν) (s : Status) : Prop where
  begun : Begun s
  sessions : Every K.test s (·.session = .open)
  quiet : Quiet K.test s
  logs : K.test.db.logFiles.isSome = true →
    Every K.test s fun ns => ns.db ≠ .untouched → ns.logs = true
  db : DbDown K.test s

theorem undone_of_idle {s : Status} (hidle : Idle K s) (hlogged : Logged K.test s)
    (hdb : DbDown K.test s) : Undone K s :=
  ⟨hidle.begun, fun n hn => (hidle.live n hn).1, hidle.quiet,
    fun hfiles n hn _ => hlogged hfiles n hn, hdb⟩

/-- The operating systems are torn down once the databases are. -/
theorem moves_teardownOs {s : Status} (h : Undone K s) :
    K.Moves (· = s) (onNodes K.test.nodes fun n => call (.on n .teardownOs) outside)
      (fun _ s' => (Down K s' ∧ Every K.test s' (·.session = .open)) ∧
        s' = s.mapNodes K.test.nodes fun _ ns => { ns with os := .torn true })
      (fun _ s' => Down K s' ∧ Every K.test s' (·.session = .open)) := by
  have hdown : ∀ thrown : Node → Option Throwable,
      Down K (s.mapNodes K.test.nodes fun n ns => NodeCall.teardownOs.after (thrown n) ns) ∧
        Every K.test (s.mapNodes K.test.nodes
          fun n ns => NodeCall.teardownOs.after (thrown n) ns) (·.session = .open) := by
    intro thrown
    refine ⟨⟨⟨h.begun.handle, h.begun.logging⟩, ?_, ?_, ?_, ?_⟩, ?_⟩
    · intro hinterpreted
      rcases h.quiet hinterpreted with ⟨hnemesis, hclients⟩
      exact ⟨hnemesis, every_mapNodes fun n hn => hclients n hn⟩
    · exact fun hfiles => every_mapNodes fun n hn => h.logs hfiles n hn
    · exact h.db.imp id fun hdb => every_mapNodes fun n hn => hdb n hn
    · exact every_mapNodes fun n _ => rfl
    · exact every_mapNodes fun n hn => h.sessions n hn
  have hphase := moves_onNodes (K := K) (s := s) (c := .teardownOs) K.test.nodup
    (fun n => takes_outside rfl) (by
      intro n hn g hsame hg
      refine ⟨?_, h.db.imp id fun hdb => every_during hg hdb fun m hm _ => hdb m hm⟩
      rw [withNodes_node, hsame]
      exact h.sessions n hn)
  apply hphase.weaken
  · intro s' hs'
    exact hs'
  · rintro _ s' rfl
    exact ⟨hdown fun _ => none, rfl⟩
  · rintro e s' ⟨thrown, rfl⟩
    exact hdown thrown

/-- The operating systems are set up on all nodes. -/
theorem moves_setupOs :
    K.Moves (Connected K) (onNodes K.test.nodes fun n => call (.on n .setupOs) outside)
      (fun _ => Cleanable K) (fun _ => Undone K) := by
  refine moves_of_each fun s h => ?_
  have hphase := moves_onNodes (K := K) (s := s) (c := .setupOs) K.test.nodup
    (fun n => takes_outside rfl) (by
      intro n hn g hsame hg
      have hopen : ∀ m ∈ K.test.nodes, (s.node m).session = .open := by
        intro m hm
        rw [h.nodes m hm]
      refine ⟨every_during hg hopen fun m hm _ => hopen m hm, ?_⟩
      rw [withNodes_node, hsame, h.nodes n hn])
  apply hphase.weaken
  · intro s' hs'
    exact hs'
  · rintro _ s' rfl
    refine ⟨⟨h.begun.handle, h.begun.logging⟩, h.saved, h.interpreted, h.nemesis, ?_, ?_, ?_⟩
    · refine every_mapNodes fun n hn => ?_
      rw [h.nodes n hn]
      exact ⟨rfl, rfl⟩
    · refine every_mapNodes fun n hn => ?_
      rw [h.nodes n hn]
      rfl
    · refine every_mapNodes fun n hn => ?_
      rw [h.nodes n hn]
      rfl
  · rintro e s' ⟨thrown, rfl⟩
    refine ⟨⟨h.begun.handle, h.begun.logging⟩, ?_, fun habsurd => absurd h.interpreted habsurd,
      fun _ => ?_, .inr ?_⟩
    · refine every_mapNodes fun n hn => ?_
      rw [h.nodes n hn]
      rfl
    · refine every_mapNodes fun n hn => ?_
      rw [h.nodes n hn]
      exact fun habsurd => absurd rfl habsurd
    · refine every_mapNodes fun n hn => ?_
      rw [h.nodes n hn]
      rfl

/-- Everything that a check asks for, the sessions being open still. -/
structure Checkable (K : Contract ν) (s : Status) : Prop where
  recorded : Recorded K s
  logged : Logged K.test s
  os : Every K.test s (·.os = .torn true)
  db : K.test.leaveDbRunning = true ∨ Every K.test s (·.db = .torn true)

/-- The test runs with its operating systems, and they are torn down whatever came of it. -/
theorem moves_withOs (history : List (Operation Payload)) :
    K.Moves (Connected K) (withOs K.test (withDb K.test (caseAndSave K history)))
      (fun a s => a = history ∧ Checkable K s ∧ Down K s ∧ Every K.test s (·.session = .open))
      (fun _ s => Down K s ∧ Every K.test s (·.session = .open)) := by
  rw [withOs]
  have hbody : K.Moves (Connected K)
      (do
        onNodes K.test.nodes fun n => call (.on n .setupOs) outside
        withDb K.test (caseAndSave K history))
      (fun a s => (a = history ∧ Recorded K s ∧ Logged K.test s ∧
        (K.test.leaveDbRunning = true ∨ Every K.test s (·.db = .torn true))) ∧ Undone K s)
      (fun _ => Undone K) := by
    refine moves_setupOs.bind fun _ => ?_
    apply (moves_withDb history).weaken
    · intro s hs
      exact hs
    · rintro a s ⟨⟨ha, hrecorded⟩, hidle, hlogged, hdb⟩
      exact ⟨⟨ha, hrecorded, hlogged, hdb⟩,
        undone_of_idle hidle hlogged (hdb.imp id every_not_isSetUp)⟩
    · rintro e s ⟨hidle, hlogged, hdb⟩
      exact undone_of_idle hidle hlogged hdb
  refine hbody.ensuring fun outcome => moves_of_each fun s hs => ?_
  cases outcome with
  | ok a =>
      rcases hs with ⟨⟨ha, hrecorded, hlogged, hdb⟩, hundone⟩
      apply (moves_teardownOs hundone).weaken
      · intro s' hs'
        exact hs'
      · rintro _ s' ⟨hdown, rfl⟩
        refine ⟨ha, ⟨⟨hrecorded.saved, hrecorded.interpreted⟩, ?_, ?_, ?_⟩, hdown⟩
        · exact fun hfiles => every_mapNodes fun n hn => hlogged hfiles n hn
        · exact every_mapNodes fun n _ => rfl
        · exact hdb.imp id fun hall => every_mapNodes fun n hn => hall n hn
      · intro e s' hs'
        exact hs'
  | error e =>
      apply (moves_teardownOs hs).weaken
      · intro s' hs'
        exact hs'
      · rintro _ s' ⟨hdown, _⟩
        exact hdown
      · intro e' s' hs'
        exact hs'

/-! ## The check -/

/-- The history has been checked, and the results are saved. -/
structure Analyzed (K : Contract ν) (s : Status) : Prop where
  checked : s.checked = true
  saved : Saved K 3 s
  interpreted : s.interpreted = some true

/-- The history is checked, and the results are saved. -/
theorem moves_analyzeTest (history : List (Operation Payload)) :
    K.Moves (fun s => Checkable K s ∧ Down K s ∧ Every K.test s (·.session = .open))
      (analyzeTest K.test history)
      (fun v s => (results (analyze K.test.analysis K.test.spit history) = .ok v ∧
        Analyzed K s) ∧ Down K s ∧ Every K.test s (·.session = .open))
      (fun _ s => Down K s ∧ Every K.test s (·.session = .open)) := by
  rw [analyzeTest]
  apply Moves.bind (Q := fun v s => results (analyze K.test.analysis K.test.spit history) = .ok v ∧
    Recorded K s ∧ s.checked = true ∧ Down K s ∧ Every K.test s (·.session = .open))
  · refine Moves.value ?_ (triple_call_deliver _)
    apply (takes_deliver rfl (by intro habsurd; cases habsurd) _).moves
    · rintro s ⟨hcheckable, _, _⟩
      exact ⟨hcheckable.recorded.interpreted, hcheckable.recorded.saved, hcheckable.logged,
        hcheckable.os, hcheckable.db⟩
    · rintro v s ⟨hcheckable, hdown, hsessions⟩
      exact ⟨⟨hcheckable.recorded.saved, hcheckable.recorded.interpreted⟩, rfl,
        ⟨⟨hdown.begun.handle, hdown.begun.logging⟩, hdown.quiet, hdown.logs, hdown.db, hdown.os⟩,
        hsessions⟩
    · rintro e s ⟨_, hdown, hsessions⟩
      exact ⟨⟨⟨hdown.begun.handle, hdown.begun.logging⟩, hdown.quiet, hdown.logs, hdown.db,
        hdown.os⟩, hsessions⟩
  · intro v
    apply Moves.bind (Q := fun _ s =>
      (results (analyze K.test.analysis K.test.spit history) = .ok v ∧ Analyzed K s) ∧
        Down K s ∧ Every K.test s (·.session = .open))
    · apply moves_saveNamed
      · rintro s ⟨_, hrecorded, hchecked, hdown, _⟩ hnamed
        exact ⟨hdown.begun.handle, hrecorded.saved hnamed, hchecked⟩
      · rintro s ⟨hv, hrecorded, hchecked, hdown, hsessions⟩ _
        exact ⟨⟨hv, hchecked, fun _ => rfl, hrecorded.interpreted⟩,
          ⟨⟨hdown.begun.handle, hdown.begun.logging⟩, hdown.quiet, hdown.logs, hdown.db,
            hdown.os⟩, hsessions⟩
      · rintro s ⟨hv, hrecorded, hchecked, hdown, hsessions⟩ hunnamed
        refine ⟨⟨hv, hchecked, ?_, hrecorded.interpreted⟩, hdown, hsessions⟩
        intro hnamed
        rw [hunnamed] at hnamed
        cases hnamed
      · rintro e s ⟨_, _, _, hdown, hsessions⟩
        exact ⟨hdown, hsessions⟩
    · exact fun _ => moves_pure v fun _ hs => hs

/-! ## Sessions -/

/-- The sessions are closed, on every node. -/
theorem moves_disconnect {nodes : List Node} (hnodup : nodes.Nodup) {s : Status}
    (h : ∀ n ∈ nodes, (s.node n).session = .open ∧ (s.node n).os.isSetUp = false) :
    K.Moves (· = s) (realPmap (fun n => fcatch (call (.on n .disconnect) outside)) nodes)
      (fun _ s' => s' = s.mapNodes nodes fun _ ns => { ns with session := .closed })
      (fun _ s' => s' = s.mapNodes nodes fun _ ns => { ns with session := .closed }) := by
  have hphase := moves_realPmap (K := K) hnodup (s := s)
    (f := fun n => fcatch (call (.on n .disconnect) outside))
    (fun n _ ns => ns = { s.node n with session := .closed }) (by
    intro n hn g hg _
    -- whatever a disconnect throws, the session is closed
    have hcall : K.Moves (· = s.withNodes g) (call (.on n .disconnect) outside)
        (fun _ s' => ∃ ns, s' = s.withNodes (Function.update g n ns) ∧
          ns = { s.node n with session := .closed })
        (fun _ s' => ∃ ns, s' = s.withNodes (Function.update g n ns) ∧
          ns = { s.node n with session := .closed }) := by
      apply (takes_outside rfl).moves
      · rintro s' rfl
        show (g n).session = .open ∧ (g n).os.isSetUp = false
        rw [hg]
        exact h n hn
      · rintro _ s' rfl
        exact ⟨_, after_withNodes none s g, by rw [hg]; rfl⟩
      · rintro e s' rfl
        exact ⟨_, after_withNodes (some e) s g, by rw [hg]; rfl⟩
    apply (moves_fcatch hcall).weaken
    · intro s' hs'
      exact hs'
    · intro o s' hs'
      cases o with
      | ok _ => exact hs'
      | error e => exact hs'
    · rintro e s' ⟨_, hs'⟩
      exact hs')
  -- so in the end all are
  have hset : ∀ g : Node → NodeStatus, (∀ n ∉ nodes, g n = s.node n) →
      (∀ n ∈ nodes, g n = { s.node n with session := .closed }) →
      s.withNodes g = s.mapNodes nodes fun _ ns => { ns with session := .closed } := by
    intro g hothers hall
    refine congrArg s.withNodes (funext fun n => ?_)
    by_cases hn : n ∈ nodes
    · rw [if_pos hn]
      exact hall n hn
    · rw [if_neg hn]
      exact hothers n hn
  apply hphase.weaken
  · intro s' hs'
    exact hs'
  · rintro bs s' ⟨hlength, g, rfl, hothers, hdone⟩
    refine hset g hothers fun n hn => ?_
    rcases mem_zip_of_mem hlength hn with ⟨b, hb⟩
    exact hdone _ hb
  · rintro e s' ⟨g, rfl, hothers, hall, _⟩
    exact hset g hothers fun n hn => (hall n hn).elim fun _ h => h

/-- The log and the file of the test are open, and nothing has been done to the nodes. -/
structure Untouched (K : Contract ν) (s : Status) : Prop where
  begun : Begun s
  interpreted : s.interpreted = none
  nemesis : s.nemesis = .untouched
  nodes : Every K.test s (· = {})

/-- Of the session that is opened. -/
def sessionOf : Except Throwable (Except Throwable Unit) → Session
  | .ok (.ok _) => .open
  | .ok (.error e) => .failed e
  | .error e => .failed e

/-- A session is opened on each node, or it is not. -/
theorem moves_connect {s : Status} (h : Untouched K s) :
    K.Moves (· = s) (realPmap (fun n => fcatch (call (.on n .connect) outside)) K.test.nodes)
      (fun sym s' => sym.length = K.test.nodes.length ∧ ∃ g, s' = s.withNodes g ∧
        ∀ p ∈ K.test.nodes.zip sym, g p.1 = { session := sessionOf (.ok p.2) })
      (fun _ s' => (∃ g, s' = s.withNodes g ∧
          ∀ n ∈ K.test.nodes, ∃ session, g n = { session := session }) ∧
        ∃ n ∈ K.test.nodes, (s'.node n).session = .failed .error) := by
  have hphase := moves_realPmap (K := K) K.test.nodup (s := s)
    (f := fun n => fcatch (call (.on n .connect) outside))
    (fun n o ns => ns = { session := sessionOf o } ∧ ∀ e, o = .error e → e = .error) (by
    intro n hn g hg _
    have hfresh : g n = {} := hg.trans (h.nodes n hn)
    -- a session is open, or it failed with what was thrown
    have hcall : K.Moves (· = s.withNodes g) (call (.on n .connect) outside)
        (fun _ s' => s' = s.withNodes (Function.update g n { session := .open }))
        (fun e s' => s' = s.withNodes (Function.update g n { session := .failed e })) := by
      apply (takes_outside rfl).moves
      · rintro s' rfl
        refine ⟨h.begun.handle, ?_⟩
        rw [withNodes_node, hfresh]
      · rintro _ s' rfl
        rw [after_withNodes, hfresh]
        rfl
      · rintro e s' rfl
        rw [after_withNodes, hfresh]
        rfl
    apply (moves_fcatch hcall).weaken
    · intro s' hs'
      exact hs'
    · intro o s' hs'
      cases o with
      | ok _ => exact ⟨_, hs', rfl, fun _ habsurd => by cases habsurd⟩
      | error e => exact ⟨_, hs', rfl, fun _ habsurd => by cases habsurd⟩
    -- `fcatch` lets errors through, and nothing else
    · rintro e s' ⟨he, hs'⟩
      refine ⟨_, hs', ?_, ?_⟩
      · rw [he]
        rfl
      · intro e' heq
        rw [← Except.error.inj heq]
        exact he)
  apply hphase.weaken
  · intro s' hs'
    exact hs'
  · rintro sym s' ⟨hlength, g, hs', _, hdone⟩
    exact ⟨hlength, g, hs', fun p hp => (hdone p hp).1⟩
  · rintro e s' ⟨g, hs', _, hall, n, hn, hfailed⟩
    refine ⟨⟨g, hs', ?_⟩, n, hn, ?_⟩
    · intro m hm
      rcases hall m hm with ⟨o, hR, _⟩
      exact ⟨_, hR⟩
    · rw [hs', withNodes_node, hfailed.1, hfailed.2 e rfl]
      rfl

/-- Where nothing has been done but to the sessions, everything is down. -/
theorem down_of_sessions {s s' : Status} (h : Untouched K s) {g : Node → NodeStatus}
    (hs' : s' = s.withNodes g) (hg : ∀ n ∈ K.test.nodes, ∃ session, g n = { session := session }) :
    Down K s' := by
  subst hs'
  refine ⟨⟨h.begun.handle, h.begun.logging⟩, fun habsurd => absurd h.interpreted habsurd,
    fun _ => ?_, .inr ?_, ?_⟩
  · intro n hn
    rcases hg n hn with ⟨session, hsession⟩
    rw [withNodes_node, hsession]
    exact fun habsurd => absurd rfl habsurd
  · intro n hn
    rcases hg n hn with ⟨session, hsession⟩
    rw [withNodes_node, hsession]
    rfl
  · intro n hn
    rcases hg n hn with ⟨session, hsession⟩
    rw [withNodes_node, hsession]
    rfl

/-- With the sessions closed all is down. -/
theorem Down.closed {s : Status} (h : Down K s) :
    Down K (s.mapNodes K.test.nodes fun _ ns => { ns with session := .closed }) ∧
      Disconnected K.test (s.mapNodes K.test.nodes fun _ ns => { ns with session := .closed }) := by
  refine ⟨⟨⟨h.begun.handle, h.begun.logging⟩, ?_, ?_, ?_, ?_⟩, .inl ?_⟩
  · intro hinterpreted
    rcases h.quiet hinterpreted with ⟨hnemesis, hclients⟩
    exact ⟨hnemesis, every_mapNodes fun n hn => hclients n hn⟩
  · exact fun hfiles => every_mapNodes fun n hn => h.logs hfiles n hn
  · exact h.db.imp id fun hdb => every_mapNodes fun n hn => hdb n hn
  · exact every_mapNodes fun n hn => h.os n hn
  · exact every_mapNodes fun n _ => Session.noConfusion

/-- The nodes whose session started, of which there may be none. -/
def started (nodes : List Node) (sym : List (Except Throwable Unit)) : List Node :=
  ((nodes.zip sym).filter fun p => p.2.toOption.isSome).map Prod.fst

theorem started_nodup {nodes : List Node} (h : nodes.Nodup) {sym : List (Except Throwable Unit)}
    (hlength : sym.length = nodes.length) : (started nodes sym).Nodup := by
  rw [← List.map_fst_zip (Nat.le_of_eq hlength.symm)] at h
  exact h.sublist (List.filter_sublist.map Prod.fst)

/-- The sessions that started are shut down where some did not. -/
theorem moves_shutDown {s s' : Status} (h : Untouched K s) {sym : List (Except Throwable Unit)}
    (hlength : sym.length = K.test.nodes.length) {g : Node → NodeStatus}
    (hs' : s' = s.withNodes g)
    (hg : ∀ p ∈ K.test.nodes.zip sym, g p.1 = { session := sessionOf (.ok p.2) }) :
    K.Moves (· = s')
      (realPmap (fun n => fcatch (call (.on n .disconnect) outside)) (started K.test.nodes sym))
      (fun _ s => Down K s ∧ Disconnected K.test s)
      (fun _ s => Down K s ∧ Disconnected K.test s) := by
  -- the nodes that started are those whose session is open
  have hopen : ∀ n ∈ started K.test.nodes sym, g n = { session := .open } := by
    intro n hn
    rcases List.mem_map.mp hn with ⟨p, hp, rfl⟩
    rcases List.mem_filter.mp hp with ⟨hmem, hsome⟩
    rw [hg p hmem]
    cases hout : p.2 with
    | ok _ => rfl
    | error e =>
        rw [hout] at hsome
        cases hsome
  have hafter : ∀ s'', s'' = s'.mapNodes (started K.test.nodes sym)
      (fun _ ns => { ns with session := .closed }) →
      Down K s'' ∧ Disconnected K.test s'' := by
    intro s'' hs''
    -- after that no node has an open session, whether it started or not
    have hnode : ∀ n ∈ K.test.nodes, ∃ session, session ≠ .open ∧
        (if n ∈ started K.test.nodes sym then { g n with session := .closed } else g n) =
          ({ session := session } : NodeStatus) := by
      intro n hn
      by_cases hmem : n ∈ started K.test.nodes sym
      · rw [if_pos hmem, hopen n hmem]
        exact ⟨.closed, Session.noConfusion, rfl⟩
      · rw [if_neg hmem]
        rcases mem_zip_of_mem hlength hn with ⟨o, ho⟩
        rw [hg _ ho]
        refine ⟨_, ?_, rfl⟩
        cases o with
        | ok _ =>
            exact absurd (List.mem_map.mpr ⟨_, List.mem_filter.mpr ⟨ho, rfl⟩, rfl⟩) hmem
        | error e => exact Session.noConfusion
    subst hs' hs''
    refine ⟨down_of_sessions h rfl fun n hn => ?_, .inl fun n hn => ?_⟩
    · rcases hnode n hn with ⟨session, _, heq⟩
      exact ⟨session, heq⟩
    · rcases hnode n hn with ⟨session, hne, heq⟩
      show ((if n ∈ started K.test.nodes sym then { g n with session := .closed }
        else g n) : NodeStatus).session ≠ .open
      rw [heq]
      exact hne
  apply (moves_disconnect (K := K) (started_nodup K.test.nodup hlength) (s := s') ?_).weaken
  · intro s'' hs''
    exact hs''
  · intro _ s'' hs''
    exact hafter s'' hs''
  · intro e s'' hs''
    exact hafter s'' hs''
  · intro n hn
    rw [hs', withNodes_node, hopen n hn]
    exact ⟨rfl, rfl⟩

/-- The body runs with all sessions open, and none is open afterwards. -/
theorem moves_withSessions {body : Script (World ν) Throwable α} {Q : α → Status → Prop}
    (hstable : ∀ a s g, Q a s → Q a (s.withNodes g))
    (hbody : K.Moves (Connected K) body
      (fun a s => Q a s ∧ Down K s ∧ Every K.test s (·.session = .open))
      (fun _ s => Down K s ∧ Every K.test s (·.session = .open))) :
    K.Moves (fun s => Untouched K s ∧ Saved K 1 s) (withSessions K.test body)
      (fun a s => Q a s ∧ Down K s ∧ Disconnected K.test s)
      (fun _ s => Down K s ∧ Disconnected K.test s) := by
  refine moves_of_each ?_
  rintro s ⟨h, hsaved⟩
  rw [withSessions, withResources]
  apply Moves.bind (Q := fun sym s' => sym.length = K.test.nodes.length ∧
    ∃ g, s' = s.withNodes g ∧
      ∀ p ∈ K.test.nodes.zip sym, g p.1 = { session := sessionOf (.ok p.2) })
  · apply (moves_connect h).weaken
    · intro s' hs'
      exact hs'
    · intro sym s' hs'
      exact hs'
    · rintro e s' ⟨⟨g, hs', hg⟩, hfailed⟩
      exact ⟨down_of_sessions h hs' hg, .inr hfailed⟩
  · intro sym
    refine moves_of_each ?_
    rintro s' ⟨hlength, g, hs', hg⟩
    split
    -- some of the nodes did not connect: the others are shut down, and the exception is thrown on
    · next e _ _ =>
        refine Moves.bind (Q := fun _ s => Down K s ∧ Disconnected K.test s) ?_ fun _ => ?_
        · exact moves_shutDown h hlength hs' hg
        · exact moves_throw e fun _ hdown => hdown
    · next hnone =>
        -- all of them did
        have hconnected : Connected K s' := by
          subst hs'
          refine ⟨⟨h.begun.handle, h.begun.logging⟩, hsaved, h.interpreted, h.nemesis, ?_⟩
          intro n hn
          rcases mem_zip_of_mem hlength hn with ⟨o, ho⟩
          rw [withNodes_node, hg _ ho]
          cases o with
          | ok _ => rfl
          | error e =>
              have hmem : e ∈ sym.filterMap failure :=
                List.mem_filterMap.mpr ⟨.error e, (List.of_mem_zip ho).2, rfl⟩
              rw [hnone] at hmem
              cases hmem
        -- the sessions are closed after the body, whatever came of it
        have hclose : ∀ s, Down K s → Every K.test s (·.session = .open) →
            K.Moves (· = s)
              (do let _ ← realPmap (fun n => fcatch (call (.on n .disconnect) outside))
                    K.test.nodes)
              (fun _ s' => (∃ g, s' = s.withNodes g) ∧ Down K s' ∧ Disconnected K.test s')
              (fun _ s' => Down K s' ∧ Disconnected K.test s') := by
          intro s₁ hdown hopen
          refine Moves.bind (Q := fun _ s' => (∃ g, s' = s₁.withNodes g) ∧ Down K s' ∧
            Disconnected K.test s') ?_ fun _ => moves_pure () fun _ hs => hs
          apply (moves_disconnect (K := K) K.test.nodup (s := s₁)
            fun n hn => ⟨hopen n hn, hdown.os n hn⟩).weaken
          · intro s' hs'
            exact hs'
          · rintro _ s' rfl
            exact ⟨⟨_, rfl⟩, hdown.closed⟩
          · rintro e s' rfl
            exact hdown.closed
        have hrun : K.Moves (· = s') body
            (fun a s => Q a s ∧ Down K s ∧ Every K.test s (·.session = .open))
            (fun _ s => Down K s ∧ Every K.test s (·.session = .open)) :=
          hbody.weaken (fun _ heq => heq ▸ hconnected) (fun _ _ hs => hs) fun _ _ hs => hs
        refine hrun.ensuring fun outcome => moves_of_each fun s₁ hs₁ => ?_
        cases outcome with
        | ok a =>
            apply (hclose s₁ hs₁.2.1 hs₁.2.2).weaken
            · intro s₂ hs₂
              exact hs₂
            · rintro _ s₂ ⟨⟨g', rfl⟩, hdown⟩
              exact ⟨hstable a s₁ g' hs₁.1, hdown⟩
            · intro e s₂ hs₂
              exact hs₂
        | error e =>
            apply (hclose s₁ hs₁.1 hs₁.2).weaken
            · intro s₂ hs₂
              exact hs₂
            · rintro _ s₂ ⟨_, hdown⟩
              exact hdown
            · intro e' s₂ hs₂
              exact hs₂

end Contract

end Lifecycle

end Jepsen

end OmnipaxosKv
