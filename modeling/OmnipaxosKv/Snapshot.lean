import OmnipaxosKv.Common
import OmnipaxosKv.Lib.Edits

/-! # Snapshots of the log (`KVSnapshot` in `common.rs`)

A snapshot of a chunk of the log is a map and a list of deleted keys. A snapshot
of the next chunk is merged into it as a delta. Merging is meant to agree with
replaying the log.

* `create_eq_replay`: the map of a snapshot is the replay of its chunk;
* `mem_deletedKeys_create`: a deletion is recorded only where a `delete` met no
  live put of its own chunk;
* `create_sound`: so a snapshot of the log agrees with the database;
* `merge_eq_replay_iff`: and merging agrees with replaying unless some chunk puts
  and deletes a key that an earlier chunk left in the map.
-/

namespace OmnipaxosKv

structure KVSnapshot where
  snapshotted : HashMap String String
  deletedKeys : List String
deriving DecidableEq

namespace KVSnapshot

/-- One turn of the loop in `create`. `HashMap::remove` returns what it removed,
and the key is noted as deleted only when that was nothing. -/
def createStep (s : KVSnapshot) (e : Command) : KVSnapshot :=
  match e.kvCmd with
  | .put key value => { s with snapshotted := s.snapshotted.insert key value }
  | .delete key =>
      match s.snapshotted.lookup key with
      | some _ => { s with snapshotted := s.snapshotted.erase key }
      | none => { s with
          snapshotted := s.snapshotted.erase key
          deletedKeys := s.deletedKeys ++ [key] }
  | .get _ => s

/-- The loop of `create`, before keys that were put back are removed. -/
def createLoop (entries : List Command) : KVSnapshot :=
  entries.foldl createStep ⟨∅, []⟩

def create (entries : List Command) : KVSnapshot :=
  let s := createLoop entries
  { s with deletedKeys := s.deletedKeys.filter (fun k => decide (k ∉ s.snapshotted)) }

/-- `merge`: the delta's entries are inserted, then its deleted keys removed. The
insertions are one left-biased union, see `foldl_insert_eq_union`. -/
def merge (self delta : KVSnapshot) : KVSnapshot where
  snapshotted := delta.deletedKeys.foldl (fun m k => m.erase k)
    (delta.snapshotted ∪ self.snapshotted)
  deletedKeys := []

/-- The first loop of `merge` gives the same map in every iteration order. -/
theorem foldl_insert_eq_union (m : HashMap String String) (l : List (Σ _ : String, String))
    (hl : l.NodupKeys) :
    l.foldl (fun m e => m.insert e.1 e.2) m = l.toFinmap ∪ m := by
  induction l generalizing m with
  | nil => simp
  | cons e l ih =>
      obtain ⟨hnot, hl'⟩ := List.nodupKeys_cons.mp hl
      rw [List.foldl_cons, ih _ hl']
      apply Finmap.ext_lookup
      intro k
      rw [Finmap.toFinmap_cons, ← Finmap.insert_union, lookup_insert_ite]
      by_cases hk : k = e.1
      · subst hk
        rw [Finmap.lookup_union_right, if_pos rfl, Finmap.lookup_insert]
        intro hmem
        rw [Finmap.mem_list_toFinmap] at hmem
        exact hnot (List.mem_keys.mpr hmem)
      · rw [if_neg hk]
        by_cases hmem : k ∈ l.toFinmap
        · rw [Finmap.lookup_union_left hmem, Finmap.lookup_union_left hmem]
        · rw [Finmap.lookup_union_right hmem, Finmap.lookup_union_right hmem,
            Finmap.lookup_insert_of_ne _ hk]

/-! ## What a chunk does to one key -/

/-- What a command does to key `k`: `some (some v)` puts `v`, `some none` deletes. -/
def mutation (k : String) (c : Command) : Option (Option String) :=
  match c.kvCmd with
  | .put key value => if key = k then some (some value) else none
  | .delete key => if key = k then some none else none
  | .get _ => none

/-- The puts and deletes of `k` in a chunk, in order. -/
def mutations (k : String) (ys : List Command) : List (Option String) :=
  ys.filterMap (mutation k)

/-- A deletion that comes first, or right after another deletion. -/
def BareDelete (ms : List (Option String)) : Prop :=
  ms.head? = some none ∨ [none, none] <:+: ms

instance (ms : List (Option String)) : Decidable (BareDelete ms) :=
  inferInstanceAs (Decidable (_ ∨ _))

/-- The last put or delete of `k` in the chunk is a put. -/
def Puts (k : String) (ys : List Command) : Prop :=
  ∃ v, (mutations k ys).getLast? = some (some v)

/-- The last put or delete of `k` in the chunk is a delete, and some delete of `k`
in it comes before every put of `k` or right after another delete. -/
def Clears (k : String) (ys : List Command) : Prop :=
  (mutations k ys).getLast? = some none ∧ BareDelete (mutations k ys)

/-- The last put or delete of `k` in the chunk is a delete, and every delete of
`k` in it comes right after a put of `k`. -/
def Hides (k : String) (ys : List Command) : Prop :=
  (mutations k ys).getLast? = some none ∧ ¬ BareDelete (mutations k ys)

/-- Some chunk leaves `k` in the map, a later one hides its deletion, and no chunk
after the first of the two puts or clears `k` again. -/
def HiddenDelete (k : String) (chunks : List (List Command)) : Prop :=
  ∃ pre put mid del post, chunks = pre ++ put :: (mid ++ del :: post) ∧
    Puts k put ∧ Hides k del ∧ ∀ ys ∈ mid ++ post, ¬ Puts k ys ∧ ¬ Clears k ys

/-- The mutations of a longer list are the old ones and the new one. -/
@[simp] theorem mutations_concat (k : String) (ys : List Command) (c : Command) :
    mutations k (ys ++ [c]) = mutations k ys ++ (mutation k c).toList := by
  cases h : mutation k c <;> simp [mutations, h]

/-- A chunk's next deletion is bare iff no put of the key is live in the chunk. -/
theorem bareDelete_concat (ms : List (Option String)) (m : Option String) :
    BareDelete (ms ++ [m]) ↔ BareDelete ms ∨ (m = none ∧ ms.getLast?.join = none) := by
  rcases List.eq_nil_or_concat ms with rfl | ⟨ms', x, rfl⟩
  · have hshort : ¬ [none, none] <:+: [m] := fun h => by simpa using h.length_le
    simp [BareDelete, hshort]
  · have hsuffix : [none, none] <:+ ms' ++ [x] ++ [m] ↔ x = none ∧ m = none := by
      constructor
      · rintro ⟨t, ht⟩
        have ht' : (t ++ [none]) ++ [none] = (ms' ++ [x]) ++ [m] := by simpa using ht
        obtain ⟨hinit, hm⟩ := List.append_singleton_inj.mp ht'
        exact ⟨(List.append_singleton_inj.mp hinit).2.symm, hm.symm⟩
      · rintro ⟨rfl, rfl⟩
        exact ⟨ms', by simp⟩
    have hhead : (ms' ++ [x] ++ [m]).head? = (ms' ++ [x]).head? := by
      cases ms' <;> simp
    rw [List.concat_eq_append, BareDelete, BareDelete, List.infix_concat_iff, hsuffix, hhead]
    simp only [List.getLast?_append, List.getLast?_singleton, Option.some_or, Option.join_some]
    tauto

/-! ## The loop of `create` -/

/-- After a chunk the map holds the value of the last put that no delete follows. -/
theorem createLoop_lookup (k : String) (ys : List Command) :
    (createLoop ys).snapshotted.lookup k = (mutations k ys).getLast?.join := by
  induction ys using List.reverseRecOn with
  | nil => simp [createLoop, mutations]
  | append_singleton ys c ih =>
      rw [createLoop, List.foldl_concat, ← createLoop, mutations_concat]
      rcases hc : c.kvCmd with ⟨key, value⟩ | key | key
      · simp only [createStep, mutation, hc, lookup_insert_ite, ih]
        by_cases hk : key = k
        · simp [hk]
        · simp [hk, Ne.symm hk]
      · have hstep : (createStep (createLoop ys) c).snapshotted = (createLoop ys).snapshotted.erase key := by
          simp only [createStep, hc]
          split <;> rfl
        simp only [hstep, mutation, hc, lookup_erase_ite, ih]
        by_cases hk : key = k
        · simp [hk]
        · simp [hk, Ne.symm hk]
      · simp [createStep, mutation, hc, ih]

/-- The loop notes a deletion exactly where a delete met no live put. -/
theorem mem_deletedKeys_createLoop (k : String) (ys : List Command) :
    k ∈ (createLoop ys).deletedKeys ↔ BareDelete (mutations k ys) := by
  induction ys using List.reverseRecOn with
  | nil => simp [createLoop, mutations, BareDelete]
  | append_singleton ys c ih =>
      have hlookup := createLoop_lookup k ys
      rw [createLoop, List.foldl_concat, ← createLoop, mutations_concat]
      rcases hc : c.kvCmd with ⟨key, value⟩ | key | key
      · by_cases hk : key = k
        · simp [createStep, mutation, hc, hk, ih, bareDelete_concat]
        · simp [createStep, mutation, hc, hk, ih]
      · by_cases hk : key = k
        · subst hk
          simp only [createStep, mutation, hc, if_true, Option.toList_some, bareDelete_concat,
            true_and, ← hlookup, ← ih]
          split
          · next v hv => simp [hv]
          · next hnone => simp [hnone]
        · simp only [createStep, mutation, hc, if_neg hk, Option.toList_none, List.append_nil]
          rw [← ih]
          split
          · rfl
          · simp [Ne.symm hk]
      · simp [createStep, mutation, hc, ih]

theorem create_snapshotted (ys : List Command) :
    (create ys).snapshotted = (createLoop ys).snapshotted := rfl

/-- `create` records a deletion iff the chunk deletes the key for good and some
delete in it was bare. -/
theorem mem_deletedKeys_create (k : String) (ys : List Command) :
    k ∈ (create ys).deletedKeys ↔ Clears k ys := by
  have hfilter : k ∈ (create ys).deletedKeys ↔
      BareDelete (mutations k ys) ∧ k ∉ (createLoop ys).snapshotted := by
    rw [← mem_deletedKeys_createLoop]
    simp [create, List.mem_filter]
  rw [hfilter, ← Finmap.lookup_eq_none, createLoop_lookup, Clears]
  constructor
  · rintro ⟨hbare, hlast⟩
    refine ⟨?_, hbare⟩
    rcases hl : (mutations k ys).getLast? with _ | m
    · have hnil : mutations k ys = [] := List.getLast?_eq_none_iff.mp hl
      rw [hnil] at hbare
      exact absurd hbare (by decide)
    · rw [hl] at hlast
      exact congrArg some hlast
  · rintro ⟨hlast, hbare⟩
    exact ⟨hbare, by rw [hlast]; rfl⟩

theorem create_lookup (k : String) (ys : List Command) :
    (create ys).snapshotted.lookup k = (mutations k ys).getLast?.join := by
  rw [create_snapshotted, createLoop_lookup]

/-! ## A snapshot against the database -/

/-- A chunk leaves a cell of a database as its last put or delete has it. -/
theorem replayFrom_lookup_last (k : String) (d : Database) (ys : List Command) :
    (d.replayFrom ys).db.lookup k = ((mutations k ys).getLast?).getD (d.db.lookup k) := by
  induction ys using List.reverseRecOn with
  | nil => simp [Database.replayFrom, mutations]
  | append_singleton ys c ih =>
      rw [Database.replayFrom, List.foldl_concat, ← Database.replayFrom, mutations_concat]
      rcases hc : c.kvCmd with ⟨key, value⟩ | key | key
      · simp only [Database.handleCommand, mutation, hc, lookup_insert_ite, ih]
        by_cases hk : key = k
        · simp [hk]
        · simp [hk, Ne.symm hk]
      · simp only [Database.handleCommand, mutation, hc, lookup_erase_ite, ih]
        by_cases hk : key = k
        · simp [hk]
        · simp [hk, Ne.symm hk]
      · simp [Database.handleCommand, mutation, hc, ih]

/-- The map of a snapshot is the replay of its chunk. -/
theorem create_eq_replay (ys : List Command) :
    (create ys).snapshotted = (Database.replay ys).db := by
  apply Finmap.ext_lookup
  intro k
  have hnew : Database.new.db.lookup k = none := by simp [Database.new]
  rw [create_lookup, Database.replay, replayFrom_lookup_last, hnew]
  cases (mutations k ys).getLast? <;> rfl

/-- The snapshot of a list of commands agrees with the database that applied it, and its
deleted keys are keys that the list deletes for good. -/
theorem create_sound (entries : List Command) :
    (create entries).snapshotted = (Database.replay entries).db ∧
      (∀ k v, (create entries).snapshotted.lookup k = some v ↔
        (mutations k entries).getLast? = some (some v)) ∧
      (∀ k ∈ (create entries).deletedKeys, k ∉ (create entries).snapshotted) ∧
      ∀ k ∈ (create entries).deletedKeys, (mutations k entries).getLast? = some none := by
  have hdeleted : ∀ k ∈ (create entries).deletedKeys,
      (mutations k entries).getLast? = some none := by
    intro k hk
    exact ((mem_deletedKeys_create k entries).mp hk).1
  refine ⟨create_eq_replay entries, ?_, ?_, hdeleted⟩
  · intro k v
    rw [create_lookup, Option.join_eq_some_iff]
  · intro k hk
    rw [← Finmap.lookup_eq_none, create_lookup, hdeleted k hk]
    rfl

/-! ## Chunks as recorded edits -/

/-- What a chunk does to `k`, and whether its snapshot records it. -/
def edit (k : String) (ys : List Command) : Edit String :=
  match (mutations k ys).getLast? with
  | none => .keep
  | some (some v) => .set v
  | some none => if BareDelete (mutations k ys) then .clear else .hide

/-- A chunk sets a key just if its last mutation of the key is a `Put`. -/
theorem edit_eq_set_iff (k : String) (ys : List Command) (v : String) :
    edit k ys = .set v ↔ (mutations k ys).getLast? = some (some v) := by
  unfold edit
  split
  · next h => simp [h]
  · next w h => simp [h]
  · next h => split <;> simp [h]

/-- A chunk hides a key just if it deletes it for good, and no delete in it was bare. -/
theorem edit_eq_hide_iff (k : String) (ys : List Command) : edit k ys = .hide ↔ Hides k ys := by
  unfold edit Hides
  split
  · next h => simp [h]
  · next w h => simp [h]
  · next h => split <;> simp [*]

/-- The record of a chunk is silent on a key just if the chunk neither puts nor clears it. -/
theorem silent_edit_iff (k : String) (ys : List Command) :
    (edit k ys).Silent ↔ ¬ Puts k ys ∧ ¬ Clears k ys := by
  unfold edit Puts Clears
  split
  · next h => simp [h]
  · next w h => simp [h]
  · next h => split <;> simp [*]

/-- Applying a chunk to a database edits each of its cells. -/
theorem replayFrom_lookup (k : String) (d : Database) (ys : List Command) :
    (d.replayFrom ys).db.lookup k = Edit.apply (d.db.lookup k) (edit k ys) := by
  rw [replayFrom_lookup_last]
  unfold edit
  split
  · next h => simp [h, Edit.apply]
  · next w h => simp [h, Edit.apply]
  · next h => split <;> simp [h, Edit.apply]

/-- The second loop of `merge` removes the deleted keys. -/
theorem foldl_erase_lookup (k : String) (ks : List String) (m : HashMap String String) :
    (ks.foldl (fun m k => m.erase k) m).lookup k = if k ∈ ks then none else m.lookup k := by
  induction ks generalizing m with
  | nil => simp
  | cons k' ks ih =>
      rw [List.foldl_cons, ih, lookup_erase_ite]
      by_cases hk : k = k' <;> simp [hk]

/-- Merging the snapshot of a chunk applies what the snapshot records of it. -/
theorem merge_lookup (k : String) (s : KVSnapshot) (ys : List Command) :
    (s.merge (create ys)).snapshotted.lookup k =
      Edit.applyRecord (s.snapshotted.lookup k) (edit k ys) := by
  have hmap := create_lookup k ys
  have hskip : (create ys).snapshotted.lookup k = none →
      ((create ys).snapshotted ∪ s.snapshotted).lookup k = s.snapshotted.lookup k := fun h =>
    Finmap.lookup_union_right (Finmap.lookup_eq_none.mp h)
  simp only [merge, foldl_erase_lookup, mem_deletedKeys_create, Clears]
  rcases h : (mutations k ys).getLast? with _ | _ | v
  · rw [h] at hmap
    simp [edit, h, hskip hmap, Edit.applyRecord]
  · rw [h] at hmap
    by_cases hbare : BareDelete (mutations k ys)
    · simp [edit, h, hbare, Edit.applyRecord]
    · simp [edit, h, hbare, hskip hmap, Edit.applyRecord]
  · rw [h] at hmap
    rw [Finmap.lookup_union_left (Finmap.mem_of_lookup_eq_some hmap), hmap]
    simp [edit, h, Edit.applyRecord]

/-! ## Merging against replaying -/

/-- The snapshot of `xs` after merging in the snapshots of the chunks, in order. -/
def mergeAll (xs : List Command) (chunks : List (List Command)) : KVSnapshot :=
  (chunks.map create).foldl merge (create xs)

/-- A chain of merges remembers what the edits of its chunks leave. -/
theorem mergeAll_lookup (k : String) (xs : List Command) (chunks : List (List Command)) :
    (mergeAll xs chunks).snapshotted.lookup k = Edit.remembered ((xs :: chunks).map (edit k)) := by
  induction chunks using List.reverseRecOn with
  | nil =>
      have hmap := createLoop_lookup k xs
      simp only [mergeAll, List.map_nil, List.foldl_nil, create_snapshotted, hmap, Edit.remembered,
        List.map_cons, List.foldl_cons]
      unfold edit
      split
      · next h => simp [h, Edit.applyRecord]
      · next v h => simp [h, Edit.applyRecord]
      · next h => split <;> simp [h, Edit.applyRecord]
  | append_singleton chunks ys ih =>
      have hmerge : mergeAll xs (chunks ++ [ys]) = (mergeAll xs chunks).merge (create ys) := by
        simp [mergeAll]
      rw [hmerge, merge_lookup, ih, ← List.cons_append, List.map_append, List.map_singleton,
        Edit.remembered_concat]

/-- A replay applies the edits of its chunks. -/
theorem replay_lookup (k : String) (chunks : List (List Command)) :
    (Database.replay chunks.flatten).db.lookup k = Edit.replay (chunks.map (edit k)) := by
  induction chunks using List.reverseRecOn with
  | nil => simp [Database.new, Edit.replay]
  | append_singleton chunks ys ih =>
      rw [List.flatten_concat, Database.replay_append, replayFrom_lookup, ih, List.map_append,
        List.map_singleton, Edit.replay_concat]

/-- A hidden deletion is one among the edits of its key. -/
theorem hiddenDelete_iff (k : String) (chunks : List (List Command)) :
    HiddenDelete k chunks ↔ ∃ pre v mid post,
      chunks.map (edit k) = pre ++ .set v :: (mid ++ .hide :: post) ∧
        ∀ e ∈ mid ++ post, e.Silent := by
  constructor
  · rintro ⟨pre, put, mid, del, post, rfl, ⟨v, hput⟩, hdel, hall⟩
    refine ⟨pre.map (edit k), v, mid.map (edit k), post.map (edit k), ?_, ?_⟩
    · simp [(edit_eq_set_iff k put v).mpr hput, (edit_eq_hide_iff k del).mpr hdel]
    · intro e he
      rw [← List.map_append] at he
      obtain ⟨ys, hys, rfl⟩ := List.mem_map.mp he
      exact (silent_edit_iff k ys).mpr (hall ys hys)
  · rintro ⟨pre, v, mid, post, heq, hall⟩
    obtain ⟨pre', rest, rfl, rfl, hrest⟩ := List.map_eq_append_iff.mp heq
    obtain ⟨put, rest', rfl, hput, hrest'⟩ := List.map_eq_cons_iff.mp hrest
    obtain ⟨mid', rest'', rfl, rfl, hrest''⟩ := List.map_eq_append_iff.mp hrest'
    obtain ⟨del, post', rfl, hdel, rfl⟩ := List.map_eq_cons_iff.mp hrest''
    refine ⟨pre', put, mid', del, post', rfl, ⟨v, (edit_eq_set_iff k put v).mp hput⟩,
      (edit_eq_hide_iff k del).mp hdel, ?_⟩
    intro ys hys
    rw [← silent_edit_iff]
    exact hall _ (by rw [← List.map_append]; exact List.mem_map_of_mem hys)

/-- Merging the snapshots of consecutive chunks agrees with replaying the log iff
no key has a hidden deletion. -/
theorem merge_eq_replay_iff (xs : List Command) (chunks : List (List Command)) :
    (mergeAll xs chunks).snapshotted = (Database.replay (xs ++ chunks.flatten)).db ↔
      ∀ k, ¬ HiddenDelete k (xs :: chunks) := by
  have hcell : ∀ k, (mergeAll xs chunks).snapshotted.lookup k =
      (Database.replay (xs ++ chunks.flatten)).db.lookup k ↔ ¬ HiddenDelete k (xs :: chunks) := by
    intro k
    rw [mergeAll_lookup, ← List.flatten_cons, replay_lookup, hiddenDelete_iff,
      ← Edit.remembered_ne_replay_iff, not_not]
  constructor
  · intro h k
    rw [← hcell, h]
  · intro h
    exact Finmap.ext_lookup fun k => (hcell k).mpr (h k)

/-- The log `put k a; put k b; delete k`, cut after its first entry. The snapshot of
the second chunk mentions `k` nowhere, so the merged map keeps `k ↦ a`. -/
theorem merge_keeps_deleted_key :
    (mergeAll [⟨1, 1, 0, .put "k" "a"⟩]
        [[⟨1, 1, 1, .put "k" "b"⟩, ⟨1, 1, 2, .delete "k"⟩]]).snapshotted ≠
      (Database.replay ([⟨1, 1, 0, .put "k" "a"⟩] ++
        [[⟨1, 1, 1, .put "k" "b"⟩, ⟨1, 1, 2, .delete "k"⟩]].flatten)).db := by
  decide

end KVSnapshot

end OmnipaxosKv
