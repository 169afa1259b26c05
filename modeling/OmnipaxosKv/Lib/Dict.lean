import Mathlib.Data.List.Count
import Mathlib.Data.List.Nodup

/-! # Insertion-ordered dictionaries

A dictionary that iterates over its entries in the order in which their keys were first
set. Setting a key that is there replaces its value in place.

Besides what a lookup finds after `set`, the lemmas say which keys and how many values of
a kind there are, which is what checks over a whole dictionary depend on.
-/

universe u v

/-- An insertion-ordered dictionary. -/
structure Dict (K : Type u) (V : Type v) where
  entries : List (K × V)
  nodup : (entries.map Prod.fst).Nodup

namespace Dict

variable {K : Type u} {V : Type v}

def empty : Dict K V := ⟨[], List.nodup_nil⟩

def keys (d : Dict K V) : List K := d.entries.map Prod.fst

def values (d : Dict K V) : List V := d.entries.map Prod.snd

section

variable [DecidableEq K]

def get? (d : Dict K V) (k : K) : Option V := d.entries.lookup k

/-- The entries with the value of `k` replaced. -/
def replace (k : K) (v : V) (entries : List (K × V)) : List (K × V) :=
  entries.map fun e => if e.1 = k then (k, v) else e

/-- To replace a value keeps the keys and their order. -/
theorem map_fst_replace (k : K) (v : V) (entries : List (K × V)) :
    (replace k v entries).map Prod.fst = entries.map Prod.fst := by
  rw [replace, List.map_map]
  apply List.map_congr_left
  intro e _
  by_cases he : e.1 = k
  · simp [he]
  · simp [he]

def set (d : Dict K V) (k : K) (v : V) : Dict K V :=
  if hk : k ∈ d.keys then
    ⟨replace k v d.entries, by
      rw [map_fst_replace]
      exact d.nodup⟩
  else
    ⟨d.entries ++ [(k, v)], by
      rw [List.map_append]
      exact List.nodup_append_comm.mp (List.nodup_cons.mpr ⟨hk, d.nodup⟩)⟩

/-! ## Lookup -/

/-- A value is found just if its entry is there. -/
theorem get?_eq_some_iff {d : Dict K V} {k : K} {v : V} :
    d.get? k = some v ↔ (k, v) ∈ d.entries := by
  rcases d with ⟨entries, hnodup⟩
  simp only [get?]
  induction entries with
  | nil => simp
  | cons e entries ih =>
      rcases e with ⟨k', v'⟩
      rw [List.map_cons, List.nodup_cons] at hnodup
      by_cases hk : k = k'
      · subst hk
        rw [List.lookup_cons_self, List.mem_cons]
        constructor
        · intro hv
          left
          rw [Option.some.inj hv]
        · intro hmem
          rcases hmem with heq | hmem
          · rw [(Prod.mk.inj heq).2]
          · exact absurd (List.mem_map_of_mem (f := Prod.fst) hmem) hnodup.1
      · have hbeq : (k == k') = false := by simpa using hk
        rw [List.lookup_cons, hbeq, ih hnodup.2, List.mem_cons]
        constructor
        · exact .inr
        · intro hmem
          rcases hmem with heq | hmem
          · exact absurd (Prod.mk.inj heq).1 hk
          · exact hmem

/-- A key is one that has a value. -/
theorem mem_keys_iff {d : Dict K V} {k : K} : k ∈ d.keys ↔ ∃ v, d.get? k = some v := by
  simp only [get?_eq_some_iff, keys, List.mem_map, Prod.exists, exists_and_right, exists_eq_right]

/-- What has a value is a key. -/
theorem mem_keys_of_get? {d : Dict K V} {k : K} {v : V} (h : d.get? k = some v) : k ∈ d.keys :=
  mem_keys_iff.mpr ⟨v, h⟩

/-- A value is one that some key has. -/
theorem mem_values_iff {d : Dict K V} {v : V} : v ∈ d.values ↔ ∃ k, d.get? k = some v := by
  simp only [get?_eq_some_iff, values, List.mem_map, Prod.exists, exists_eq_right]

/-! ## After `set` -/

/-- To set an old key replaces its value in place. -/
theorem entries_set_of_mem {d : Dict K V} {k : K} (h : k ∈ d.keys) (v : V) :
    (d.set k v).entries = replace k v d.entries := by
  rw [set, dif_pos h]

/-- To set a new key adds its entry at the end. -/
theorem entries_set_of_not_mem {d : Dict K V} {k : K} (h : k ∉ d.keys) (v : V) :
    (d.set k v).entries = d.entries ++ [(k, v)] := by
  rw [set, dif_neg h]

/-- The keys stay when one of them is set. -/
theorem keys_set_of_mem {d : Dict K V} {k : K} (h : k ∈ d.keys) (v : V) :
    (d.set k v).keys = d.keys := by
  rw [keys, entries_set_of_mem h, map_fst_replace]
  rfl

/-- The entries after an old key was set. -/
theorem mem_entries_set_of_mem {d : Dict K V} {k k' : K} {v v' : V} (h : k ∈ d.keys) :
    (k', v') ∈ (d.set k v).entries ↔
      if k' = k then v' = v else (k', v') ∈ d.entries := by
  rw [entries_set_of_mem h, replace, List.mem_map]
  by_cases hk : k' = k
  · subst hk
    rw [if_pos rfl]
    constructor
    · intro hmem
      rcases hmem with ⟨e, _, heq⟩
      split at heq
      · exact (Prod.mk.inj heq).2.symm
      · next hne =>
          rw [heq] at hne
          exact absurd rfl hne
    · intro hv
      rcases List.mem_map.mp h with ⟨e, he, hkey⟩
      exact ⟨e, he, by rw [if_pos hkey, hv]⟩
  · rw [if_neg hk]
    constructor
    · intro hmem
      rcases hmem with ⟨e, he, heq⟩
      split at heq
      · exact absurd (Prod.mk.inj heq).1.symm hk
      · rw [← heq]
        exact he
    · intro hmem
      exact ⟨(k', v'), hmem, if_neg hk⟩

/-- What is found after an old key was set. -/
theorem get?_set_of_mem {d : Dict K V} {k : K} (h : k ∈ d.keys) (v : V) (k' : K) :
    (d.set k v).get? k' = if k' = k then some v else d.get? k' := by
  apply Option.ext
  intro v'
  have hset : (k', v') ∈ (d.set k v).entries ↔
      if k' = k then v' = v else (k', v') ∈ d.entries := mem_entries_set_of_mem h
  rw [get?_eq_some_iff, hset]
  split
  · rw [Option.some.injEq, eq_comm]
  · rw [get?_eq_some_iff]

/-- The values after an old key was set are old ones, or the one that was set. -/
theorem mem_values_set_of_mem {d : Dict K V} {k : K} {v v' : V} (h : k ∈ d.keys)
    (hmem : v' ∈ (d.set k v).values) : v' = v ∨ v' ∈ d.values := by
  rcases mem_values_iff.mp hmem with ⟨k', hk'⟩
  rw [get?_set_of_mem h] at hk'
  split at hk'
  · exact .inl (Option.some.inj hk').symm
  · exact .inr (mem_values_iff.mpr ⟨k', hk'⟩)

/-- To replace the value of a key that is not there does nothing. -/
theorem replace_of_not_mem {k : K} {v : V} {entries : List (K × V)}
    (h : k ∉ entries.map Prod.fst) : replace k v entries = entries := by
  have hsame : ∀ e ∈ entries, (if e.1 = k then (k, v) else e) = e := by
    intro e he
    rw [if_neg]
    intro hk
    exact h (hk ▸ List.mem_map_of_mem he)
  rw [replace, List.map_congr_left hsame, List.map_id']

/-- The entry of `k` is there once. -/
theorem countP_replace (p : V → Bool) {k : K} {old : V} (v : V) {entries : List (K × V)}
    (hnodup : (entries.map Prod.fst).Nodup) (h : (k, old) ∈ entries) :
    ((replace k v entries).map Prod.snd).countP p + (if p old then 1 else 0) =
      (entries.map Prod.snd).countP p + (if p v then 1 else 0) := by
  induction entries with
  | nil => cases h
  | cons e entries ih =>
      rw [List.map_cons, List.nodup_cons] at hnodup
      rw [replace, List.map_cons, ← replace, List.map_cons, List.map_cons, List.countP_cons,
        List.countP_cons]
      by_cases he : e.1 = k
      · subst he
        have hold : e.2 = old := by
          rcases List.mem_cons.mp h with heq | hin
          · rw [← heq]
          · exact absurd (List.mem_map_of_mem (f := Prod.fst) hin) hnodup.1
        rw [replace_of_not_mem hnodup.1, if_pos rfl, hold]
        dsimp only
        omega
      · have hin : (k, old) ∈ entries := by
          rcases List.mem_cons.mp h with heq | hin
          · exact absurd (congrArg Prod.fst heq).symm he
          · exact hin
        have hstep := ih hnodup.2 hin
        rw [if_neg he]
        omega

/-- Replacing a value changes a count by what the two values contribute. -/
theorem countP_values_set (p : V → Bool) {d : Dict K V} {k : K} {old : V}
    (h : d.get? k = some old) (v : V) :
    (d.set k v).values.countP p + (if p old then 1 else 0) =
      d.values.countP p + (if p v then 1 else 0) := by
  rw [values, entries_set_of_mem (mem_keys_of_get? h)]
  exact countP_replace p v d.nodup (get?_eq_some_iff.mp h)

end

end Dict
