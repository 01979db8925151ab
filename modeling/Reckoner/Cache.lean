import Reckoner.Binary64.Basic

/-!
# The cache of results

Remembered values, each under one expression, in the order of their latest use. Touching an
expression makes it the most recent one; trimming forgets the least recent ones. What each
operation does is told by the keys that it leaves and by the values found under them.
-/

namespace Reckoner

/-- Remembered values, least recently used first. -/
structure Cache where
  entries : List (String × Binary64)
  distinct : (entries.map Prod.fst).Nodup
deriving DecidableEq

namespace Cache

/-- The cache that remembers nothing. -/
def empty : Cache :=
  ⟨[], List.nodup_nil⟩

/-- The remembered expressions, least recently used first. -/
def keys (cache : Cache) : List String :=
  cache.entries.map Prod.fst

/-- The number of remembered expressions. -/
def size (cache : Cache) : Nat :=
  cache.entries.length

/-- The remembered value of an expression. -/
def find? (cache : Cache) (key : String) : Option Binary64 :=
  cache.entries.lookup key

/-- The keys of the entries under other keys are the other keys. -/
theorem map_fst_filter_ne (entries : List (String × Binary64)) (key : String) :
    (entries.filter fun entry => entry.1 ≠ key).map Prod.fst =
      (entries.map Prod.fst).filter fun other => other ≠ key := by
  rw [List.filter_map]
  rfl

/-- Remember a value as the most recently used one. -/
def touch (cache : Cache) (key : String) (value : Binary64) : Cache where
  entries := (cache.entries.filter fun entry => entry.1 ≠ key) ++ [(key, value)]
  distinct := by
    rw [List.map_append, map_fst_filter_ne]
    refine List.nodup_append.mpr ⟨cache.distinct.filter _, by simp, ?_⟩
    simp

/-- Forget the least recently used values until at most the given number is left. -/
def trim (cache : Cache) (capacity : Nat) : Cache where
  entries := cache.entries.drop (cache.size - capacity)
  distinct := by
    rw [List.map_drop]
    exact cache.distinct.sublist (List.drop_sublist _ _)

theorem size_eq_length_keys (cache : Cache) : cache.size = cache.keys.length :=
  (List.length_map _).symm

/-- A touched expression moves behind all others. -/
theorem keys_touch (cache : Cache) (key : String) (value : Binary64) :
    (cache.touch key value).keys = (cache.keys.filter fun other => other ≠ key) ++ [key] := by
  rw [keys, touch, List.map_append, map_fst_filter_ne]
  rfl

/-- Trimming takes expressions away from the front. -/
theorem keys_trim (cache : Cache) (capacity : Nat) :
    (cache.trim capacity).keys = cache.keys.drop (cache.size - capacity) := by
  rw [keys, trim, List.map_drop]
  rfl

/-- Trimming to a capacity leaves as much as the capacity holds. -/
theorem size_trim (cache : Cache) (capacity : Nat) :
    (cache.trim capacity).size = min cache.size capacity := by
  simp only [size, trim, List.length_drop]
  omega

/-- A value is remembered exactly under the keys. -/
theorem find?_eq_none_iff (cache : Cache) (key : String) :
    cache.find? key = none ↔ key ∉ cache.keys := by
  simp only [find?, keys, List.lookup_eq_none_iff, List.mem_map, not_exists, not_and, bne_iff_ne]
  exact ⟨fun h entry hentry heq => h entry hentry heq.symm,
    fun h entry hentry heq => h entry hentry heq.symm⟩

/-- The keys are those under which a value is remembered. -/
theorem mem_keys_iff (cache : Cache) (key : String) :
    key ∈ cache.keys ↔ ∃ value, cache.find? key = some value := by
  rw [← Option.ne_none_iff_exists', ne_eq, find?_eq_none_iff, Classical.not_not]

/-- A key under which a value is found is one of the keys. -/
theorem mem_keys_of_find? {cache : Cache} {key : String} {value : Binary64}
    (h : cache.find? key = some value) : key ∈ cache.keys :=
  (mem_keys_iff cache key).mpr ⟨value, h⟩

/-- The first entry decides the look-up of its own key alone. -/
theorem lookup_cons_ite (entry : String × Binary64) (rest : List (String × Binary64))
    (key : String) :
    (entry :: rest).lookup key = if key = entry.1 then some entry.2 else rest.lookup key := by
  rw [List.lookup_cons]
  by_cases h : key = entry.1
  · have hbeq : (key == entry.1) = true := by simpa using h
    rw [if_pos h, hbeq]
  · have hbeq : (key == entry.1) = false := by simpa using h
    rw [if_neg h, hbeq]

/-- A touched expression has the new value and all others keep theirs. -/
theorem find?_touch (cache : Cache) (key other : String) (value : Binary64) :
    (cache.touch key value).find? other =
      if other = key then some value else cache.find? other := by
  simp only [find?, touch]
  induction cache.entries with
  | nil => rw [List.filter_nil, List.nil_append, lookup_cons_ite]
  | cons entry rest ih =>
    by_cases hentry : entry.1 = key
    · rw [List.filter_cons_of_neg (by simp [hentry]), ih, lookup_cons_ite, hentry]
      split <;> rfl
    · rw [List.filter_cons_of_pos (by simp [hentry]), List.cons_append, lookup_cons_ite,
        lookup_cons_ite, ih]
      split <;> grind

/-- The value under a key is that of the only entry with the key. -/
theorem find?_eq_some_iff (cache : Cache) (key : String) (value : Binary64) :
    cache.find? key = some value ↔ (key, value) ∈ cache.entries := by
  obtain ⟨entries, hdistinct⟩ := cache
  simp only [find?]
  induction entries with
  | nil => simp [List.lookup_nil]
  | cons entry rest ih =>
    obtain ⟨hnew, hrest⟩ := List.nodup_cons.mp hdistinct
    rw [lookup_cons_ite, List.mem_cons]
    by_cases h : key = entry.1
    · have hother : (key, value) ∉ rest := fun hmem =>
        hnew (h ▸ List.mem_map_of_mem hmem)
      rw [if_pos h]
      constructor
      · intro hvalue
        exact .inl (Prod.ext h (Option.some.inj hvalue).symm)
      · rintro (rfl | hmem)
        · rfl
        · exact absurd hmem hother
    · rw [if_neg h, ih hrest]
      refine ⟨.inr, ?_⟩
      rintro (rfl | hmem)
      · exact absurd rfl h
      · exact hmem

/-- Trimming changes no value that is still remembered. -/
theorem find?_of_find?_trim {cache : Cache} {capacity : Nat} {key : String} {value : Binary64}
    (h : (cache.trim capacity).find? key = some value) : cache.find? key = some value :=
  (find?_eq_some_iff cache key value).mpr
    (List.mem_of_mem_drop ((find?_eq_some_iff _ key value).mp h))

end Cache

end Reckoner
