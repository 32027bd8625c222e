-- Sorted maps: the entries in the strict order of their keys, so that two maps
-- that answer alike are equal.
import Mathlib.Data.List.Dedup
import Mathlib.Data.List.Sort

namespace sorted_map

variable {K V V' : Type} [LinearOrder K]

/-- A map as `BTreeMap` keeps it. -/
structure SortedMap (K V : Type) [LinearOrder K] where
  entries : List (K × V)
  sorted : entries.Pairwise (fun a b => a.1 < b.1)

instance [DecidableEq V] : DecidableEq (SortedMap K V) := fun a b =>
  decidable_of_iff (a.entries = b.entries) (by
    cases a
    cases b
    simp)

def empty : SortedMap K V := { entries := [], sorted := List.Pairwise.nil }

def SortedMap.get (m : SortedMap K V) (k : K) : Option V := m.entries.lookup k

def SortedMap.keys (m : SortedMap K V) : List K := m.entries.map Prod.fst

/-- The keys of a list, each once and in order. -/
def ordered (ks : List K) : List K := ks.dedup.insertionSort (· ≤ ·)

theorem ordered_sorted (ks : List K) : (ordered ks).Pairwise (· < ·) := by
  have hle : (ordered ks).Pairwise (· ≤ ·) := List.pairwise_insertionSort _ _
  have hne : (ordered ks).Pairwise (· ≠ ·) :=
    (List.perm_insertionSort _ _).nodup_iff.mpr ks.nodup_dedup
  exact (hle.and hne).imp (fun h => lt_of_le_of_ne h.1 h.2)

@[simp] theorem mem_ordered {ks : List K} {k : K} : k ∈ ordered ks ↔ k ∈ ks := by
  unfold ordered
  rw [List.mem_insertionSort, List.mem_dedup]

/-- The map that gives these keys what the function gives them. -/
def tabulate (ks : List K) (f : K → Option V) : SortedMap K V :=
  { entries := (ordered ks).filterMap (fun k => (f k).map (fun v => (k, v)))
    sorted := by
      rw [List.pairwise_filterMap]
      apply (ordered_sorted ks).imp
      intro a b hlt x hx y hy
      obtain ⟨v, _, rfl⟩ := Option.map_eq_some_iff.mp hx
      obtain ⟨w, _, rfl⟩ := Option.map_eq_some_iff.mp hy
      exact hlt }

theorem keys_nodup (m : SortedMap K V) : (m.entries.map Prod.fst).Nodup := by
  unfold List.Nodup
  rw [List.pairwise_map]
  exact m.sorted.imp (fun h => ne_of_lt h)

theorem lookup_eq_some_of_nodup {K V : Type} [BEq K] [LawfulBEq K] {l : List (K × V)}
    (h : (l.map Prod.fst).Nodup) {k : K} {v : V} : l.lookup k = some v ↔ (k, v) ∈ l := by
  induction l with
  | nil => simp
  | cons e rest ih =>
    obtain ⟨k', v'⟩ := e
    rw [List.map_cons, List.nodup_cons] at h
    rw [List.lookup_cons, List.mem_cons]
    by_cases hk : k = k'
    · subst hk
      have hnot : ∀ w, (k, w) ∉ rest :=
        fun w hmem => h.1 (List.mem_map.mpr ⟨(k, w), hmem, rfl⟩)
      simp [hnot, eq_comm]
    · have hbeq : (k == k') = false := by simpa using hk
      rw [hbeq]
      simp only [Prod.mk.injEq, hk, false_and, false_or]
      exact ih h.2

theorem get_eq_some {m : SortedMap K V} {k : K} {v : V} :
    m.get k = some v ↔ (k, v) ∈ m.entries :=
  lookup_eq_some_of_nodup (keys_nodup m)

@[simp] theorem get_empty (k : K) : (empty : SortedMap K V).get k = none := rfl

theorem mem_keys {m : SortedMap K V} {k : K} : k ∈ m.keys ↔ (m.get k).isSome := by
  unfold SortedMap.keys
  rw [List.mem_map, Option.isSome_iff_exists]
  constructor
  · rintro ⟨⟨k, v⟩, hmem, rfl⟩
    exact ⟨v, get_eq_some.mpr hmem⟩
  · rintro ⟨v, hv⟩
    exact ⟨(k, v), get_eq_some.mp hv, rfl⟩

theorem get_tabulate (ks : List K) (f : K → Option V) (k : K) :
    (tabulate ks f).get k = if k ∈ ks then f k else none := by
  apply Option.ext
  intro v
  rw [get_eq_some]
  unfold tabulate
  rw [List.mem_filterMap]
  constructor
  · rintro ⟨k', hk', heq⟩
    obtain ⟨v', hv', hpair⟩ := Option.map_eq_some_iff.mp heq
    cases hpair
    rw [if_pos (mem_ordered.mp hk'), hv']
  · intro h
    split at h
    · rename_i hk
      exact ⟨k, mem_ordered.mpr hk, by rw [h]; rfl⟩
    · cases h

/-- Two maps that answer alike are equal. -/
theorem ext_get {a b : SortedMap K V} (h : ∀ k, a.get k = b.get k) : a = b := by
  have hmem : ∀ e, e ∈ a.entries ↔ e ∈ b.entries := by
    rintro ⟨k, v⟩
    rw [← get_eq_some, ← get_eq_some, h k]
  have hnodup : ∀ m : SortedMap K V, m.entries.Nodup := fun m => (keys_nodup m).of_map _
  have hperm : a.entries.Perm b.entries :=
    (List.perm_ext_iff_of_nodup (hnodup a) (hnodup b)).mpr hmem
  have hentries : a.entries = b.entries := by
    apply hperm.eq_of_pairwise _ a.sorted b.sorted
    intro x y _ _ hxy hyx
    exact absurd hyx (lt_asymm hxy)
  cases a
  cases b
  simpa using hentries

/-- Change each value, with its key, or leave it out. -/
def SortedMap.filterMap (m : SortedMap K V) (f : K → V → Option V') : SortedMap K V' :=
  tabulate m.keys (fun k => (m.get k).bind (f k))

@[simp] theorem get_filterMap (m : SortedMap K V) (f : K → V → Option V') (k : K) :
    (m.filterMap f).get k = (m.get k).bind (f k) := by
  unfold SortedMap.filterMap
  rw [get_tabulate]
  split
  · rfl
  · rename_i hk
    rw [mem_keys, Option.not_isSome_iff_eq_none] at hk
    rw [hk]
    rfl

end sorted_map
