-- Tables with a key, and folds seen through a view: what one row of a table says
-- after a loop depends only on the elements of the loop that are about that row.
import Mathlib.Data.List.AList

namespace table

variable {ι R : Type} [DecidableEq ι]

/-- A table: at most one row for a key. -/
abbrev Table (ι R : Type) := AList (fun _ : ι => R)

/-- `DELETE … WHERE`: the rows that the test holds of stay. -/
def retain (p : ι → R → Bool) (t : Table ι R) : Table ι R :=
  ⟨t.entries.filter (fun e => p e.1 e.2), t.nodupKeys.sublist List.filter_sublist⟩

theorem lookup_eq_some {t : Table ι R} {i : ι} {r : R} :
    t.lookup i = some r ↔ ⟨i, r⟩ ∈ t.entries :=
  AList.mem_lookup_iff

theorem lookup_retain (p : ι → R → Bool) (t : Table ι R) (i : ι) :
    (retain p t).lookup i = (t.lookup i).filter (p i) := by
  apply Option.ext
  intro r
  rw [lookup_eq_some, Option.filter_eq_some_iff, lookup_eq_some]
  simp [retain, List.mem_filter]

theorem lookup_insert_if (t : Table ι R) (i j : ι) (r : R) :
    (t.insert i r).lookup j = if j = i then some r else t.lookup j := by
  by_cases h : j = i
  · rw [if_pos h, h, AList.lookup_insert]
  · rw [if_neg h, AList.lookup_insert_ne h]

theorem lookup_erase_if (t : Table ι R) (i j : ι) :
    (t.erase i).lookup j = if j = i then none else t.lookup j := by
  by_cases h : j = i
  · rw [if_pos h, h, AList.lookup_erase]
  · rw [if_neg h, AList.lookup_erase_ne h]

end table

namespace views

variable {S E V : Type}

/-- A view that no element of the loop is about is what it was. -/
theorem foldl_view_eq (view : S → V) (g : S → E → S) (l : List E)
    (miss : ∀ s, ∀ e ∈ l, view (g s e) = view s) (s : S) : view (l.foldl g s) = view s := by
  induction l generalizing s with
  | nil => rfl
  | cons e l ih =>
    rw [List.foldl_cons, ih (fun s e he => miss s e (List.mem_cons_of_mem _ he)),
      miss s e List.mem_cons_self]

/-- The elements that a view does not depend on may be left out. -/
theorem foldl_view_filter (view : S → V) (g : S → E → S) (about : E → Bool)
    (hit : ∀ s s' e, about e = true → view s = view s' → view (g s e) = view (g s' e))
    (miss : ∀ s e, about e = false → view (g s e) = view s) (l : List E) {s s' : S}
    (h : view s = view s') : view (l.foldl g s) = view ((l.filter about).foldl g s') := by
  induction l generalizing s s' with
  | nil => exact h
  | cons e l ih =>
    rw [List.foldl_cons]
    rcases he : about e with _ | _
    · rw [List.filter_cons_of_neg (by simp [he])]
      exact ih ((miss s e he).trans h)
    · rw [List.filter_cons_of_pos he, List.foldl_cons]
      exact ih (hit s s' e he h)

/-- Of elements with distinct keys, those with one key are the same in any order. -/
theorem filter_key_perm {K : Type} [DecidableEq K] {key : E → K} {l l' : List E} (h : l.Perm l')
    (hnodup : (l.map key).Nodup) (x : K) :
    l.filter (fun e => decide (key e = x)) = l'.filter (fun e => decide (key e = x)) := by
  have hperm := h.filter (fun e => decide (key e = x))
  have hsame : ∀ e ∈ l.filter (fun e => decide (key e = x)), key e = x := by
    intro e he
    simpa using (List.mem_filter.mp he).2
  have hkeys : ((l.filter (fun e => decide (key e = x))).map key).Nodup :=
    hnodup.sublist (List.filter_sublist.map key)
  rcases hl : l.filter (fun e => decide (key e = x)) with _ | ⟨a, _ | ⟨b, rest⟩⟩
  · rw [hl] at hperm
    exact hperm.nil_eq
  · rw [hl] at hperm
    exact (List.singleton_perm.mp hperm).symm ▸ rfl
  · rw [hl] at hsame hkeys
    rw [List.map_cons, List.map_cons, List.nodup_cons] at hkeys
    exact (hkeys.1 (by
      rw [hsame a List.mem_cons_self, hsame b (by simp)]
      exact List.mem_cons_self)).elim

end views
