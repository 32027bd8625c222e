-- A buffer that takes a stream in pieces and gives blocks of one length: the blocks, what is left,
-- and why the cuts between the pieces do not matter.
import Mathlib.Data.List.Basic

namespace blocks

variable {α : Type}

/-- The full blocks of the first elements, and what is left; the fuel bounds how many there are. -/
def cut (n : Nat) : Nat → List α → List (List α) × List α
  | 0, xs => ([], xs)
  | fuel + 1, xs =>
    if n ≤ xs.length then
      (xs.take n :: (cut n fuel (xs.drop n)).1, (cut n fuel (xs.drop n)).2)
    else ([], xs)

/-- All the blocks of a list, and what is left. -/
def drain (n : Nat) (xs : List α) : List (List α) × List α := cut n xs.length xs

/-- All the blocks of a list, of which the last may be short: what is left is one more. -/
def chunks (n : Nat) (xs : List α) : List (List α) :=
  (drain n xs).1 ++ if (drain n xs).2 = [] then [] else [(drain n xs).2]

/-- The list is these blocks and a rest that is shorter than one. -/
structure Cuts (n : Nat) (xs : List α) (parts : List (List α)) (rest : List α) : Prop where
  whole : xs = parts.flatten ++ rest
  full : ∀ part ∈ parts, part.length = n
  short : rest.length < n

variable {n : Nat} {xs ys rest rest' : List α} {parts parts' : List (List α)}

theorem cut_cuts (hn : 0 < n) (fuel : Nat) (xs : List α) (h : xs.length ≤ fuel) :
    Cuts n xs (cut n fuel xs).1 (cut n fuel xs).2 := by
  induction fuel generalizing xs with
  | zero =>
    obtain rfl : xs = [] := List.length_eq_zero_iff.mp (Nat.le_zero.mp h)
    exact ⟨rfl, by simp [cut], hn⟩
  | succ fuel ih =>
    unfold cut
    split
    · rename_i hle
      have hlen : (xs.drop n).length ≤ fuel := by
        rw [List.length_drop]
        omega
      obtain ⟨hwhole, hfull, hshort⟩ := ih (xs.drop n) hlen
      refine ⟨?_, ?_, hshort⟩
      · rw [List.flatten_cons, List.append_assoc, ← hwhole, List.take_append_drop]
      · rw [List.forall_mem_cons]
        exact ⟨List.length_take_of_le hle, hfull⟩
    · rename_i hlt
      exact ⟨rfl, by simp, Nat.lt_of_not_le hlt⟩

theorem drain_cuts (hn : 0 < n) (xs : List α) : Cuts n xs (drain n xs).1 (drain n xs).2 :=
  cut_cuts hn xs.length xs (Nat.le_refl _)

/-- There is one way to cut a list. -/
theorem Cuts.unique (h : Cuts n xs parts rest) (h' : Cuts n xs parts' rest') :
    parts = parts' ∧ rest = rest' := by
  obtain ⟨hwhole, hfull, hshort⟩ := h
  obtain ⟨hwhole', hfull', hshort'⟩ := h'
  induction parts generalizing xs parts' with
  | nil =>
    cases parts' with
    | nil => exact ⟨rfl, by simpa using hwhole.symm.trans hwhole'⟩
    | cons part parts' =>
      have hlen := congrArg List.length (hwhole.symm.trans hwhole')
      have hpart := hfull' part List.mem_cons_self
      simp only [List.flatten_nil, List.nil_append, List.flatten_cons, List.length_append] at hlen
      omega
  | cons part parts ih =>
    cases parts' with
    | nil =>
      have hlen := congrArg List.length (hwhole'.symm.trans hwhole)
      have hpart := hfull part List.mem_cons_self
      simp only [List.flatten_nil, List.nil_append, List.flatten_cons, List.length_append] at hlen
      omega
    | cons part' parts' =>
      rw [List.forall_mem_cons] at hfull hfull'
      have hsame := hwhole.symm.trans hwhole'
      rw [List.flatten_cons, List.flatten_cons, List.append_assoc, List.append_assoc] at hsame
      obtain ⟨rfl, hrest⟩ := List.append_inj hsame (hfull.1.trans hfull'.1.symm)
      obtain ⟨rfl, hend⟩ := @ih (parts.flatten ++ rest) parts' rfl hfull.2 hrest hfull'.2
      exact ⟨rfl, hend⟩

/-- What is left of the first piece is cut together with the next. -/
theorem drain_append (hn : 0 < n) (xs ys : List α) :
    drain n (xs ++ ys) =
      ((drain n xs).1 ++ (drain n ((drain n xs).2 ++ ys)).1, (drain n ((drain n xs).2 ++ ys)).2) := by
  obtain ⟨hwhole, hfull, -⟩ := drain_cuts hn xs
  obtain ⟨hwhole', hfull', hshort'⟩ := drain_cuts hn ((drain n xs).2 ++ ys)
  have hall : Cuts n (xs ++ ys) ((drain n xs).1 ++ (drain n ((drain n xs).2 ++ ys)).1)
      (drain n ((drain n xs).2 ++ ys)).2 := by
    refine ⟨?_, List.forall_mem_append.mpr ⟨hfull, hfull'⟩, hshort'⟩
    rw [List.flatten_append, List.append_assoc, ← hwhole', ← List.append_assoc, ← hwhole]
  obtain ⟨hparts, hrest⟩ := (drain_cuts hn (xs ++ ys)).unique hall
  exact Prod.ext hparts hrest

/-- What is left holds no block. -/
theorem drain_rest (hn : 0 < n) (xs : List α) : drain n (drain n xs).2 = ([], (drain n xs).2) := by
  have hrest : Cuts n (drain n xs).2 [] (drain n xs).2 := ⟨rfl, by simp, (drain_cuts hn xs).short⟩
  obtain ⟨hparts, hend⟩ := (drain_cuts hn (drain n xs).2).unique hrest
  exact Prod.ext hparts hend

/-- A list is its blocks, all full but the last, which is not empty. -/
theorem chunks_shape (hn : 0 < n) (hne : xs ≠ []) : ∃ front last, chunks n xs = front ++ [last] ∧
    (∀ part ∈ front, part.length = n) ∧ 0 < last.length ∧ last.length ≤ n ∧
      xs = (front ++ [last]).flatten := by
  obtain ⟨hwhole, hfull, hshort⟩ := drain_cuts hn xs
  unfold chunks
  split
  · rename_i hrest
    rw [hrest, List.append_nil] at hwhole
    rcases List.eq_nil_or_concat (drain n xs).1 with hnil | ⟨front, last, hparts⟩
    · rw [hnil] at hwhole
      exact absurd hwhole hne
    · rw [List.concat_eq_append] at hparts
      rw [hparts] at hwhole hfull ⊢
      rw [List.forall_mem_append] at hfull
      have hlast := hfull.2 last List.mem_cons_self
      exact ⟨front, last, by rw [List.append_nil], hfull.1, by omega, by omega, hwhole⟩
  · rename_i hrest
    refine ⟨_, _, rfl, hfull, List.length_pos_of_ne_nil hrest, Nat.le_of_lt hshort, ?_⟩
    rwa [List.flatten_append, List.flatten_singleton]

end blocks
