-- A buffer that takes a stream in pieces and gives the parts that end in a separator: the first part,
-- all the parts, and why the cuts between the pieces do not matter.
import Mathlib.Data.List.Basic

namespace buffered

variable {α : Type} {sep : α}

section Cuts
variable [DecidableEq α]

/-- The first part and what stands behind its separator. -/
def next (sep : α) : List α → Option (List α × List α)
  | [] => none
  | a :: rest =>
    if a = sep then some ([], rest) else (next sep rest).map (fun p => (a :: p.1, p.2))

/-- The parts that end, and what no separator follows. -/
def drain (sep : α) : List α → List (List α) × List α
  | [] => ([], [])
  | a :: rest =>
    if a = sep then ([] :: (drain sep rest).1, (drain sep rest).2)
    else
      match (drain sep rest).1 with
      | [] => ([], a :: (drain sep rest).2)
      | part :: parts => ((a :: part) :: parts, (drain sep rest).2)

end Cuts

/-- Parts on the wire, each with its separator. -/
def wire (sep : α) (parts : List (List α)) : List α := parts.flatMap (fun part => part ++ [sep])

@[simp] theorem wire_nil : wire sep [] = [] := rfl

@[simp] theorem wire_append (a b : List (List α)) : wire sep (a ++ b) = wire sep a ++ wire sep b := by
  simp [wire]

@[simp] theorem wire_cons (part : List α) (parts : List (List α)) :
    wire sep (part :: parts) = part ++ sep :: wire sep parts := by
  simp [wire]

variable [DecidableEq α]

/-! ## One part -/

theorem next_part {part : List α} (h : sep ∉ part) (rest : List α) :
    next sep (part ++ sep :: rest) = some (part, rest) := by
  induction part with
  | nil => simp [next]
  | cons a part ih =>
    simp only [List.mem_cons, not_or] at h
    rw [List.cons_append, next, if_neg (Ne.symm h.1), ih h.2]
    rfl

theorem next_none {xs : List α} (h : sep ∉ xs) : next sep xs = none := by
  induction xs with
  | nil => rfl
  | cons a xs ih =>
    simp only [List.mem_cons, not_or] at h
    rw [next, if_neg (Ne.symm h.1), ih h.2]
    rfl

/-! ## All the parts -/

@[simp] theorem drain_nil : drain sep [] = ([], []) := rfl

theorem drain_part {part : List α} (h : sep ∉ part) (rest : List α) :
    drain sep (part ++ sep :: rest) = (part :: (drain sep rest).1, (drain sep rest).2) := by
  induction part with
  | nil => simp [drain]
  | cons a part ih =>
    simp only [List.mem_cons, not_or] at h
    rw [List.cons_append, drain, if_neg (Ne.symm h.1), ih h.2]

theorem drain_open {xs : List α} (h : sep ∉ xs) : drain sep xs = ([], xs) := by
  induction xs with
  | nil => rfl
  | cons a xs ih =>
    simp only [List.mem_cons, not_or] at h
    rw [drain, if_neg (Ne.symm h.1), ih h.2]

theorem drain_wire {parts : List (List α)} (h : ∀ part ∈ parts, sep ∉ part) (rest : List α) :
    drain sep (wire sep parts ++ rest) = (parts ++ (drain sep rest).1, (drain sep rest).2) := by
  induction parts with
  | nil => simp
  | cons part parts ih =>
    rw [wire_cons, List.append_assoc, List.cons_append, drain_part (h part (by simp)),
      ih (fun p hp => h p (List.mem_cons_of_mem _ hp))]
    simp

/-- A stream is its parts and the rest. -/
theorem drain_spec (sep : α) (xs : List α) :
    xs = wire sep (drain sep xs).1 ++ (drain sep xs).2 ∧
      (∀ part ∈ (drain sep xs).1, sep ∉ part) ∧ sep ∉ (drain sep xs).2 := by
  induction xs with
  | nil => simp
  | cons a xs ih =>
    obtain ⟨heq, hparts, hrest⟩ := ih
    by_cases ha : a = sep
    · subst ha
      simp only [drain, if_true, wire_cons, List.nil_append, List.cons_append, ← heq,
        List.mem_cons, forall_eq_or_imp, List.not_mem_nil, not_false_iff, true_and]
      exact ⟨hparts, hrest⟩
    · rw [drain, if_neg ha]
      rcases hdrain : (drain sep xs).1 with _ | ⟨part, parts⟩
      · rw [hdrain] at heq
        simp only [wire_nil, List.nil_append] at heq
        rw [← heq] at hrest
        simp [← heq, Ne.symm ha, hrest]
      · rw [hdrain] at heq hparts
        simp only [List.mem_cons, forall_eq_or_imp] at hparts
        simp only [wire_cons, List.cons_append, List.append_assoc] at heq ⊢
        refine ⟨by rw [← heq], ?_, hrest⟩
        simp only [List.mem_cons, forall_eq_or_imp, not_or]
        exact ⟨⟨Ne.symm ha, hparts.1⟩, hparts.2⟩

/-- What is behind a cut is drained together with what the parts before it leave. -/
theorem drain_append (a b : List α) :
    drain sep (a ++ b) =
      ((drain sep a).1 ++ (drain sep ((drain sep a).2 ++ b)).1,
        (drain sep ((drain sep a).2 ++ b)).2) := by
  obtain ⟨heq, hparts, -⟩ := drain_spec sep a
  calc drain sep (a ++ b)
      = drain sep (wire sep (drain sep a).1 ++ ((drain sep a).2 ++ b)) := by
        rw [← List.append_assoc, ← heq]
    _ = _ := drain_wire hparts _

theorem wire_inj {a b : List (List α)} (ha : ∀ part ∈ a, sep ∉ part) (hb : ∀ part ∈ b, sep ∉ part) :
    wire sep a = wire sep b ↔ a = b := by
  constructor
  · intro h
    have hdrain := congrArg (fun xs => (drain sep (xs ++ [])).1) h
    rwa [drain_wire ha, drain_wire hb, drain_nil, List.append_nil, List.append_nil] at hdrain
  · rintro rfl
    rfl

/-- The first part, out of all of them. -/
theorem next_eq_none {xs : List α} : next sep xs = none ↔ (drain sep xs).1 = [] := by
  constructor
  · intro h
    obtain ⟨heq, hparts, -⟩ := drain_spec sep xs
    rcases hdrain : (drain sep xs).1 with _ | ⟨part, parts⟩
    · rfl
    · rw [hdrain] at heq hparts
      rw [heq, wire_cons, List.append_assoc, List.cons_append,
        next_part (hparts part (by simp))] at h
      cases h
  · intro h
    obtain ⟨heq, -, hrest⟩ := drain_spec sep xs
    rw [h, wire_nil, List.nil_append] at heq
    rw [heq]
    exact next_none hrest

theorem next_eq_some {xs part rest : List α} (h : next sep xs = some (part, rest)) :
    xs = part ++ sep :: rest ∧ sep ∉ part := by
  induction xs generalizing part with
  | nil => cases h
  | cons a xs ih =>
    rw [next] at h
    split at h
    · rename_i ha
      cases h
      simp [ha]
    · rename_i ha
      obtain ⟨⟨part', rest'⟩, hnext, heq⟩ := Option.map_eq_some_iff.mp h
      cases heq
      obtain ⟨rfl, hfree⟩ := ih hnext
      exact ⟨rfl, by simp [Ne.symm ha, hfree]⟩

end buffered
