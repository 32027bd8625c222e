-- Lines of a stream: the cut at a line end of two symbols, the classes of lines that the cut
-- keeps whole, and the fields that are folded over several lines.
import Mathlib.Data.List.Chain

namespace lines

variable {α : Type} {cr lf : α}

/-- Nowhere do the two symbols stand one behind the other. -/
def Unbroken (cr lf : α) (xs : List α) : Prop := xs.IsChain fun a b => ¬ (a = cr ∧ b = lf)

/-! ## The cut -/

section Cut
variable [DecidableEq α]

/-- The parts between the line ends. The last is what no line end follows. -/
def cut (cr lf : α) : List α → List (List α)
  | [] => [[]]
  | [a] => [[a]]
  | a :: b :: rest =>
    if a = cr ∧ b = lf then [] :: cut cr lf rest
    else (cut cr lf (b :: rest)).modifyHead (a :: ·)

theorem cut_nil (cr lf : α) : cut cr lf [] = [[]] := rfl

theorem cut_one (cr lf a : α) : cut cr lf [a] = [[a]] := rfl

theorem cut_cons (cr lf a b : α) (rest : List α) : cut cr lf (a :: b :: rest) =
    if a = cr ∧ b = lf then [] :: cut cr lf rest
    else (cut cr lf (b :: rest)).modifyHead (a :: ·) :=
  rfl

/-- The lines that have their end. -/
def complete (cr lf : α) (xs : List α) : List (List α) := (cut cr lf xs).dropLast

instance (cr lf : α) (xs : List α) : Decidable (Unbroken cr lf xs) :=
  inferInstanceAs (Decidable (xs.IsChain _))

theorem cut_ne_nil (xs : List α) : cut cr lf xs ≠ [] := by
  induction xs using cut.induct cr lf with
  | case1 => simp [cut_nil]
  | case2 => simp [cut_one]
  | case3 a b rest h _ => simp [cut_cons, h]
  | case4 a b rest h ih => simpa [cut_cons, h] using ih

/-- The first part starts as the stream does. -/
theorem cut_head (b : α) (rest : List α) {p : List α} {ps : List (List α)}
    (h : cut cr lf (b :: rest) = p :: ps) : p = [] ∨ p.head? = some b := by
  cases rest with
  | nil =>
    simp only [cut_one, List.cons.injEq] at h
    right
    simp [← h.1]
  | cons c rest =>
    rw [cut_cons] at h
    split at h
    · left
      exact (List.cons.inj h).1.symm
    · right
      obtain ⟨q, qs, hq⟩ := List.exists_cons_of_ne_nil (@cut_ne_nil _ cr lf _ (c :: rest))
      rw [hq, List.modifyHead_cons] at h
      simp [← (List.cons.inj h).1]

theorem unbroken_of_mem_cut {xs p : List α} (h : p ∈ cut cr lf xs) : Unbroken cr lf p := by
  induction xs using cut.induct cr lf generalizing p with
  | case1 =>
    simp only [cut_nil, List.mem_singleton] at h
    simp [h, Unbroken]
  | case2 a =>
    simp only [cut_one, List.mem_singleton] at h
    simp [h, Unbroken]
  | case3 a b rest hend ih =>
    rw [cut_cons, if_pos hend] at h
    rcases List.mem_cons.mp h with rfl | h
    · simp [Unbroken]
    · apply ih
      exact h
  | case4 a b rest hend ih =>
    rw [cut_cons, if_neg hend] at h
    obtain ⟨q, qs, hq⟩ := List.exists_cons_of_ne_nil (@cut_ne_nil _ cr lf _ (b :: rest))
    rw [hq, List.modifyHead_cons] at h
    rcases List.mem_cons.mp h with rfl | h
    · have hunbroken : Unbroken cr lf q := ih (by simp [hq])
      -- the part goes on with `b`, if it goes on
      apply List.isChain_cons.mpr
      refine ⟨fun c hc => ?_, hunbroken⟩
      rcases cut_head b rest hq with rfl | hhead
      · simp at hc
      · rw [hhead] at hc
        simp only [Option.mem_some_iff] at hc
        rwa [← hc]
    · apply ih
      simp [hq, h]

theorem cut_line (hne : cr ≠ lf) {l : List α} (h : Unbroken cr lf l) (rest : List α) :
    cut cr lf (l ++ cr :: lf :: rest) = l :: cut cr lf rest := by
  induction l with
  | nil => simp [cut_cons]
  | cons a l ih =>
    have htail := ih h.tail
    cases l with
    | nil =>
      simp only [List.cons_append, List.nil_append] at htail ⊢
      rw [cut_cons, if_neg (by simp [hne]), htail, List.modifyHead_cons]
    | cons b l =>
      simp only [List.cons_append] at htail ⊢
      rw [cut_cons, if_neg h.rel, htail, List.modifyHead_cons]

theorem cut_last {l : List α} (h : Unbroken cr lf l) : cut cr lf l = [l] := by
  induction l with
  | nil => rfl
  | cons a l ih =>
    cases l with
    | nil => rfl
    | cons b l => rw [cut_cons, if_neg h.rel, ih h.tail, List.modifyHead_cons]

theorem complete_line (hne : cr ≠ lf) {l : List α} (h : Unbroken cr lf l) (rest : List α) :
    complete cr lf (l ++ cr :: lf :: rest) = l :: complete cr lf rest := by
  rw [complete, cut_line hne h, List.dropLast_cons_of_ne_nil (cut_ne_nil rest), complete]

@[simp] theorem complete_nil : complete cr lf [] = [] := rfl

theorem unbroken_of_mem_complete {xs p : List α} (h : p ∈ complete cr lf xs) :
    Unbroken cr lf p :=
  unbroken_of_mem_cut (List.dropLast_subset _ h)

end Cut

/-! ## Classes of lines -/

/-- A class that a line stays in with its parts, and that does not look across symbols between
two parts that are no line end. -/
structure LineClass (cr lf : α) (Good : List α → Prop) : Prop where
  none : Good []
  part : ∀ {a b}, b <:+: a → Good a → Good b
  append : ∀ {a s b}, s ≠ [] → cr ∉ s → lf ∉ s → (Good (a ++ s ++ b) ↔ Good a ∧ Good b)

theorem free_class (cr lf : α) : LineClass cr lf (lf ∉ ·) :=
  { none := by simp
    part := fun h ha hb => ha (h.subset hb)
    append := by
      intro a s b _ _ hlf
      simp [hlf] }

theorem unbroken_class (cr lf : α) : LineClass cr lf (Unbroken cr lf) :=
  { none := by simp [Unbroken]
    part := fun h ha => ha.infix h
    append := by
      intro a s b hs hcr hlf
      have hown : Unbroken cr lf s := by
        apply List.Pairwise.isChain
        apply List.pairwise_of_forall_mem_list
        rintro x hx y - ⟨rfl, -⟩
        exact hcr hx
      constructor
      · intro h
        exact ⟨h.left_of_append.left_of_append, h.right_of_append⟩
      · rintro ⟨ha, hb⟩
        refine (ha.append hown ?_).append hb ?_
        · rintro x - y hy ⟨-, rfl⟩
          exact hlf (List.mem_of_mem_head? hy)
        · rintro x hx y - ⟨rfl, -⟩
          rw [List.getLast?_append_of_ne_nil a hs] at hx
          exact hcr (List.mem_of_mem_getLast? hx) }

theorem unbroken_of_free {l : List α} (h : lf ∉ l) : Unbroken cr lf l := by
  apply List.Pairwise.isChain
  apply List.pairwise_of_forall_mem_list
  rintro x - y hy ⟨-, rfl⟩
  exact h hy

/-! ## Folded fields -/

/-- Lines that begin with a fold go on the line before them. -/
def unfold_from (is_fold : α → Bool) (line : List α) : List (List α) → List (List α)
  | [] => [line]
  | next :: rest =>
    if next.head?.any is_fold then unfold_from is_fold (line ++ next) rest
    else line :: unfold_from is_fold next rest

def unfolded (is_fold : α → Bool) : List (List α) → List (List α)
  | [] => []
  | line :: rest => unfold_from is_fold line rest

theorem unfolded_plain {is_fold : α → Bool} {ls : List (List α)}
    (h : ∀ l ∈ ls, l.head?.any is_fold = false) : unfolded is_fold ls = ls := by
  have hfrom : ∀ (line : List α) (rest : List (List α)),
      (∀ l ∈ rest, l.head?.any is_fold = false) → unfold_from is_fold line rest = line :: rest := by
    intro line rest hrest
    induction rest generalizing line with
    | nil => rfl
    | cons next rest ih =>
      simp only [List.forall_mem_cons] at hrest
      rw [unfold_from, hrest.1, if_neg Bool.false_ne_true, ih next hrest.2]
  cases ls with
  | nil => rfl
  | cons line rest =>
    simp only [List.forall_mem_cons] at h
    exact hfrom line rest h.2

/-- Unfolding stays in a class, where a fold is no part of a line end. -/
theorem unfolded_good {Good : List α → Prop} (hclass : LineClass cr lf Good) {is_fold : α → Bool}
    (hcr : is_fold cr = false) (hlf : is_fold lf = false) {ls : List (List α)}
    (h : ∀ l ∈ ls, Good l) : ∀ l ∈ unfolded is_fold ls, Good l := by
  have hfrom : ∀ (line : List α) (rest : List (List α)), Good line → (∀ l ∈ rest, Good l) →
      ∀ l ∈ unfold_from is_fold line rest, Good l := by
    intro line rest hline hrest
    induction rest generalizing line with
    | nil =>
      simp only [unfold_from, List.mem_singleton]
      rintro l rfl
      exact hline
    | cons next rest ih =>
      simp only [List.forall_mem_cons] at hrest
      rw [unfold_from]
      split
      · rename_i hfold
        apply ih _ _ hrest.2
        cases next with
        | nil => simp at hfold
        | cons a next =>
          simp only [List.head?_cons, Option.any_some] at hfold
          have hne : [a] ≠ ([] : List α) := by simp
          have hcr' : cr ∉ [a] := by
            simp only [List.mem_singleton]
            rintro rfl
            simp [hcr] at hfold
          have hlf' : lf ∉ [a] := by
            simp only [List.mem_singleton]
            rintro rfl
            simp [hlf] at hfold
          have hnext : Good next := hclass.part (List.suffix_cons a next).isInfix hrest.1
          simpa using (hclass.append hne hcr' hlf').mpr ⟨hline, hnext⟩
      · simp only [List.forall_mem_cons]
        exact ⟨hline, ih next hrest.1 hrest.2⟩
  cases ls with
  | nil => simp [unfolded]
  | cons line rest =>
    simp only [List.forall_mem_cons] at h
    exact hfrom line rest h.1 h.2

end lines
