-- A stable sort: one more element does not move the others, and the first elements of the sorted
-- list are those with few others in front of them.
import Mathlib.Data.List.Sort

namespace sorting

variable {α : Type} {r : α → α → Prop} [DecidableRel r]

/-- Insertion splits a list. -/
theorem orderedInsert_split (a : α) (l : List α) :
    ∃ x y, l.orderedInsert r a = x ++ a :: y ∧ l = x ++ y := by
  refine ⟨_, _, List.orderedInsert_eq_take_drop r a l, ?_⟩
  exact List.takeWhile_append_dropWhile.symm

/-- Inserting into a sorted list does not care for one more element that stands in
its place. -/
theorem orderedInsert_beside [IsTrans α r] (b a : α) (x y : List α)
    (hsorted : (x ++ a :: y).Pairwise r) :
    ∃ x' y', (x ++ a :: y).orderedInsert r b = x' ++ a :: y' ∧
      (x ++ y).orderedInsert r b = x' ++ y' := by
  induction x with
  | nil =>
    by_cases hba : r b a
    · refine ⟨[b], y, ?_, ?_⟩
      · simp [hba]
      · cases y with
        | nil => rfl
        | cons c y =>
          have hac : r a c := (List.pairwise_cons.mp hsorted).1 c List.mem_cons_self
          simp [IsTrans.trans b a c hba hac]
    · exact ⟨[], y.orderedInsert r b, by simp [hba], rfl⟩
  | cons c x ih =>
    by_cases hbc : r b c
    · exact ⟨b :: c :: x, y, by simp [hbc], by simp [hbc]⟩
    · obtain ⟨x', y', h, h'⟩ := ih (List.pairwise_cons.mp hsorted).2
      refine ⟨c :: x', y', ?_, ?_⟩
      · simp only [List.cons_append, List.orderedInsert, hbc, if_false, h]
      · simp only [List.cons_append, List.orderedInsert, hbc, if_false, h']

/-- One more element in the list is one more element in the sorted list. -/
theorem insertionSort_beside [IsTrans α r] [Std.Total r] (a : α) (x y : List α) :
    ∃ x' y', (x ++ a :: y).insertionSort r = x' ++ a :: y' ∧
      (x ++ y).insertionSort r = x' ++ y' := by
  induction x with
  | nil => exact orderedInsert_split a _
  | cons b x ih =>
    obtain ⟨x', y', h, h'⟩ := ih
    have hsorted : (x' ++ a :: y').Pairwise r := h ▸ List.pairwise_insertionSort r _
    obtain ⟨x'', y'', h₁, h₂⟩ := orderedInsert_beside b a x' y' hsorted
    refine ⟨x'', y'', ?_, ?_⟩
    · rw [List.cons_append, List.insertionSort_cons, h, h₁]
    · rw [List.cons_append, List.insertionSort_cons, h', h₂]

/-- A sort compares an element with those behind it only. -/
theorem insertionSort_congr {s : α → α → Prop} [DecidableRel s] {l : List α}
    (h : l.Pairwise (fun a b => r a b ↔ s a b)) : l.insertionSort r = l.insertionSort s := by
  induction l with
  | nil => rfl
  | cons a l ih =>
    obtain ⟨ha, hl⟩ := List.pairwise_cons.mp h
    have hinsert : ∀ sorted : List α, (∀ b ∈ sorted, b ∈ l) →
        sorted.orderedInsert r a = sorted.orderedInsert s a := by
      intro sorted hin
      induction sorted with
      | nil => rfl
      | cons b sorted ihs =>
        simp only [List.orderedInsert, ha b (hin b List.mem_cons_self)]
        split
        · rfl
        · rw [ihs fun c hc => hin c (List.mem_cons_of_mem _ hc)]
    rw [List.insertionSort_cons, List.insertionSort_cons, ih hl]
    exact hinsert _ fun b hb => (List.mem_insertionSort _).mp hb

/-! ## Positions -/

/-- An element, with its position in the list, goes in front of another one. -/
def Before (r : α → α → Prop) (x y : α × Nat) : Prop := r x.1 y.1 ∧ (r y.1 x.1 → x.2 < y.2)

instance (x y : α × Nat) : Decidable (Before r x y) := by
  unfold Before
  infer_instance

/-- How many elements of the list go in front of this one. -/
def ahead (r : α → α → Prop) [DecidableRel r] (l : List α) (y : α × Nat) : Nat :=
  l.zipIdx.countP (fun x => decide (Before r x y))

/-- Of a list in a strict order the first ones are those with few others in front. -/
theorem take_strict {lt : α → α → Prop} [DecidableRel lt] (hirrefl : ∀ a, ¬ lt a a)
    (hasymm : ∀ a b, lt a b → ¬ lt b a) {l : List α} (h : l.Pairwise lt) (n : Nat) :
    l.take n = l.filter (fun y => l.countP (fun x => decide (lt x y)) < n) := by
  induction l generalizing n with
  | nil => simp
  | cons a l ih =>
    obtain ⟨ha, hl⟩ := List.pairwise_cons.mp h
    have hfirst : (a :: l).countP (fun x => decide (lt x a)) = 0 := by
      rw [List.countP_eq_zero]
      intro x hx
      rcases List.mem_cons.mp hx with rfl | hx
      · simpa using hirrefl x
      · simpa using hasymm a x (ha x hx)
    have hrest : ∀ y ∈ l, (a :: l).countP (fun x => decide (lt x y)) =
        l.countP (fun x => decide (lt x y)) + 1 :=
      fun y hy => List.countP_cons_of_pos (by simpa using ha y hy)
    cases n with
    | zero => simp
    | succ n =>
      rw [List.take_succ_cons, ih hl, List.filter_cons_of_pos (by simp [hfirst])]
      refine congrArg (a :: ·) (List.filter_congr fun y hy => ?_)
      rw [hrest y hy]
      simp

/-- The first `n` of the sorted list are the elements with fewer than `n` others in front. -/
theorem take_insertionSort [IsTrans α r] [Std.Total r] (l : List α) (n : Nat) :
    ((l.insertionSort r).take n).Perm
      ((l.zipIdx.filter fun x => ahead r l x < n).map Prod.fst) := by
  let lex (x y : α × Nat) : Prop := r x.1 y.1 ∧ (r y.1 x.1 → x.2 ≤ y.2)
  have hdec : DecidableRel lex := fun x y => inferInstanceAs (Decidable (_ ∧ _))
  have htrans : IsTrans (α × Nat) lex := by
    refine ⟨fun x y z hxy hyz => ⟨IsTrans.trans _ _ _ hxy.1 hyz.1, fun hzx => ?_⟩⟩
    have hyx := hxy.2 (IsTrans.trans _ _ _ hyz.1 hzx)
    have hzy := hyz.2 (IsTrans.trans _ _ _ hzx hxy.1)
    exact hyx.trans hzy
  have htotal : Std.Total lex := by
    refine ⟨fun x y => ?_⟩
    by_cases hxy : r x.1 y.1
    · by_cases hyx : r y.1 x.1
      · rcases Nat.le_total x.2 y.2 with h | h
        · exact .inl ⟨hxy, fun _ => h⟩
        · exact .inr ⟨hyx, fun _ => h⟩
      · exact .inl ⟨hxy, fun h => absurd h hyx⟩
    · have hyx := (Std.Total.total (r := r) x.1 y.1).resolve_left hxy
      exact .inr ⟨hyx, fun h => absurd h hxy⟩
  have hpositions : l.zipIdx.Pairwise (fun x y => x.2 < y.2) := by
    have hrange := List.pairwise_lt_range' (s := 0) (n := l.length)
    rw [← List.zipIdx_map_snd 0 l, List.pairwise_map] at hrange
    exact hrange
  have hsame : (l.zipIdx.insertionSort lex).map Prod.fst = l.insertionSort r := by
    have hcongr : l.zipIdx.insertionSort lex =
        l.zipIdx.insertionSort (fun x y => r x.1 y.1) := by
      refine insertionSort_congr (hpositions.imp fun hlt => ⟨And.left, fun hr => ⟨hr, fun _ => ?_⟩⟩)
      exact Nat.le_of_lt hlt
    have hmap := List.map_insertionSort (fun x y : α × Nat => r x.1 y.1) r Prod.fst l.zipIdx
      fun _ _ _ _ => Iff.rfl
    rw [hcongr, hmap, List.zipIdx_map_fst]
  have hperm := List.perm_insertionSort lex l.zipIdx
  have hstrict : (l.zipIdx.insertionSort lex).Pairwise (Before r) := by
    have hne : (l.zipIdx.insertionSort lex).Pairwise (fun x y => x.2 ≠ y.2) := by
      refine (hperm.pairwise_iff fun h => h.symm).mpr ?_
      exact hpositions.imp Nat.ne_of_lt
    refine (List.pairwise_insertionSort lex _).imp₂ (fun x y hlex hxy => ?_) hne
    exact ⟨hlex.1, fun hyx => Nat.lt_of_le_of_ne (hlex.2 hyx) hxy⟩
  have hcut := @take_strict _ (Before r) _ (fun x h => absurd (h.2 h.1) (Nat.lt_irrefl _))
    (fun x y hxy hyx => Nat.lt_asymm (hxy.2 hyx.1) (hyx.2 hxy.1)) _ hstrict n
  rw [← hsame, ← List.map_take, hcut]
  have hahead : ∀ y, (l.zipIdx.insertionSort lex).countP (fun x => decide (Before r x y)) =
      ahead r l y := fun y => hperm.countP_eq _
  simp only [hahead]
  exact (hperm.filter _).map _

/-- The first `n` of the sorted list have different values of `f` where no two elements with one
value have both fewer than `n` others in front. -/
theorem nodup_take_insertionSort {β : Type} (f : α → β) [IsTrans α r] [Std.Total r] (l : List α)
    (n : Nat) : (((l.insertionSort r).take n).map f).Nodup ↔
      ∀ x ∈ l.zipIdx, ∀ y ∈ l.zipIdx, f x.1 = f y.1 → ahead r l x < n → ahead r l y < n →
        x = y := by
  have hpositions : l.zipIdx.Nodup := by
    refine List.Nodup.of_map Prod.snd ?_
    rw [List.zipIdx_map_snd]
    exact List.nodup_range'
  rw [((take_insertionSort l n).map f).nodup_iff, List.map_map,
    List.nodup_map_iff_inj_on (hpositions.filter _)]
  simp only [List.mem_filter, decide_eq_true_eq, Function.comp_apply]
  constructor
  · intro h x hx y hy hf hxn hyn
    exact h x ⟨hx, hxn⟩ y ⟨hy, hyn⟩ hf
  · rintro h x ⟨hx, hxn⟩ y ⟨hy, hyn⟩ hf
    exact h x hx y hy hf hxn hyn

end sorting
