-- Fields that are joined by a separator: what tells the fields from the whole.
import PersonalAi.Lib.Framing

namespace joined

open framing

variable {α : Type} [DecidableEq α] {sep : α}

/-- Nothing, or a separator and what is behind it. -/
def Tail (sep : α) (x : List α) : Prop := x = [] ∨ ∃ rest, x = sep :: rest

theorem last_then {p q x y : List α} (hx : Tail sep x) (hy : Tail sep y)
    (hcount : p.count sep = q.count sep) (h : p ++ x = q ++ y) : p = q ∧ x = y := by
  rcases hx with rfl | ⟨x, rfl⟩ <;> rcases hy with rfl | ⟨y, rfl⟩
  · simpa using h
  · -- the separator behind the one field would be one more in the other
    have hone := congrArg (List.count sep) h
    simp only [List.append_nil, List.count_append, List.count_cons_self] at hone
    omega
  · have hone := congrArg (List.count sep) h
    simp only [List.append_nil, List.count_append, List.count_cons_self] at hone
    omega
  · obtain ⟨hfield, hrest⟩ := part_ends hcount h
    exact ⟨hfield, by rw [hrest]⟩

/-- The fields can be told from the whole where the separator stands as often in each of them,
whatever stands behind the last one. -/
theorem joined_then {ps qs : List (List α)} {x y : List α} (hne : ps ≠ [])
    (hcount : ps.map (List.count sep) = qs.map (List.count sep)) (hx : Tail sep x) (hy : Tail sep y)
    (h : [sep].intercalate ps ++ x = [sep].intercalate qs ++ y) : ps = qs ∧ x = y := by
  induction ps generalizing qs with
  | nil => exact (hne rfl).elim
  | cons p ps ih =>
    cases qs with
    | nil => simp at hcount
    | cons q qs =>
      simp only [List.map_cons, List.cons.injEq] at hcount
      obtain ⟨hfirst, hothers⟩ := hcount
      cases ps with
      | nil =>
        cases qs with
        | nil =>
          simp only [List.intercalate_singleton] at h
          obtain ⟨hpq, hxy⟩ := last_then hx hy hfirst h
          exact ⟨by rw [hpq], hxy⟩
        | cons q' qs => simp at hothers
      | cons p' ps =>
        cases qs with
        | nil => simp at hothers
        | cons q' qs =>
          simp only [List.intercalate_cons_cons, List.append_assoc, List.singleton_append] at h
          obtain ⟨hpq, hrest⟩ := part_ends hfirst h
          obtain ⟨hfields, hxy⟩ := ih (by simp) hothers hrest
          exact ⟨by rw [hpq, hfields], hxy⟩

theorem joined_inj {ps qs : List (List α)}
    (hcount : ps.map (List.count sep) = qs.map (List.count sep))
    (h : [sep].intercalate ps = [sep].intercalate qs) : ps = qs := by
  cases ps with
  | nil => exact (List.map_eq_nil_iff.mp hcount.symm).symm
  | cons p ps =>
    apply (joined_then (by simp) hcount (.inl rfl) (.inl rfl) _).1
    rw [h]

/-- Fields without separators are told from the whole, if there is one at all. -/
theorem joined_free {ps qs : List (List α)} (hps : ∀ p ∈ ps, sep ∉ p) (hqs : ∀ q ∈ qs, sep ∉ q)
    (hp : ps ≠ []) (hq : qs ≠ []) (h : [sep].intercalate ps = [sep].intercalate qs) : ps = qs := by
  rw [← List.splitOn_intercalate sep hps hp, ← List.splitOn_intercalate sep hqs hq, h]

end joined
