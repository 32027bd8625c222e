-- Searching and replacing in a text: which occurrence is found first, and what `str::replace` does at
-- the occurrences and between them.
import PersonalAi.Lib.Chars

namespace text

variable {pat new : List Char}

/-- No end of the pattern but the whole is also a start of it. -/
def Borderless (pat : List Char) : Prop :=
  ∀ k, 0 < k → k < pat.length → ¬ pat.drop k <+: pat

theorem split_once_str_here (hne : pat ≠ []) (b : List Char) :
    split_once_str pat (pat ++ b) = some ([], b) := by
  cases pat with
  | nil => exact (hne rfl).elim
  | cons c rest =>
    rw [List.cons_append, split_once_str, if_pos]
    · rw [← List.cons_append, List.drop_left]
    · rw [← List.cons_append]
      exact List.isPrefixOf_iff_prefix.mpr (List.prefix_append _ _)

theorem contains_str_iff {cs : List Char} : contains_str pat cs = true ↔ pat <:+: cs := by
  unfold contains_str
  induction cs with
  | nil =>
    unfold split_once_str
    by_cases hnil : pat = []
    · simp [hnil]
    · simp [hnil]
  | cons c rest ih =>
    unfold split_once_str
    rw [List.infix_cons_iff, ← List.isPrefixOf_iff_prefix]
    by_cases hhere : pat.isPrefixOf (c :: rest) = true
    · simp [hhere]
    · rw [if_neg hhere, Option.isSome_map, ih]
      simp [hhere]

/-- What begins inside the first part and is no part of it reaches over its end. -/
theorem prefix_over {a b : List Char} (h : pat <+: a ++ b) (ha : ¬ pat <+: a) :
    a.length < pat.length ∧ pat.drop a.length <+: b := by
  have hlong : a.length < pat.length := by
    by_contra hshort
    exact ha (List.prefix_of_prefix_length_le h (List.prefix_append _ _) (by omega))
  refine ⟨hlong, ?_⟩
  obtain ⟨t, ht⟩ := h
  refine ⟨t, ?_⟩
  have hdrop := congrArg (List.drop a.length) ht
  rwa [List.drop_left, List.drop_append_of_le_length (by omega)] at hdrop

/-- A pattern that does not overlap itself is found where it first stands. -/
theorem split_once_str_first (hpat : Borderless pat) (hne : pat ≠ []) {a : List Char}
    (ha : ¬ pat <:+: a) (b : List Char) : split_once_str pat (a ++ (pat ++ b)) = some (a, b) := by
  induction a with
  | nil => exact split_once_str_here hne b
  | cons c a ih =>
    rw [List.infix_cons_iff, not_or] at ha
    rw [List.cons_append, split_once_str, if_neg, ih ha.2]
    · rfl
    · intro hhere
      rw [List.isPrefixOf_iff_prefix, ← List.cons_append] at hhere
      obtain ⟨hlong, hover⟩ := prefix_over hhere ha.1
      refine hpat (c :: a).length (by simp) hlong ?_
      exact List.prefix_of_prefix_length_le hover (List.prefix_append _ _) (by simp)

/-! ## A longer and a shorter text -/

/-- What is before the first character stands before it, and has none. -/
theorem split_once_spec {c : Char} {s a b : List Char} (h : split_once c s = some (a, b)) :
    s = a ++ c :: b ∧ c ∉ a := by
  induction s generalizing a with
  | nil => cases h
  | cons d rest ih =>
    unfold split_once at h
    split at h
    · rename_i hd
      cases h
      rw [hd]
      simp
    · rename_i hd
      obtain ⟨⟨a', b'⟩, hrest, hp⟩ := Option.map_eq_some_iff.mp h
      cases hp
      obtain ⟨hsplit, hfree⟩ := ih hrest
      refine ⟨by rw [hsplit]; rfl, ?_⟩
      simp [Ne.symm hd, hfree]

/-- A first occurrence is where it was when the text grows. -/
theorem split_once_str_append {s a b : List Char} (h : split_once_str pat s = some (a, b))
    (t : List Char) : split_once_str pat (s ++ t) = some (a, b ++ t) ∧ s = a ++ pat ++ b := by
  induction s generalizing a with
  | nil =>
    unfold split_once_str at h
    split at h
    · rename_i hnil
      cases h
      subst hnil
      refine ⟨?_, rfl⟩
      cases t <;> simp [split_once_str]
    · cases h
  | cons c rest ih =>
    unfold split_once_str at h
    split at h
    · rename_i hhere
      cases h
      have hprefix : pat <+: c :: rest := List.isPrefixOf_iff_prefix.mp hhere
      obtain ⟨tail, htail⟩ := hprefix
      have hdrop : (c :: rest).drop pat.length = tail := by rw [← htail, List.drop_left]
      refine ⟨?_, ?_⟩
      · rw [List.cons_append]
        unfold split_once_str
        rw [if_pos]
        · rw [← List.cons_append, hdrop, ← htail, List.append_assoc, List.drop_left]
        · rw [← List.cons_append, List.isPrefixOf_iff_prefix]
          exact ⟨tail ++ t, by rw [← List.append_assoc, htail]⟩
      · rw [hdrop, List.nil_append, htail]
    · rename_i hhere
      obtain ⟨⟨a', b'⟩, hrest, hp⟩ := Option.map_eq_some_iff.mp h
      cases hp
      obtain ⟨happend, hsplit⟩ := ih hrest
      refine ⟨?_, by rw [hsplit]; rfl⟩
      rw [List.cons_append]
      unfold split_once_str
      rw [if_neg, happend]
      · rfl
      · -- the rest is long enough to decide the occurrence here
        rw [← List.cons_append, List.isPrefixOf_iff_prefix] at *
        intro hnew
        apply hhere
        refine List.prefix_of_prefix_length_le hnew (List.prefix_append _ _) ?_
        rw [hsplit]
        simp
        omega

theorem prefix_of_take {s : List Char} {n : Nat} (h : pat <+: s) (hn : pat.length ≤ n) :
    pat <+: s.take n := by
  obtain ⟨t, rfl⟩ := h
  rw [List.take_append, List.take_of_length_le hn]
  exact List.prefix_append _ _

/-- It is found in every start of the text that holds it. -/
theorem split_once_str_take {s a b : List Char} (h : split_once_str pat s = some (a, b))
    {n : Nat} (hn : a.length + pat.length ≤ n) : ∃ b', split_once_str pat (s.take n) = some (a, b') := by
  induction s generalizing a n with
  | nil =>
    refine ⟨b, ?_⟩
    rw [List.take_nil]
    exact h
  | cons c rest ih =>
    unfold split_once_str at h
    split at h
    · rename_i hhere
      cases h
      have hprefix := prefix_of_take (List.isPrefixOf_iff_prefix.mp hhere) (by simpa using hn)
      rw [← List.isPrefixOf_iff_prefix] at hprefix
      rcases hcut : (c :: rest).take n with _ | ⟨d, rest'⟩
      · have hnil : pat = [] := by
          rw [hcut] at hprefix
          cases pat with
          | nil => rfl
          | cons => cases hprefix
        exact ⟨[], by rw [hnil]; rfl⟩
      · rw [hcut] at hprefix
        refine ⟨(d :: rest').drop pat.length, ?_⟩
        unfold split_once_str
        rw [if_pos hprefix]
    · rename_i hhere
      obtain ⟨⟨a', b'⟩, hrest, hp⟩ := Option.map_eq_some_iff.mp h
      cases hp
      obtain ⟨m, rfl⟩ : ∃ m, n = m + 1 := ⟨n - 1, by simp at hn; omega⟩
      have hm : a'.length + pat.length ≤ m := by simp at hn; omega
      obtain ⟨b'', hcut⟩ := ih hrest hm
      refine ⟨b'', ?_⟩
      rw [List.take_succ_cons]
      unfold split_once_str
      rw [if_neg, hcut]
      · rfl
      · intro hnew
        apply hhere
        rw [List.isPrefixOf_iff_prefix] at hnew ⊢
        rw [← List.take_succ_cons] at hnew
        exact hnew.trans (List.take_prefix _ _)

/-! ## Replacing -/

theorem replace_from_skip (t rest : List Char) :
    replace_from pat new t.length (t ++ rest) = replace_from pat new 0 rest := by
  induction t with
  | nil => rfl
  | cons c t ih => exact ih

/-- An occurrence is replaced. -/
theorem replace_from_hit (hne : pat ≠ []) (rest : List Char) :
    replace_from pat new 0 (pat ++ rest) = new ++ replace_from pat new 0 rest := by
  cases pat with
  | nil => exact (hne rfl).elim
  | cons c t =>
    rw [List.cons_append, replace_from, if_pos]
    · rw [List.length_cons, Nat.add_sub_cancel, replace_from_skip]
    · rw [← List.cons_append]
      exact List.isPrefixOf_iff_prefix.mpr (List.prefix_append _ _)

/-- A stretch in which no occurrence begins is kept. -/
theorem replace_from_miss {t rest : List Char}
    (h : ∀ k < t.length, ¬ pat <+: (t ++ rest).drop k) :
    replace_from pat new 0 (t ++ rest) = t ++ replace_from pat new 0 rest := by
  induction t with
  | nil => rfl
  | cons c t ih =>
    rw [List.cons_append, replace_from, if_neg, ih]
    · rfl
    · intro k hk
      exact h (k + 1) (by simpa using hk)
    · intro hhere
      exact h 0 (by simp) (List.isPrefixOf_iff_prefix.mp hhere)

/-- A pattern put in the place of itself changes nothing. -/
theorem replace_from_self (hne : pat ≠ []) (n : Nat) (cs : List Char) :
    replace_from pat pat n cs = cs.drop n := by
  induction cs generalizing n with
  | nil => cases n <;> rfl
  | cons c rest ih =>
    cases n with
    | succ n => exact ih n
    | zero =>
      rw [replace_from]
      by_cases hhere : pat.isPrefixOf (c :: rest) = true
      · rw [if_pos hhere, ih]
        obtain ⟨t, ht⟩ := List.isPrefixOf_iff_prefix.mp hhere
        cases pat with
        | nil => exact (hne rfl).elim
        | cons d pat =>
          cases ht
          simp
      · rw [if_neg hhere, ih]
        rfl

/-- A character is replaced wherever it stands. -/
theorem replace_from_char (c : Char) (new cs : List Char) :
    replace_from [c] new 0 cs = cs.flatMap (fun d => if d = c then new else [d]) := by
  induction cs with
  | nil => rfl
  | cons d cs ih =>
    rw [List.flatMap_cons, ← ih]
    by_cases hd : d = c
    · rw [if_pos hd, hd]
      exact replace_from_hit (by simp) cs
    · rw [if_neg hd]
      refine replace_from_miss (t := [d]) ?_
      simpa [List.prefix_iff_eq_take] using Ne.symm hd

/-! ## Texts that go on with a marked character -/

variable {c : Char} {q a b : List Char}

/-- A pattern that has the mark at its start at most does not reach over a place where the text goes
on with the mark. -/
theorem infix_append_split (hq : c ∉ q.tail) (hb : b = [] ∨ b.head? = some c) (h : q <:+: a ++ b) :
    q <:+: a ∨ q <:+: b := by
  induction a with
  | nil => exact .inr h
  | cons x a ih =>
    rw [List.cons_append, List.infix_cons_iff] at h
    rcases h with hhere | hlater
    · by_cases hin : q <+: x :: a
      · exact .inl hin.isInfix
      · obtain ⟨hlong, hover⟩ := prefix_over (a := x :: a) hhere hin
        rcases hb with rfl | hb
        · have hnil := List.eq_nil_of_prefix_nil hover
          rw [List.drop_eq_nil_iff] at hnil
          omega
        · refine absurd ?_ hq
          obtain ⟨b', rfl⟩ : ∃ b', b = c :: b' := by
            cases b with
            | nil => cases hb
            | cons d b' => exact ⟨b', by rw [Option.some.inj hb]⟩
          obtain ⟨d, rest, hdrop⟩ := List.exists_cons_of_ne_nil
            (fun hnil => absurd (List.drop_eq_nil_iff.mp hnil) (Nat.not_le.mpr hlong) :
              q.drop (x :: a).length ≠ [])
          rw [hdrop, List.cons_prefix_cons] at hover
          obtain rfl := hover.1
          have hmem : d ∈ q.drop (x :: a).length := by rw [hdrop]; exact List.mem_cons_self
          cases q with
          | nil => cases hdrop
          | cons e q => exact List.mem_of_mem_drop hmem
    · exact (ih hlater).imp_left fun h => List.infix_cons h

/-- A pattern that begins with the mark begins behind a text without it. -/
theorem infix_append_free {r : List Char} (ha : c ∉ a) (h : c :: r <:+: a ++ b) : c :: r <:+: b := by
  induction a with
  | nil => exact h
  | cons x a ih =>
    rw [List.mem_cons, not_or] at ha
    rw [List.cons_append, List.infix_cons_iff, List.cons_prefix_cons] at h
    rcases h with hhere | hlater
    · exact absurd hhere.1 ha.1
    · exact ih ha.2 hlater

/-! ### Replacing what begins with the mark -/

section Marked
variable {p n r : List Char}

/-- A text without the mark stands at the start of both or of neither. -/
theorem prefix_replace_marked (hr : c ∉ r) (cs : List Char) :
    r <+: replace_from (c :: p) (c :: n) 0 cs ↔ r <+: cs := by
  induction r generalizing cs with
  | nil => exact iff_of_true (List.nil_prefix) (List.nil_prefix)
  | cons d r ih =>
    rw [List.mem_cons, not_or] at hr
    cases cs with
    | nil => exact Iff.rfl
    | cons e cs =>
      by_cases hhere : (c :: p).isPrefixOf (e :: cs) = true
      · rw [replace_from, if_pos hhere, List.cons_append, List.cons_prefix_cons,
          List.cons_prefix_cons]
        obtain ⟨rfl, -⟩ := List.cons_prefix_cons.mp (List.isPrefixOf_iff_prefix.mp hhere)
        exact iff_of_false (fun h => hr.1 h.1.symm) (fun h => hr.1 h.1.symm)
      · rw [replace_from, if_neg hhere, List.cons_prefix_cons, List.cons_prefix_cons, ih hr.2]

/-- Another pattern with the mark at its start is where it was. -/
theorem infix_replace_marked (hp : c ∉ p) (hn : c ∉ n) (hr : c ∉ r)
    (hpat : ∀ x, ¬ c :: r <+: c :: (p ++ x)) (hnew : ∀ x, ¬ c :: r <+: c :: (n ++ x))
    (cs : List Char) : c :: r <:+: replace_from (c :: p) (c :: n) 0 cs ↔ c :: r <:+: cs := by
  induction hlength : cs.length using Nat.strong_induction_on generalizing cs with
  | _ len ih =>
    subst hlength
    cases cs with
    | nil => exact Iff.rfl
    | cons e cs =>
      by_cases hhere : (c :: p).isPrefixOf (e :: cs) = true
      · obtain ⟨t, ht⟩ := List.isPrefixOf_iff_prefix.mp hhere
        have hshort : t.length < (e :: cs).length := by
          rw [← ht, List.length_append, List.length_cons]
          omega
        rw [← ht, replace_from_hit (List.cons_ne_nil c p), List.cons_append, List.cons_append,
          List.infix_cons_iff, List.infix_cons_iff, or_iff_right (hnew _), or_iff_right (hpat _)]
        refine Iff.trans ?_ ((ih t.length hshort t rfl).trans ?_)
        · exact ⟨infix_append_free hn, fun h => h.trans (List.suffix_append n _).isInfix⟩
        · exact ⟨fun h => h.trans (List.suffix_append p _).isInfix, infix_append_free hp⟩
      · rw [replace_from, if_neg hhere, List.infix_cons_iff, List.infix_cons_iff,
          ih cs.length (Nat.lt_succ_self _) cs rfl, List.cons_prefix_cons, List.cons_prefix_cons,
          prefix_replace_marked hr]

/-- The pattern is nowhere any more. -/
theorem not_infix_replaced (hp : c ∉ p) (hn : c ∉ n) (hnew : ∀ x, ¬ c :: p <+: c :: (n ++ x))
    (cs : List Char) : ¬ c :: p <:+: replace_from (c :: p) (c :: n) 0 cs := by
  induction hlength : cs.length using Nat.strong_induction_on generalizing cs with
  | _ len ih =>
    subst hlength
    cases cs with
    | nil => simp [replace_from]
    | cons e cs =>
      by_cases hhere : (c :: p).isPrefixOf (e :: cs) = true
      · obtain ⟨t, ht⟩ := List.isPrefixOf_iff_prefix.mp hhere
        have hshort : t.length < (e :: cs).length := by
          rw [← ht, List.length_append, List.length_cons]
          omega
        rw [← ht, replace_from_hit (List.cons_ne_nil c p), List.cons_append, List.infix_cons_iff,
          or_iff_right (hnew _)]
        exact fun h => ih t.length hshort t rfl (infix_append_free hn h)
      · rw [replace_from, if_neg hhere, List.infix_cons_iff, not_or, List.cons_prefix_cons,
          prefix_replace_marked hp]
        refine ⟨fun h => hhere ?_, ih cs.length (Nat.lt_succ_self _) cs rfl⟩
        rw [List.isPrefixOf_iff_prefix, List.cons_prefix_cons]
        exact h

end Marked

end text
