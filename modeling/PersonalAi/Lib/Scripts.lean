-- Scripts of statements that commit one by one, in numbered batches: what a later
-- run makes of a script that stopped on the way.
import Mathlib.Data.List.Basic

namespace scripts

/-- A store that statements change. A statement that was executed once has its
effect from then on; a repeatable one then does nothing more, and any other one
fails. -/
structure Dialect (S St E : Type) where
  exec : St → S → Except E S
  repeatable : St → Bool
  InEffect : St → S → Prop
  takes : ∀ {s a b}, exec s a = .ok b → InEffect s b
  lasts : ∀ {s t a b}, InEffect s a → exec t a = .ok b → InEffect s b
  again : ∀ {s a}, InEffect s a → repeatable s = true → exec s a = .ok a
  refuses : ∀ {s a}, InEffect s a → repeatable s = false → ∃ e, exec s a = .error e

variable {S St E : Type}

/-- The statements in their order, up to the first error: the store that they
leave, and whether they went through. -/
def execute (exec : St → S → Except E S) : S → List St → S × Except E Unit
  | a, [] => (a, .ok ())
  | a, s :: rest =>
    match exec s a with
    | .error e => (a, .error e)
    | .ok b => execute exec b rest

theorem execute_cons (exec : St → S → Except E S) (a : S) (s : St) (rest : List St) :
    execute exec a (s :: rest) =
      match exec s a with
      | .error e => (a, .error e)
      | .ok b => execute exec b rest := rfl

theorem execute_cons_ok {exec : St → S → Except E S} {a c : S} {s : St} {rest : List St} :
    execute exec a (s :: rest) = (c, .ok ()) ↔
      ∃ b, exec s a = .ok b ∧ execute exec b rest = (c, .ok ()) := by
  rw [execute_cons]
  rcases exec s a with e | b
  · constructor
    · intro h
      cases h
    · rintro ⟨_, h, _⟩
      cases h
  · constructor
    · intro h
      exact ⟨b, rfl, h⟩
    · rintro ⟨_, hb, h⟩
      cases hb
      exact h

/-- What goes through as a whole goes through in two parts. -/
theorem execute_append_ok {exec : St → S → Except E S} {a c : S} {p q : List St} :
    execute exec a (p ++ q) = (c, .ok ()) ↔
      ∃ b, execute exec a p = (b, .ok ()) ∧ execute exec b q = (c, .ok ()) := by
  induction p generalizing a with
  | nil =>
    constructor
    · intro h
      exact ⟨a, rfl, h⟩
    · rintro ⟨b, hb, h⟩
      cases hb
      exact h
  | cons s p ih =>
    rw [List.cons_append, execute_cons_ok]
    simp only [ih, execute_cons_ok]
    constructor
    · rintro ⟨d, hd, b, hb, h⟩
      exact ⟨b, ⟨d, hd, hb⟩, h⟩
    · rintro ⟨b, ⟨d, hd, hb⟩, h⟩
      exact ⟨d, hd, b, hb, h⟩

namespace Dialect

variable (D : Dialect S St E)

/-- What was in effect before a script that goes through still is behind it, and
so is all that the script did. -/
theorem in_effect_behind {p : List St} {a b : S} (h : execute D.exec a p = (b, .ok ())) {s : St}
    (hs : D.InEffect s a ∨ s ∈ p) : D.InEffect s b := by
  induction p generalizing a with
  | nil =>
    cases h
    exact hs.resolve_right List.not_mem_nil
  | cons t rest ih =>
    obtain ⟨c, hc, hrest⟩ := execute_cons_ok.mp h
    apply ih hrest
    rcases hs with hs | hs
    · exact .inl (D.lasts hs hc)
    · rcases List.mem_cons.mp hs with rfl | hs
      · exact .inl (D.takes hc)
      · exact .inr hs

/-- Where all statements are in effect and repeatable, executing them again
changes nothing. -/
theorem execute_again {p : List St} {a : S}
    (h : ∀ s ∈ p, D.InEffect s a ∧ D.repeatable s = true) :
    execute D.exec a p = (a, .ok ()) := by
  induction p with
  | nil => rfl
  | cons s rest ih =>
    obtain ⟨heffect, hagain⟩ := h s List.mem_cons_self
    rw [execute_cons_ok]
    exact ⟨a, D.again heffect hagain, ih (fun t ht => h t (List.mem_cons_of_mem _ ht))⟩

/-- A script that comes to a statement that is in effect and not repeatable does
not go through. -/
theorem execute_refused {p : List St} {a c : S} {s : St} (hs : s ∈ p) (heffect : D.InEffect s a)
    (honce : D.repeatable s = false) : execute D.exec a p ≠ (c, .ok ()) := by
  induction p generalizing a with
  | nil => cases hs
  | cons t rest ih =>
    intro h
    obtain ⟨b, hb, hrest⟩ := execute_cons_ok.mp h
    rcases List.mem_cons.mp hs with rfl | hs
    · obtain ⟨e, he⟩ := D.refuses heffect honce
      rw [he] at hb
      cases hb
    · exact ih hs (D.lasts heffect hb) hrest

/-- A script that went through goes through again exactly when it is repeatable,
and then changes nothing. -/
theorem again_iff {p : List St} {a b c : S} (hpart : execute D.exec a p = (b, .ok ())) :
    execute D.exec b p = (c, .ok ()) ↔ (∀ s ∈ p, D.repeatable s = true) ∧ c = b := by
  have heffect : ∀ s ∈ p, D.InEffect s b := fun s hs => D.in_effect_behind hpart (.inr hs)
  have hforward : (∀ s ∈ p, D.repeatable s = true) → execute D.exec b p = (b, .ok ()) :=
    fun h => D.execute_again (fun s hs => ⟨heffect s hs, h s hs⟩)
  constructor
  · intro h
    have hall : ∀ s ∈ p, D.repeatable s = true := by
      intro s hs
      cases honce : D.repeatable s with
      | true => rfl
      | false => exact (D.execute_refused hs (heffect s hs) honce h).elim
    refine ⟨hall, ?_⟩
    rw [hforward hall] at h
    cases h
    rfl
  · rintro ⟨hall, rfl⟩
    exact hforward hall

end Dialect

end scripts
