-- Runs of a machine that takes one act after another, conditions on the acts of a run, and
-- the induction that carries an invariant over it.
import Mathlib.Data.List.Basic

namespace runs

variable {σ α : Type} (step : σ → α → σ)

def run (s : σ) (acts : List α) : σ := acts.foldl step s

/-- `P` holds of every act of the run and the state it is taken in. -/
def Along (P : σ → α → Prop) : σ → List α → Prop
  | _, [] => True
  | s, a :: acts => P s a ∧ Along P (step s a) acts

instance along_decidable (P : σ → α → Prop) [∀ s a, Decidable (P s a)] :
    ∀ s acts, Decidable (Along step P s acts)
  | _, [] => .isTrue trivial
  | s, a :: acts =>
    have := along_decidable P (step s a) acts
    inferInstanceAs (Decidable (_ ∧ _))

variable {step}

@[simp] theorem run_nil (s : σ) : run step s [] = s := rfl

@[simp] theorem run_cons (s : σ) (a : α) (acts : List α) :
    run step s (a :: acts) = run step (step s a) acts := rfl

@[simp] theorem run_append (s : σ) (before after : List α) :
    run step s (before ++ after) = run step (run step s before) after :=
  List.foldl_append

/-- Two machines that take the same acts. -/
def pair {τ : Type} (step : σ → α → σ) (step' : τ → α → τ) (p : σ × τ) (a : α) : σ × τ :=
  (step p.1 a, step' p.2 a)

theorem run_pair {τ : Type} {step' : τ → α → τ} (p : σ × τ) (acts : List α) :
    run (pair step step') p acts = (run step p.1 acts, run step' p.2 acts) := by
  induction acts generalizing p with
  | nil => rfl
  | cons a acts ih => exact ih (pair step step' p a)

theorem along_congr {P Q : σ → α → Prop} (hpq : ∀ s a, P s a ↔ Q s a) (s : σ) (acts : List α) :
    Along step P s acts ↔ Along step Q s acts := by
  induction acts generalizing s with
  | nil => rfl
  | cons a acts ih => exact and_congr (hpq s a) (ih _)

/-- What follows from a condition at each act of the run. -/
theorem along_mono {P Q : σ → α → Prop} {acts : List α} (hpq : ∀ s, ∀ a ∈ acts, P s a → Q s a) {s : σ}
    (hruns : Along step P s acts) : Along step Q s acts := by
  induction acts generalizing s with
  | nil => trivial
  | cons a acts ih =>
    exact ⟨hpq s a List.mem_cons_self hruns.1,
      ih (fun s b hb => hpq s b (List.mem_cons_of_mem a hb)) hruns.2⟩

/-- What follows from a condition wherever an invariant holds that the condition keeps. -/
theorem along_of_invariant {Inv : σ → Prop} {P Q : σ → α → Prop}
    (hkeeps : ∀ s a, Inv s → P s a → Inv (step s a)) (hpq : ∀ s a, Inv s → P s a → Q s a) {s : σ}
    (hstart : Inv s) {acts : List α} (hruns : Along step P s acts) : Along step Q s acts := by
  induction acts generalizing s with
  | nil => trivial
  | cons a acts ih => exact ⟨hpq s a hstart hruns.1, ih (hkeeps s a hstart hruns.1) hruns.2⟩

/-- The rule of invariants: what holds at the start, and is kept by every act that meets
the condition, holds at the end of every run whose acts all meet it. -/
theorem invariant {Inv : σ → Prop} {P : σ → α → Prop}
    (hkeeps : ∀ s a, Inv s → P s a → Inv (step s a)) {s : σ} (hstart : Inv s) {acts : List α}
    (hruns : Along step P s acts) : Inv (run step s acts) := by
  induction acts generalizing s with
  | nil => exact hstart
  | cons a acts ih => exact ih (hkeeps s a hstart hruns.1) hruns.2

/-- An invariant that every act keeps. -/
theorem always {Inv : σ → Prop} (hkeeps : ∀ s a, Inv s → Inv (step s a)) {s : σ}
    (hstart : Inv s) (acts : List α) : Inv (run step s acts) := by
  induction acts generalizing s with
  | nil => exact hstart
  | cons a acts ih => exact ih (hkeeps s a hstart)

/-- The rule of simulations: two machines that are related at the start, and after each act of the
first that meets the condition, are related at the end. -/
theorem simulation {τ : Type} {step' : τ → α → τ} {R : σ → τ → Prop} {P : σ → α → Prop}
    (hstep : ∀ s t a, R s t → P s a → R (step s a) (step' t a)) {s : σ} {t : τ} (hstart : R s t)
    {acts : List α} (hruns : Along step P s acts) : R (run step s acts) (run step' t acts) := by
  induction acts generalizing s t with
  | nil => exact hstart
  | cons a acts ih => exact ih (hstep s t a hstart hruns.1) hruns.2

end runs
