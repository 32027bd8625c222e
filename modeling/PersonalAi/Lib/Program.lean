-- Programs that can fail, that see a world through calls, and that leave a
-- trace of events. A property of traces that holds of the parts holds of the
-- whole.
import Mathlib.Data.List.Basic

namespace program

/-! ## Programs -/

/-- A program: from a world, a result or an error, the world after it, and the
events in their order. -/
def Prog (W E ε α : Type) := W → Except ε α × W × List E

variable {W E ε α β : Type}

/-- A result comes from a result of the first part. -/
theorem bind_eq_ok {x : Except ε α} {f : α → Except ε β} {b : β} :
    (x >>= f) = .ok b ↔ ∃ a, x = .ok a ∧ f a = .ok b := by
  cases x with
  | error e => simp [bind, Except.bind]
  | ok a => simp [bind, Except.bind]

def Prog.pure (a : α) : Prog W E ε α := fun w => (.ok a, w, [])

/-- The first program, then the second on its result. An error ends both. -/
def Prog.bind (p : Prog W E ε α) (f : α → Prog W E ε β) : Prog W E ε β := fun w =>
  match p w with
  | (.ok a, w', tr) =>
    let (r, w'', tr') := f a w'
    (r, w'', tr ++ tr')
  | (.error e, w', tr) => (.error e, w', tr)

instance : Monad (Prog W E ε) where
  pure := Prog.pure
  bind := Prog.bind

/-- The program fails. -/
def fail (e : ε) : Prog W E ε α := fun w => (.error e, w, [])

/-- A question to the world. -/
def ask (f : W → α) : Prog W E ε α := fun w => (.ok (f w), w, [])

/-- A question that the world may refuse. -/
def demand (f : W → Except ε α) : Prog W E ε α := fun w => (f w, w, [])

/-- One event: the world answers, and moves. -/
def perform (e : E) (f : W → Except ε α × W) : Prog W E ε α := fun w =>
  let (r, w') := f w
  (r, w', [e])

/-- A question to the world that is an event with its answer. -/
def observe (f : W → α × W) (e : α → E) : Prog W E ε α := fun w =>
  let (a, w') := f w
  (.ok a, w', [e a])

/-- Something that the world gives and nobody sees. -/
def draw (f : W → α × W) : Prog W E ε α := fun w =>
  let (a, w') := f w
  (.ok a, w', [])

/-- A question to the world that it may refuse, and that nobody sees. -/
def consult (f : W → Except ε α × W) : Prog W E ε α := fun w =>
  let (r, w') := f w
  (r, w', [])

/-- The outcome of a program, its error included. -/
def attempt (p : Prog W E ε α) : Prog W E ε (Except ε α) := fun w =>
  let (r, w', tr) := p w
  (.ok r, w', tr)

/-- The program for its effect alone: an error is dropped. -/
def ignore (p : Prog W E ε α) : Prog W E ε Unit := do
  let _ ← attempt p
  return ()

/-- The program with its errors read another way. -/
def map_err {ε' : Type} (f : ε → ε') (p : Prog W E ε α) : Prog W E ε' α := fun w =>
  let (r, w', tr) := p w
  (r.mapError f, w', tr)

def doWhen (c : Bool) (p : Prog W E ε Unit) : Prog W E ε Unit := if c then p else pure ()

def forEach (xs : List β) (f : β → Prog W E ε Unit) : Prog W E ε Unit :=
  match xs with
  | [] => pure ()
  | x :: rest => do
    f x
    forEach rest f

/-- The events of a run from a world. -/
def Prog.trace (p : Prog W E ε α) (w : W) : List E := (p w).2.2

@[simp] theorem trace_map_err {ε' : Type} (f : ε → ε') (p : Prog W E ε α) (w : W) :
    (map_err f p).trace w = p.trace w := rfl

theorem trace_consult_ok {f : W → Except ε α × W} {g : α → Prog W E ε β} {w w' : W} {a : α}
    (h : f w = (.ok a, w')) : (consult f >>= g).trace w = (g a).trace w' := by
  change (Prog.bind (consult f) g w).2.2 = (g a w').2.2
  unfold Prog.bind consult
  rw [h]
  rfl

/-- The trace of two programs in a row: the second one adds to it where the first
one gives a result. -/
theorem trace_bind (p : Prog W E ε α) (f : α → Prog W E ε β) (w : W) :
    (p >>= f).trace w = p.trace w ++
      (match (p w).1 with
        | .ok a => (f a).trace (p w).2.1
        | .error _ => []) := by
  change (Prog.bind p f w).2.2 = _
  unfold Prog.bind Prog.trace
  rcases hrun : p w with ⟨e | a, w', tr⟩
  · exact (List.append_nil tr).symm
  · rfl

@[simp] theorem trace_pure (a : α) (w : W) : (pure a : Prog W E ε α).trace w = [] := rfl

@[simp] theorem trace_fail (e : ε) (w : W) : (fail e : Prog W E ε α).trace w = [] := rfl

@[simp] theorem trace_demand (f : W → Except ε α) (w : W) :
    (demand f : Prog W E ε α).trace w = [] := rfl

@[simp] theorem trace_perform (e : E) (f : W → Except ε α × W) (w : W) :
    (perform e f).trace w = [e] := rfl

/-- A question that is answered: the trace is that of the rest. -/
theorem trace_ask_bind (f : W → α) (g : α → Prog W E ε β) (w : W) :
    (ask f >>= g).trace w = (g (f w)).trace w := rfl

theorem trace_demand_bind (f : W → Except ε α) (g : α → Prog W E ε β) (w : W) :
    (demand f >>= g).trace w =
      match f w with
      | .ok a => (g a).trace w
      | .error _ => [] := by
  rw [trace_bind]
  change ([] ++ match f w with | .ok a => (g a).trace w | .error _ => []) = _
  rw [List.nil_append]

theorem trace_perform_bind (e : E) (f : W → Except ε α × W) (g : α → Prog W E ε β) (w : W) :
    (perform e f >>= g).trace w = e :: (match (f w).1 with
      | .ok a => (g a).trace (f w).2
      | .error _ => []) := by
  rw [trace_bind]
  rfl

/-! ## Outcomes -/

/-- What a run from a world comes to, without its events. -/
def Prog.outcome (p : Prog W E ε α) (w : W) : Except ε α × W := ((p w).1, (p w).2.1)

theorem outcome_bind (p : Prog W E ε α) (f : α → Prog W E ε β) (w : W) :
    (p >>= f).outcome w =
      match p.outcome w with
      | (.ok a, w') => (f a).outcome w'
      | (.error e, w') => (.error e, w') := by
  change ((Prog.bind p f w).1, (Prog.bind p f w).2.1) = _
  unfold Prog.outcome Prog.bind
  rcases p w with ⟨e | a, w', tr⟩
  · rfl
  · rfl

/-- The first program has come to a result. -/
theorem outcome_bind_ok {p : Prog W E ε α} {w w' : W} {a : α} (h : p.outcome w = (.ok a, w'))
    (f : α → Prog W E ε β) : (p >>= f).outcome w = (f a).outcome w' := by
  rw [outcome_bind, h]

/-- The first program has failed. -/
theorem outcome_bind_error {p : Prog W E ε α} {w w' : W} {e : ε}
    (h : p.outcome w = (.error e, w')) (f : α → Prog W E ε β) :
    (p >>= f).outcome w = (.error e, w') := by
  rw [outcome_bind, h]

@[simp] theorem outcome_pure (a : α) (w : W) :
    (pure a : Prog W E ε α).outcome w = (.ok a, w) := rfl

@[simp] theorem outcome_fail (e : ε) (w : W) :
    (fail e : Prog W E ε α).outcome w = (.error e, w) := rfl

@[simp] theorem outcome_ask (f : W → α) (w : W) :
    (ask f : Prog W E ε α).outcome w = (.ok (f w), w) := rfl

@[simp] theorem outcome_demand (f : W → Except ε α) (w : W) :
    (demand f : Prog W E ε α).outcome w = (f w, w) := rfl

@[simp] theorem outcome_consult (f : W → Except ε α × W) (w : W) :
    (consult f : Prog W E ε α).outcome w = f w := rfl

@[simp] theorem outcome_attempt (p : Prog W E ε α) (w : W) :
    (attempt p).outcome w = (.ok (p.outcome w).1, (p.outcome w).2) := rfl

theorem outcome_ignore {p : Prog W E ε α} {w w' : W} {r : Except ε α}
    (h : p.outcome w = (r, w')) : (ignore p).outcome w = (.ok (), w') := by
  change (.ok (), (p.outcome w).2) = (Except.ok (), w')
  rw [h]

/-- The events of the first program are events of both in a row. -/
theorem mem_trace_left {p : Prog W E ε α} {w : W} {e : E} (h : e ∈ p.trace w)
    (f : α → Prog W E ε β) : e ∈ (p >>= f).trace w := by
  rw [trace_bind]
  exact List.mem_append_left _ h

/-- The events of the second program are events of both where the first one has a result. -/
theorem mem_trace_right {p : Prog W E ε α} {w v : W} {a : α} (hp : p.outcome w = (.ok a, v))
    {f : α → Prog W E ε β} {e : E} (h : e ∈ (f a).trace v) : e ∈ (p >>= f).trace w := by
  simp only [Prog.outcome, Prod.mk.injEq] at hp
  rw [trace_bind, hp.1, hp.2]
  exact List.mem_append_right _ h

/-! ## Triples -/

/-- From a world with the property, whatever the program gives is in the
postcondition, with the world after it and its events. -/
def Triple (P : W → Prop) (p : Prog W E ε α) (Q : α → W → List E → Prop) : Prop :=
  ∀ w a w' tr, P w → p w = (.ok a, w', tr) → Q a w' tr

theorem triple_pure {P : W → Prop} {Q : α → W → List E → Prop} {a : α}
    (h : ∀ w, P w → Q a w []) : Triple P (pure a : Prog W E ε α) Q := by
  intro w b w' tr hP hrun
  cases hrun
  exact h w hP

theorem triple_fail (P : W → Prop) (e : ε) (Q : α → W → List E → Prop) :
    Triple P (fail e : Prog W E ε α) Q := by
  intro w b w' tr _ hrun
  cases hrun

theorem triple_consult {P : W → Prop} {f : W → Except ε α × W} {Q : α → W → List E → Prop}
    (h : ∀ w a w', P w → f w = (.ok a, w') → Q a w' []) : Triple P (consult f) Q := by
  intro w a w' tr hP hrun
  simp only [consult, Prod.mk.injEq] at hrun
  obtain ⟨hok, hworld, rfl⟩ := hrun
  exact h w a w' hP (Prod.ext hok hworld)

theorem triple_perform {P : W → Prop} {e : E} {f : W → Except ε α × W}
    {Q : α → W → List E → Prop} (h : ∀ w a w', P w → f w = (.ok a, w') → Q a w' [e]) :
    Triple P (perform e f) Q := by
  intro w a w' tr hP hrun
  simp only [perform, Prod.mk.injEq] at hrun
  obtain ⟨hok, hworld, rfl⟩ := hrun
  exact h w a w' hP (Prod.ext hok hworld)

/-- Two programs in a row: the second one starts where the first one ended, behind
its events. -/
theorem triple_bind {P : W → Prop} {p : Prog W E ε α} {f : α → Prog W E ε β}
    {Q : α → W → List E → Prop} {R : β → W → List E → Prop} (hp : Triple P p Q)
    (hf : ∀ a tr, Triple (fun w => Q a w tr) (f a) (fun b w tr' => R b w (tr ++ tr'))) :
    Triple P (p >>= f) R := by
  intro w b w'' tr hP hrun
  change Prog.bind p f w = _ at hrun
  unfold Prog.bind at hrun
  rcases hfirst : p w with ⟨e | a, w', tr'⟩
  · rw [hfirst] at hrun
    cases hrun
  · rw [hfirst] at hrun
    simp only [Prod.mk.injEq] at hrun
    obtain ⟨hok, hworld, rfl⟩ := hrun
    exact hf a tr' w' b w'' _ (hp w a w' tr' hP hfirst) (Prod.ext hok (Prod.ext hworld rfl))

theorem triple_mono {P P' : W → Prop} {p : Prog W E ε α} {Q Q' : α → W → List E → Prop}
    (h : Triple P p Q) (hP : ∀ w, P' w → P w) (hQ : ∀ a w tr, Q a w tr → Q' a w tr) :
    Triple P' p Q' := fun w a w' tr hw hrun => hQ a w' tr (h w a w' tr (hP w hw) hrun)

/-- Behind a part without events. -/
theorem triple_after_nil {P : W → Prop} {p : Prog W E ε α} {Q : α → W → List E → Prop}
    (h : Triple P p Q) (tr : List E) :
    Triple (fun w => tr = [] ∧ P w) p (fun a w tr' => Q a w (tr ++ tr')) := by
  rintro w a w' tr' ⟨rfl, hP⟩ hrun
  exact h w a w' tr' hP hrun

/-! ## Both endings -/

/-- From a world with `P`, the program ends in `Q` of its result, or it fails and ends in `R`. -/
def Ends (P : W → Prop) (p : Prog W E ε α) (Q : α → W → Prop) (R : W → Prop) : Prop :=
  ∀ w, P w → (∀ a w', p.outcome w = (.ok a, w') → Q a w') ∧
    ∀ e w', p.outcome w = (.error e, w') → R w'

section Endings
variable {P : W → Prop} {Q : α → W → Prop} {R : W → Prop}

theorem ends_pure {a : α} (h : ∀ w, P w → Q a w) : Ends P (pure a : Prog W E ε α) Q R := by
  intro w hP
  refine ⟨?_, ?_⟩
  · rintro b w' hrun
    cases hrun
    exact h w hP
  · rintro e w' hrun
    cases hrun

theorem ends_fail {e : ε} (h : ∀ w, P w → R w) : Ends P (fail e : Prog W E ε α) Q R := by
  intro w hP
  refine ⟨?_, ?_⟩
  · rintro b w' hrun
    cases hrun
  · rintro e' w' hrun
    cases hrun
    exact h w hP

theorem ends_ask {f : W → α} (h : ∀ w, P w → Q (f w) w) : Ends P (ask f : Prog W E ε α) Q R := by
  intro w hP
  refine ⟨?_, ?_⟩
  · rintro b w' hrun
    cases hrun
    exact h w hP
  · rintro e' w' hrun
    cases hrun

theorem ends_consult {f : W → Except ε α × W}
    (hok : ∀ w a w', P w → f w = (.ok a, w') → Q a w')
    (herror : ∀ w e w', P w → f w = (.error e, w') → R w') :
    Ends P (consult f : Prog W E ε α) Q R := by
  intro w hP
  exact ⟨fun a w' hrun => hok w a w' hP hrun, fun e w' hrun => herror w e w' hP hrun⟩

/-- Two programs in a row: the second one starts where the first one has ended well. -/
theorem ends_bind {Q' : β → W → Prop} {p : Prog W E ε α} {f : α → Prog W E ε β}
    (hp : Ends P p Q R) (hf : ∀ a, Ends (Q a) (f a) Q' R) : Ends P (p >>= f) Q' R := by
  intro w hP
  rcases hfirst : p.outcome w with ⟨e | a, w'⟩
  · rw [outcome_bind_error hfirst]
    refine ⟨?_, ?_⟩
    · rintro b w'' hrun
      cases hrun
    · rintro e' w'' hrun
      cases hrun
      exact (hp w hP).2 e w' hfirst
  · rw [outcome_bind_ok hfirst]
    exact hf a w' ((hp w hP).1 a w' hfirst)

theorem ends_mono {P' : W → Prop} {Q' : α → W → Prop} {R' : W → Prop} {p : Prog W E ε α}
    (h : Ends P p Q R) (hP : ∀ w, P' w → P w) (hQ : ∀ a w, Q a w → Q' a w)
    (hR : ∀ w, R w → R' w) : Ends P' p Q' R' := by
  intro w hw
  obtain ⟨hok, herror⟩ := h w (hP w hw)
  exact ⟨fun a w' hrun => hQ a w' (hok a w' hrun), fun e w' hrun => hR w' (herror e w' hrun)⟩

/-- A program of which only the world counts. -/
theorem ends_ignore {Q' : W → Prop} {p : Prog W E ε α} (h : Ends P p (fun _ => Q') Q') :
    Ends P (ignore p) (fun _ => Q') R := by
  intro w hP
  obtain ⟨hok, herror⟩ := h w hP
  have hrun : (ignore p).outcome w = (.ok (), (p.outcome w).2) := rfl
  rw [hrun]
  refine ⟨?_, ?_⟩
  · rintro u w' hw
    cases hw
    rcases hend : p.outcome w with ⟨e | a, w'⟩
    · exact herror e w' hend
    · exact hok a w' hend
  · rintro e w' hw
    cases hw

/-- Where a program leads, whichever way it ends. -/
theorem ends_outcome {Q' : W → Prop} {p : Prog W E ε α} (h : Ends P p (fun _ => Q') Q') {w : W}
    (hw : P w) : Q' (p.outcome w).2 := by
  obtain ⟨hok, herror⟩ := h w hw
  rcases hend : p.outcome w with ⟨e | a, w'⟩
  · exact herror e w' hend
  · exact hok a w' hend

end Endings

/-! ## Properties of traces -/

/-- A property of traces that holds of nothing and of two traces in a row. -/
structure Additive (P : List E → Prop) : Prop where
  nil : P []
  append : ∀ a b, P a → P b → P (a ++ b)

theorem additive_forall (R : E → Prop) : Additive (fun tr => ∀ e ∈ tr, R e) where
  nil := by simp
  append := by
    intro a b ha hb e he
    rcases List.mem_append.mp he with he | he
    · exact ha e he
    · exact hb e he

/-- Whatever the world, the events of the program have the property. -/
def Emits (P : List E → Prop) (p : Prog W E ε α) : Prop := ∀ w, P (p.trace w)

/-- The same behind events that came before the program. -/
def EmitsAfter (before : List E) (P : List E → Prop) (p : Prog W E ε α) : Prop :=
  ∀ w, P (before ++ p.trace w)

/-- The program can end with this result. -/
def Gives (p : Prog W E ε α) (a : α) : Prop := ∃ w, (p w).1 = .ok a

theorem bind_assoc {γ : Type} (p : Prog W E ε α) (f : α → Prog W E ε β) (g : β → Prog W E ε γ) :
    (p >>= f) >>= g = p >>= fun a => f a >>= g := by
  funext w
  change Prog.bind (Prog.bind p f) g w = Prog.bind p (fun a => Prog.bind (f a) g) w
  unfold Prog.bind
  rcases p w with ⟨e | a, w', tr⟩
  · rfl
  · dsimp only
    rcases f a w' with ⟨e | b, w'', tr'⟩
    · rfl
    · dsimp only
      rw [List.append_assoc]

theorem pure_then (a : α) (f : α → Prog W E ε β) : (pure a : Prog W E ε α) >>= f = f a := rfl

/-- Whatever the program gives has the property. -/
def Returns (Q : α → Prop) (p : Prog W E ε α) : Prop := ∀ a, Gives p a → Q a

theorem gives_pure {a b : α} (h : Gives (pure a : Prog W E ε α) b) : b = a := by
  obtain ⟨w, hw⟩ := h
  cases hw
  rfl

theorem gives_bind {p : Prog W E ε α} {f : α → Prog W E ε β} {b : β} (h : Gives (p >>= f) b) :
    ∃ a, Gives p a ∧ Gives (f a) b := by
  obtain ⟨w, hw⟩ := h
  change (Prog.bind p f w).1 = .ok b at hw
  unfold Prog.bind at hw
  rcases hrun : p w with ⟨e | a, w', tr⟩
  · rw [hrun] at hw
    cases hw
  · rw [hrun] at hw
    exact ⟨a, ⟨w, by rw [hrun]⟩, w', hw⟩

theorem returns_bind {Q : β → Prop} {p : Prog W E ε α} {f : α → Prog W E ε β}
    (h : ∀ a, Gives p a → Returns Q (f a)) : Returns Q (p >>= f) := by
  intro b hb
  obtain ⟨a, ha, hfa⟩ := gives_bind hb
  exact h a ha b hfa

theorem returns_pure {Q : α → Prop} {a : α} (h : Q a) :
    Returns Q (pure a : Prog W E ε α) := by
  rintro b ⟨w, hw⟩
  cases hw
  exact h

theorem returns_fail (Q : α → Prop) (e : ε) : Returns Q (fail e : Prog W E ε α) := by
  rintro a ⟨w, hw⟩
  cases hw

theorem gives_demand {f : W → Except ε α} {a : α} (h : Gives (E := E) (demand f) a) :
    ∃ w, f w = .ok a := h

theorem emits_perform {P : List E → Prop} {e : E} (f : W → Except ε α × W) (he : P [e]) :
    Emits P (perform e f) := fun _ => he

theorem emits_observe {P : List E → Prop} {f : W → α × W} {e : α → E} (he : ∀ a, P [e a]) :
    Emits P (observe f e : Prog W E ε α) := fun w => he (f w).1

theorem emits_attempt {P : List E → Prop} {p : Prog W E ε α} (hp : Emits P p) :
    Emits P (attempt p) := hp

theorem emits_map_err {ε' : Type} {P : List E → Prop} (f : ε → ε') {p : Prog W E ε α}
    (hp : Emits P p) : Emits P (map_err f p) := hp

theorem emits_of_after {P : List E → Prop} {p : Prog W E ε α} (h : EmitsAfter [] P p) :
    Emits P p := h

/-- An answered question goes over to the events before the rest. -/
theorem after_observe {P : List E → Prop} {before : List E} {f : W → β × W} {e : β → E}
    {g : β → Prog W E ε α} (h : ∀ w, EmitsAfter (before ++ [e (f w).1]) P (g (f w).1)) :
    EmitsAfter before P (observe f e >>= g) := by
  intro w
  have htrace : (observe f e >>= g).trace w = e (f w).1 :: (g (f w).1).trace (f w).2 := rfl
  rw [htrace, List.append_cons]
  exact h w (f w).2

theorem after_draw {P : List E → Prop} {before : List E} {f : W → β × W}
    {g : β → Prog W E ε α} (h : ∀ a, EmitsAfter before P (g a)) :
    EmitsAfter before P (draw f >>= g) := fun w => h (f w).1 (f w).2

theorem after_ask {P : List E → Prop} {before : List E} {f : W → β}
    {g : β → Prog W E ε α} (h : ∀ a, EmitsAfter before P (g a)) :
    EmitsAfter before P (ask f >>= g) := fun w => h (f w) w

/-- Two programs in a row, where each has its own property. -/
theorem emits_bind_append {P Q R : List E → Prop} (hnil : Q [])
    (happend : ∀ a b, P a → Q b → R (a ++ b)) {p : Prog W E ε α} {f : α → Prog W E ε β}
    (hp : Emits P p) (hf : ∀ a, Emits Q (f a)) : Emits R (p >>= f) := by
  intro w
  have hpw := hp w
  change R (Prog.bind p f w).2.2
  unfold Prog.bind
  unfold Prog.trace at hpw
  rcases hrun : p w with ⟨r | a, w', tr⟩
  · rw [hrun] at hpw
    have := happend tr [] hpw hnil
    rwa [List.append_nil] at this
  · rw [hrun] at hpw
    exact happend _ _ hpw (hf a w')

theorem emits_mono {P Q : List E → Prop} {p : Prog W E ε α} (hp : Emits P p)
    (h : ∀ tr, P tr → Q tr) : Emits Q p := fun w => h _ (hp w)

section Rules
variable {P : List E → Prop} (hP : Additive P)
include hP

theorem emits_pure (a : α) : Emits P (pure a : Prog W E ε α) := fun _ => hP.nil

theorem emits_fail (e : ε) : Emits P (fail e : Prog W E ε α) := fun _ => hP.nil

theorem emits_ask (f : W → α) : Emits P (ask f : Prog W E ε α) := fun _ => hP.nil

theorem emits_demand (f : W → Except ε α) : Emits P (demand f : Prog W E ε α) := fun _ => hP.nil

theorem emits_draw (f : W → α × W) : Emits P (draw f : Prog W E ε α) := fun _ => hP.nil

theorem emits_consult (f : W → Except ε α × W) : Emits P (consult f : Prog W E ε α) :=
  fun _ => hP.nil

/-- The second program only has to keep the property after results that the
first one can give. -/
theorem emits_bind_gives {p : Prog W E ε α} {f : α → Prog W E ε β} (hp : Emits P p)
    (hf : ∀ a, Gives p a → Emits P (f a)) : Emits P (p >>= f) := by
  intro w
  have hpw := hp w
  change P (Prog.bind p f w).2.2
  unfold Prog.bind
  unfold Prog.trace at hpw
  rcases hrun : p w with ⟨r | a, w', tr⟩
  · rw [hrun] at hpw
    exact hpw
  · rw [hrun] at hpw
    exact hP.append _ _ hpw (hf a ⟨w, by rw [hrun]⟩ w')

theorem emits_bind {p : Prog W E ε α} {f : α → Prog W E ε β} (hp : Emits P p)
    (hf : ∀ a, Emits P (f a)) : Emits P (p >>= f) :=
  emits_bind_gives hP hp (fun a _ => hf a)

theorem emits_ignore {p : Prog W E ε α} (hp : Emits P p) : Emits P (ignore p) :=
  emits_bind hP (emits_attempt hp) (fun _ => emits_pure hP ())

theorem emits_when (c : Bool) {p : Prog W E ε Unit} (hp : Emits P p) : Emits P (doWhen c p) := by
  cases c with
  | false => exact emits_pure hP ()
  | true => exact hp

theorem emits_forEach (xs : List β) {f : β → Prog W E ε Unit} (hf : ∀ x ∈ xs, Emits P (f x)) :
    Emits P (forEach xs f) := by
  induction xs with
  | nil => exact emits_pure hP ()
  | cons x rest ih =>
    refine emits_bind hP (hf x (by simp)) ?_
    intro _
    exact ih (fun y hy => hf y (by simp [hy]))

end Rules

end program
