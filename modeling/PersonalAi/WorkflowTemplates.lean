-- The templates of a workflow (pai-workflows lib.rs): `render` puts in the input and then one output
-- after the other, and each pass searches what the passes before it put in. Against it stands the
-- substitution of all placeholders at once.
import PersonalAi.WorkflowReferences
import PersonalAi.Lib.SortedMap

open text json sorted_map

namespace pai_workflows

/-! ## Substitution at once -/

/-- A template is made of characters that are kept and of placeholders. -/
inductive Piece
  | kept (c : Char)
  | hole (p : List Char)
deriving DecidableEq, Repr

/-- The text that stands for each placeholder. -/
abbrev Filling := List (List Char × List Char)

/-- The shortest placeholder that stands at the beginning of a text. -/
def placeholder_at (keys : List (List Char)) (cs : List Char) : Option (List Char) :=
  (List.range cs.length).findSome? (fun n =>
    if cs.take (n + 1) ∈ keys then some (cs.take (n + 1)) else none)

/-- The pieces of a text, from left to right, with the number of characters left of the placeholder
it is in. -/
def pieces (keys : List (List Char)) : Nat → List Char → List Piece
  | _, [] => []
  | skip + 1, _ :: rest => pieces keys skip rest
  | 0, c :: rest =>
    match placeholder_at keys (c :: rest) with
    | some p => .hole p :: pieces keys (p.length - 1) rest
    | none => .kept c :: pieces keys 0 rest

/-- A placeholder that is not filled yet stands for itself. -/
def Piece.text (done : Filling) : Piece → List Char
  | .kept c => [c]
  | .hole p => (done.lookup p).getD p

def text_of (done : Filling) (ps : List Piece) : List Char := ps.flatMap (Piece.text done)

def INPUT : List Char := "\x7b\x7binput\x7d\x7d".toList

/-- What the placeholders of a run stand for. -/
def fillings (input : String) (outputs : Outputs) : Filling :=
  (INPUT, input.toList) ::
    outputs.map (fun e => ((placeholder e.1).toList, (output_text e.2).toList))

/-- The pieces of a template, for the placeholders that have a text. -/
def template_pieces (template : String) (fs : Filling) : List Piece :=
  pieces (fs.map Prod.fst) 0 template.toList

/-- Every placeholder of the template is replaced by its text, and nothing else is touched. -/
def simultaneous (template input : String) (outputs : Outputs) : String :=
  String.ofList (text_of (fillings input outputs)
    (template_pieces template (fillings input outputs)))

/-! ## What the passes find -/

/-- In the text so far, this placeholder begins nowhere but where the template has it. -/
def OnlyHoles (p : List Char) (done : Filling) : List Piece → Prop
  | [] => True
  | x :: rest =>
    (x = .hole p ∨
      ∀ k < (x.text done).length, ¬ p <+: (x.text done ++ text_of done rest).drop k) ∧
    OnlyHoles p done rest

/-- Each pass finds the placeholders of the template only, or puts in what it takes out. -/
def FindTemplate (ps : List Piece) : Filling → Filling → Prop
  | _, [] => True
  | done, (p, new) :: left =>
    (new = p ∨ OnlyHoles p done ps) ∧ FindTemplate ps ((p, new) :: done) left

/-- No pass of `render` finds a placeholder in what an earlier one put in, or across it. -/
def SearchesTemplateOnly (template input : String) (outputs : Outputs) : Prop :=
  FindTemplate (template_pieces template (fillings input outputs)) [] (fillings input outputs)

def decide_only_holes (p : List Char) (done : Filling) :
    (ps : List Piece) → Decidable (OnlyHoles p done ps)
  | [] => .isTrue trivial
  | x :: rest =>
    have := decide_only_holes p done rest
    inferInstanceAs (Decidable ((x = .hole p ∨
      ∀ k < (x.text done).length, ¬ p <+: (x.text done ++ text_of done rest).drop k) ∧
      OnlyHoles p done rest))

instance (p : List Char) (done : Filling) (ps : List Piece) : Decidable (OnlyHoles p done ps) :=
  decide_only_holes p done ps

def decide_find_template (ps : List Piece) :
    (done left : Filling) → Decidable (FindTemplate ps done left)
  | _, [] => .isTrue trivial
  | done, (p, new) :: left =>
    have := decide_find_template ps ((p, new) :: done) left
    inferInstanceAs (Decidable ((new = p ∨ OnlyHoles p done ps) ∧
      FindTemplate ps ((p, new) :: done) left))

instance (template input : String) (outputs : Outputs) :
    Decidable (SearchesTemplateOnly template input outputs) :=
  decide_find_template _ _ _

/-! ## The pieces -/

theorem placeholder_at_some {keys : List (List Char)} {cs p : List Char}
    (h : placeholder_at keys cs = some p) : p ∈ keys ∧ p ≠ [] ∧ p <+: cs := by
  obtain ⟨n, hn, hp⟩ := List.exists_of_findSome?_eq_some h
  rw [List.mem_range] at hn
  split at hp
  · rename_i hkey
    cases hp
    refine ⟨hkey, ?_, List.take_prefix _ _⟩
    intro hnil
    have := congrArg List.length hnil
    rw [List.length_take, List.length_nil] at this
    omega
  · cases hp

/-- The pieces hold the text. -/
theorem pieces_text (keys : List (List Char)) (n : Nat) (cs : List Char) :
    text_of [] (pieces keys n cs) = cs.drop n := by
  fun_induction pieces keys n cs with
  | case1 n => cases n <;> rfl
  | case2 skip c rest ih => exact ih
  | case3 c rest p hp ih =>
    obtain ⟨-, hne, t, ht⟩ := placeholder_at_some hp
    rw [text_of, List.flatMap_cons]
    change p ++ text_of [] (pieces keys (p.length - 1) rest) = c :: rest
    rw [ih]
    cases p with
    | nil => exact (hne rfl).elim
    | cons d p =>
      cases ht
      simp
  | case4 c rest hp ih =>
    rw [text_of, List.flatMap_cons]
    exact congrArg (c :: ·) ih

/-! ## One pass -/

theorem lookup_perm {a b : Filling} (hnodup : (a.map Prod.fst).Nodup) (h : a.Perm b)
    (p : List Char) : a.lookup p = b.lookup p := by
  have hb : (b.map Prod.fst).Nodup := (h.map Prod.fst).nodup_iff.mp hnodup
  apply Option.ext
  intro v
  rw [lookup_eq_some_of_nodup hnodup, lookup_eq_some_of_nodup hb, h.mem_iff]

/-- A pass that finds the placeholders of the template only fills them. -/
theorem pass_fills {p new : List Char} {done : Filling} {ps : List Piece} (hne : p ≠ [])
    (hnew : done.lookup p = none) (h : new = p ∨ OnlyHoles p done ps) :
    replace_from p new 0 (text_of done ps) = text_of ((p, new) :: done) ps := by
  rcases h with rfl | h
  · -- nothing changes, and the placeholder stood for itself before
    rw [replace_from_self hne, List.drop_zero]
    unfold text_of
    congr 1
    funext x
    cases x with
    | kept c => rfl
    | hole q =>
      by_cases hq : q = new
      · simp [Piece.text, hq, hnew]
      · have hbeq : (q == new) = false := by simpa using hq
        simp [Piece.text, List.lookup_cons, hbeq]
  · induction ps with
    | nil => rfl
    | cons x rest ih =>
      obtain ⟨hx, hrest⟩ := h
      have htext : ∀ d, text_of d (x :: rest) = x.text d ++ text_of d rest := fun d => rfl
      rw [htext, htext, ← ih hrest]
      by_cases hhole : x = .hole p
      · have hbefore : x.text done = p := by simp [hhole, Piece.text, hnew]
        have hafter : x.text ((p, new) :: done) = new := by simp [hhole, Piece.text]
        rw [hbefore, hafter]
        exact replace_from_hit hne _
      · have hsame : x.text ((p, new) :: done) = x.text done := by
          cases x with
          | kept c => rfl
          | hole q =>
            have hq : (q == p) = false := by
              simp only [beq_eq_false_iff_ne]
              rintro rfl
              exact hhole rfl
            simp [Piece.text, List.lookup_cons, hq]
        rw [hsame]
        exact replace_from_miss (hx.resolve_left hhole)

/-- The passes one after the other fill all placeholders. -/
theorem passes_fill {ps : List Piece} (left done : Filling)
    (hnodup : ((left.reverse ++ done).map Prod.fst).Nodup) (hne : ∀ e ∈ left, e.1 ≠ [])
    (h : FindTemplate ps done left) :
    left.foldl (fun t e => replace_from e.1 e.2 0 t) (text_of done ps) =
      text_of (left.reverse ++ done) ps := by
  induction left generalizing done with
  | nil => rfl
  | cons e left ih =>
    obtain ⟨p, new⟩ := e
    obtain ⟨hpass, hrest⟩ := h
    have hlist : ((p, new) :: left).reverse ++ done = left.reverse ++ ((p, new) :: done) := by simp
    rw [hlist] at hnodup ⊢
    have hfresh : done.lookup p = none := by
      rw [List.map_append, List.map_cons] at hnodup
      have hcons := hnodup.of_append_right
      rw [List.nodup_cons] at hcons
      rw [List.lookup_eq_none_iff]
      intro e he
      simp only [bne_iff_ne]
      rintro rfl
      exact hcons.1 (List.mem_map.mpr ⟨e, he, rfl⟩)
    rw [List.foldl_cons, pass_fills (hne _ List.mem_cons_self) hfresh hpass]
    exact ih _ hnodup (fun x hx => hne x (List.mem_cons_of_mem _ hx)) hrest

/-! ## The order of the outputs -/

theorem placeholder_injective {a b : String} (h : (placeholder a).toList = (placeholder b).toList) :
    a = b := by
  rw [placeholder_toList, placeholder_toList] at h
  have hmiddle := List.append_cancel_left h
  exact String.toList_inj.mp (List.append_cancel_right hmiddle)

theorem input_no_placeholder (id : String) : INPUT ≠ (placeholder id).toList := by
  intro h
  have hopen : REF_OPEN.toList <+: INPUT := ⟨_, (h.trans (placeholder_toList id)).symm⟩
  exact absurd hopen (by decide)

theorem placeholder_ne_nil (id : String) : (placeholder id).toList ≠ [] := by
  rw [placeholder_toList]
  simp [REF_OPEN]

section Orders
variable {template input : String} {outputs other : Outputs}

variable (input) in
theorem fillings_nodup (h : (outputs.map Prod.fst).Nodup) :
    ((fillings input outputs).map Prod.fst).Nodup := by
  have hids : (outputs.map (fun e => (placeholder e.1).toList)).Nodup := by
    rw [List.nodup_map_iff_inj_on (List.Nodup.of_map _ h)]
    intro a ha b hb hab
    exact List.inj_on_of_nodup_map h ha hb (placeholder_injective hab)
  rw [fillings, List.map_cons, List.nodup_cons, List.map_map]
  refine ⟨?_, hids⟩
  intro hmem
  obtain ⟨e, -, he⟩ := List.mem_map.mp hmem
  exact input_no_placeholder e.1 he.symm

theorem fillings_ne_nil : ∀ e ∈ fillings input outputs, e.1 ≠ [] := by
  unfold fillings
  rw [List.forall_mem_cons]
  constructor
  · change INPUT ≠ []
    decide
  · intro e he
    obtain ⟨o, -, rfl⟩ := List.mem_map.mp he
    exact placeholder_ne_nil o.1

variable (input) in
theorem fillings_perm (h : other.Perm outputs) :
    (fillings input other).Perm (fillings input outputs) := (h.map _).cons _

/-- Only which placeholders there are decides how a text is cut. -/
theorem pieces_congr {keys keys' : List (List Char)} (h : ∀ p, p ∈ keys ↔ p ∈ keys') (n : Nat)
    (cs : List Char) : pieces keys n cs = pieces keys' n cs := by
  have hat : ∀ cs, placeholder_at keys cs = placeholder_at keys' cs := by
    intro cs
    unfold placeholder_at
    simp only [h]
  fun_induction pieces keys n cs with
  | case1 n => cases n <;> rfl
  | case2 skip c rest ih => exact ih
  | case3 c rest p hp ih =>
    rw [hat] at hp
    rw [pieces, hp]
    exact congrArg _ ih
  | case4 c rest hp ih =>
    rw [hat] at hp
    rw [pieces, hp]
    exact congrArg _ ih

theorem text_of_perm {a b : Filling} (hnodup : (a.map Prod.fst).Nodup) (h : a.Perm b)
    (ps : List Piece) : text_of a ps = text_of b ps := by
  unfold text_of
  congr 1
  funext x
  cases x with
  | kept c => rfl
  | hole p => simp only [Piece.text, lookup_perm hnodup h p]

/-- The substitution at once does not depend on the order of the outputs. -/
theorem simultaneous_perm (hnodup : (other.map Prod.fst).Nodup) (h : other.Perm outputs) :
    simultaneous template input other = simultaneous template input outputs := by
  have hperm := fillings_perm input h
  have hpieces : template_pieces template (fillings input other) =
      template_pieces template (fillings input outputs) := by
    apply pieces_congr
    intro p
    exact (hperm.map Prod.fst).mem_iff
  unfold simultaneous
  rw [hpieces, text_of_perm (fillings_nodup input hnodup) hperm]

theorem replace_toList (s pat new : String) :
    (replace s pat new).toList = replace_from pat.toList new.toList 0 s.toList := by
  simp only [replace, String.toList_ofList]

theorem foldl_toList {f : String → String × Value → String}
    {g : String × Value → List Char × List Char}
    (h : ∀ t e, (f t e).toList = replace_from (g e).1 (g e).2 0 t.toList) (outs : Outputs)
    (t : String) :
    (outs.foldl f t).toList = (outs.map g).foldl (fun t e => replace_from e.1 e.2 0 t) t.toList := by
  induction outs generalizing t with
  | nil => rfl
  | cons e rest ih => rw [List.foldl_cons, List.map_cons, List.foldl_cons, ih, h]

/-- `render` makes one pass for each placeholder. -/
theorem render_passes : (render template input outputs).toList =
    (fillings input outputs).foldl (fun t e => replace_from e.1 e.2 0 t) template.toList := by
  have hpass : ∀ (t : String) (e : String × Value),
      (replace t (REF_OPEN ++ e.1 ++ REF_CLOSE) (output_text e.2)).toList =
        replace_from (placeholder e.1).toList (output_text e.2).toList 0 t.toList := by
    intro t e
    exact replace_toList t (placeholder e.1) (output_text e.2)
  unfold render fillings
  rw [foldl_toList (g := fun e => ((placeholder e.1).toList, (output_text e.2).toList)) hpass,
    replace_toList, List.foldl_cons]
  rfl

/-- **`render` substitutes at once where its passes search the template only.** The outputs are a
map, so their ids are distinct. Then the order of the outputs does not matter either. -/
theorem render_is_simultaneous_where_it_searches_the_template_only
    (hids : (outputs.map Prod.fst).Nodup) (h : SearchesTemplateOnly template input outputs) :
    render template input outputs = simultaneous template input outputs ∧
      ∀ other : Outputs, other.Perm outputs → SearchesTemplateOnly template input other →
        render template input other = render template input outputs := by
  have hrender : ∀ outs : Outputs, (outs.map Prod.fst).Nodup →
      SearchesTemplateOnly template input outs →
      render template input outs = simultaneous template input outs := by
    intro outs houts hsearch
    have hnodup := fillings_nodup input houts
    have hreverse := (fillings input outs).reverse_perm
    have hback : ((fillings input outs).reverse.map Prod.fst).Nodup :=
      (hreverse.map Prod.fst).nodup_iff.mpr hnodup
    have hfound : FindTemplate (template_pieces template (fillings input outs)) []
        (fillings input outs) := hsearch
    have hpasses := passes_fill (fillings input outs) [] (by simpa using hback) fillings_ne_nil hfound
    have htemplate : text_of [] (template_pieces template (fillings input outs)) =
        template.toList := pieces_text _ 0 _
    rw [htemplate, List.append_nil, text_of_perm hback hreverse] at hpasses
    rw [← String.toList_inj, render_passes, hpasses, simultaneous, String.toList_ofList]
  refine ⟨hrender outputs hids h, ?_⟩
  intro other hperm hsearch
  have hother : (other.map Prod.fst).Nodup := (hperm.map Prod.fst).nodup_iff.mpr hids
  rw [hrender other hother hsearch, hrender outputs hids h, simultaneous_perm hother hperm]

end Orders

/-! ## A greeting, and an input that asks for an output -/

def greeting : String := "Say \x7b\x7binput\x7d\x7d and \x7b\x7bsteps.a.output\x7d\x7d."

theorem a_greeting_is_rendered_at_once :
    render greeting "hi" [("a", .string "bye")] = "Say hi and bye." ∧
      render greeting "hi" [("a", .string "bye")] =
        simultaneous greeting "hi" [("a", .string "bye")] :=
  ⟨by decide +kernel, (render_is_simultaneous_where_it_searches_the_template_only
    (by simp : ([("a", Value.string "bye")].map Prod.fst).Nodup) (by decide +kernel)).1⟩

theorem an_input_is_searched_for_placeholders :
    ¬ ∀ (template input : String) (outputs : Outputs), (outputs.map Prod.fst).Nodup →
      render template input outputs = simultaneous template input outputs := by
  intro h
  have hsame := h "\x7b\x7binput\x7d\x7d" (placeholder "a") [("a", .string "secret")] (by simp)
  have hrender : render "\x7b\x7binput\x7d\x7d" (placeholder "a") [("a", .string "secret")] =
      "secret" := by decide +kernel
  have hkept : simultaneous "\x7b\x7binput\x7d\x7d" (placeholder "a") [("a", .string "secret")] =
      placeholder "a" := by decide +kernel
  rw [hrender, hkept] at hsame
  exact absurd hsame (by decide)

end pai_workflows
