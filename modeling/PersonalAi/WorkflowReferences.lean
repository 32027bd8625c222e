-- The references of a workflow (pai-workflows lib.rs): which placeholders of its templates the scan of
-- `validate` sees. It reads the text of the arguments as JSON, where rendering reads their strings.
import PersonalAi.Workflows
import PersonalAi.Lib.Search

open text json

namespace pai_workflows

/-! ## Placeholders in templates -/

mutual

/-- The strings of a template of arguments that are rendered. -/
def string_leaves : Value → List String
  | .string s => [s]
  | .array xs => item_leaves xs
  | .object fields => field_leaves fields
  | _ => []

def item_leaves : List Value → List String
  | [] => []
  | x :: rest => string_leaves x ++ item_leaves rest

def field_leaves : List (String × Value) → List String
  | [] => []
  | (_, v) :: rest => string_leaves v ++ field_leaves rest

end

/-- The texts of a step that are rendered. -/
def WorkflowStep.leaves : WorkflowStep → List String
  | .Prompt _ prompt => [prompt]
  | .Tool _ _ args => string_leaves args

def placeholder (id : String) : String := REF_OPEN ++ id ++ REF_CLOSE

/-- The text has the placeholder of this id. -/
def Names (leaf id : String) : Prop := (placeholder id).toList <:+: leaf.toList

instance (leaf id : String) : Decidable (Names leaf id) :=
  decidable_of_iff (contains_str (placeholder id).toList leaf.toList = true) contains_str_iff

/-- No step names itself or a later step. -/
def NoForward (d : WorkflowDefinition) : Prop :=
  ∀ (i : Nat) (step : WorkflowStep), d.steps[i]? = some step →
    ∀ (j : Nat) (later : WorkflowStep), d.steps[j]? = some later → i ≤ j →
    ∀ leaf ∈ step.leaves, ¬ Names leaf later.id

/-- The outputs are those of the steps before this one. -/
def OutputsBefore (d : WorkflowDefinition) (i : Nat) (outputs : Outputs) : Prop :=
  ∀ id, id ∈ outputs.map Prod.fst ↔ 
    ∃ (j : Nat) (earlier : WorkflowStep), j < i ∧ d.steps[j]? = some earlier ∧ earlier.id = id

/-- `render` leaves a placeholder literal where it knows no output for it. -/
def LeftLiteral (outputs : Outputs) (leaf id : String) : Prop :=
  Names leaf id ∧ id ∉ outputs.map Prod.fst

/-- When a step is rendered, every placeholder that names a step has its output. -/
def NoneLeft (d : WorkflowDefinition) : Prop :=
  ∀ (i : Nat) (step : WorkflowStep), d.steps[i]? = some step → ∀ outputs, OutputsBefore d i outputs →
    ∀ leaf ∈ step.leaves, ∀ other ∈ d.steps, ¬ LeftLiteral outputs leaf other.id

/-- The scan reads the id as it stands: its end is the first end mark, and in arguments no character
of it is escaped. -/
def Legible (step : WorkflowStep) (id : String) : Prop :=
  ¬ REF_CLOSE.toList <:+: id.toList ∧
    match step with
    | .Prompt _ _ => True
    | .Tool _ _ _ => ∀ c ∈ id.toList, escape_char c = [c]

/-! ## What the scan sees -/

theorem ref_close_borderless : Borderless REF_CLOSE.toList := by
  have hall : ∀ k < 9, 0 < k → ¬ REF_CLOSE.toList.drop k <+: REF_CLOSE.toList := by decide
  intro k hpos hlt
  exact hall k hlt hpos

/-- No two openings overlap. -/
theorem ref_open_apart {a rest : List Char} (hpos : 0 < a.length) (hlt : a.length < 8)
    (h : REF_OPEN.toList <+: a ++ (REF_OPEN.toList ++ rest)) : False := by
  have hover : REF_OPEN.toList.drop a.length <+: REF_OPEN.toList := by
    by_cases ha : REF_OPEN.toList <+: a
    · have := ha.length_le
      have hlen : REF_OPEN.toList.length = 8 := rfl
      omega
    · exact List.prefix_of_prefix_length_le (prefix_over h ha).2 (List.prefix_append _ _) (by simp)
  have hall : ∀ n < 8, 0 < n → ¬ REF_OPEN.toList.drop n <+: REF_OPEN.toList := by decide
  exact hall a.length hlt hpos hover

/-- The scan sees each placeholder whose id holds no end mark. -/
theorem scan_refs_sees {id : List Char} (hid : ¬ REF_CLOSE.toList <:+: id) (a b : List Char)
    (n : Nat) (hn : n ≤ a.length) :
    String.ofList id ∈ scan_refs n (a ++ (REF_OPEN.toList ++ (id ++ (REF_CLOSE.toList ++ b)))) := by
  induction a generalizing n with
  | nil =>
    obtain rfl : n = 0 := by simpa using hn
    have hhere : REF_OPEN.toList.isPrefixOf
        (REF_OPEN.toList ++ (id ++ (REF_CLOSE.toList ++ b))) = true :=
      List.isPrefixOf_iff_prefix.mpr (List.prefix_append _ _)
    have hfirst := split_once_str_first ref_close_borderless (by decide) hid b
    have hdrop : (REF_OPEN.toList ++ (id ++ (REF_CLOSE.toList ++ b))).drop 8 =
        id ++ (REF_CLOSE.toList ++ b) := List.drop_left' rfl
    rw [List.nil_append]
    rcases htext : REF_OPEN.toList ++ (id ++ (REF_CLOSE.toList ++ b)) with _ | ⟨c, rest⟩
    · cases htext
    · rw [htext] at hhere hdrop
      rw [scan_refs, if_pos hhere, hdrop, hfirst]
      exact List.mem_cons_self
  | cons c a ih =>
    cases n with
    | succ n => exact ih n (by simpa using hn)
    | zero =>
      rw [List.cons_append, scan_refs]
      by_cases hhere : REF_OPEN.toList.isPrefixOf
          (c :: (a ++ (REF_OPEN.toList ++ (id ++ (REF_CLOSE.toList ++ b))))) = true
      · have hfar : 7 ≤ a.length := by
          by_contra hnear
          rw [List.isPrefixOf_iff_prefix, ← List.cons_append] at hhere
          exact ref_open_apart (by simp) (by simp; omega) hhere
        rw [if_pos hhere]
        split
        · exact List.mem_cons_of_mem _ (ih 7 hfar)
        · exact ih 7 hfar
      · rw [if_neg hhere]
        exact ih 0 (Nat.zero_le _)

/-! ## The text of the arguments -/

theorem infix_intercalate (sep : String) {l : List String} {s : String} (h : s ∈ l) :
    s.toList <:+: (sep.intercalate l).toList := by
  rw [String.toList_intercalate]
  induction l with
  | nil => cases h
  | cons x rest ih =>
    rcases rest with _ | ⟨y, rest⟩
    · rw [List.mem_singleton.mp h]
      simp
    · rw [List.map_cons, List.map_cons, List.intercalate_cons_cons]
      rcases List.mem_cons.mp h with rfl | h
      · exact ⟨[], _, by rw [List.nil_append, List.append_assoc]⟩
      · exact (ih h).trans ⟨x.toList ++ sep.toList, [], by simp⟩

def escaped (cs : List Char) : List Char := cs.flatMap escape_char

theorem escaped_plain {cs : List Char} (h : ∀ c ∈ cs, escape_char c = [c]) : escaped cs = cs := by
  induction cs with
  | nil => rfl
  | cons c rest ih =>
    rw [escaped, List.flatMap_cons, h c List.mem_cons_self]
    exact congrArg (c :: ·) (ih fun d hd => h d (List.mem_cons_of_mem _ hd))

theorem escaped_infix {a b : List Char} (h : a <:+: b) : escaped a <:+: escaped b := by
  obtain ⟨s, t, rfl⟩ := h
  exact ⟨escaped s, escaped t, by simp [escaped]⟩

theorem quote_infix (s : String) : escaped s.toList <:+: (quote s).toList := by
  refine ⟨['"'], ['"'], ?_⟩
  simp [quote, escaped]

mutual

/-- Each string stands in the text of the value, escaped. -/
theorem leaf_in_text (leaf : String) : (v : Value) → leaf ∈ string_leaves v →
    escaped leaf.toList <:+: v.to_string.toList
  | .null, h => by cases h
  | .bool _, h => by cases h
  | .number _, h => by cases h
  | .string s, h => by
    rw [List.mem_singleton.mp h, Value.to_string]
    exact quote_infix s
  | .array xs, h => by
    obtain ⟨x, hx, hleaf⟩ := leaf_in_items leaf xs h
    rw [Value.to_string]
    refine (hleaf.trans (infix_intercalate "," hx)).trans ⟨['['], [']'], ?_⟩
    simp
  | .object fields, h => by
    obtain ⟨x, hx, hleaf⟩ := leaf_in_fields leaf fields h
    rw [Value.to_string]
    refine (hleaf.trans (infix_intercalate "," hx)).trans ⟨['\x7b'], ['\x7d'], ?_⟩
    simp

theorem leaf_in_items (leaf : String) : (xs : List Value) → leaf ∈ item_leaves xs →
    ∃ s ∈ item_strings xs, escaped leaf.toList <:+: s.toList
  | [], h => by cases h
  | x :: rest, h => by
    rw [item_leaves, List.mem_append] at h
    rw [item_strings]
    rcases h with h | h
    · exact ⟨_, List.mem_cons_self, leaf_in_text leaf x h⟩
    · obtain ⟨s, hs, hleaf⟩ := leaf_in_items leaf rest h
      exact ⟨s, List.mem_cons_of_mem _ hs, hleaf⟩

theorem leaf_in_fields (leaf : String) : (fields : List (String × Value)) →
    leaf ∈ field_leaves fields →
    ∃ s ∈ field_strings fields, escaped leaf.toList <:+: s.toList
  | [], h => by cases h
  | (k, v) :: rest, h => by
    rw [field_leaves, List.mem_append] at h
    rw [field_strings]
    rcases h with h | h
    · refine ⟨_, List.mem_cons_self, (leaf_in_text leaf v h).trans ?_⟩
      exact ⟨(quote k ++ ":").toList, [], by simp⟩
    · obtain ⟨s, hs, hleaf⟩ := leaf_in_fields leaf rest h
      exact ⟨s, List.mem_cons_of_mem _ hs, hleaf⟩

end

theorem placeholder_toList (id : String) :
    (placeholder id).toList = REF_OPEN.toList ++ (id.toList ++ REF_CLOSE.toList) := by
  simp [placeholder]

theorem scan_refs_of_infix {id text : List Char} (hid : ¬ REF_CLOSE.toList <:+: id)
    (h : REF_OPEN.toList ++ (id ++ REF_CLOSE.toList) <:+: text) :
    String.ofList id ∈ scan_refs 0 text := by
  obtain ⟨a, b, rfl⟩ := h
  have hsees := scan_refs_sees hid a b 0 (Nat.zero_le _)
  simpa using hsees

/-- `step_refs` has every legible id that a text of the step names. -/
theorem step_refs_sees {step : WorkflowStep} {leaf id : String} (hleaf : leaf ∈ step.leaves)
    (hnames : Names leaf id) (hid : Legible step id) : id ∈ step_refs step := by
  unfold Names at hnames
  rw [placeholder_toList] at hnames
  cases step with
  | Prompt _ prompt =>
    rw [List.mem_singleton.mp hleaf] at hnames
    simpa [step_refs] using scan_refs_of_infix hid.1 hnames
  | Tool _ _ args =>
    have hescaped := escaped_infix hnames
    have hopen : escaped REF_OPEN.toList = REF_OPEN.toList := by decide
    have hclose : escaped REF_CLOSE.toList = REF_CLOSE.toList := by decide
    have hparts : escaped (REF_OPEN.toList ++ (id.toList ++ REF_CLOSE.toList)) =
        REF_OPEN.toList ++ (id.toList ++ REF_CLOSE.toList) := by
      have hplain := escaped_plain hid.2
      unfold escaped at hopen hclose hplain ⊢
      rw [List.flatMap_append, List.flatMap_append, hopen, hclose, hplain]
    rw [hparts] at hescaped
    simpa [step_refs] using scan_refs_of_infix hid.1 (hescaped.trans (leaf_in_text leaf args hleaf))

/-! ## What an accepted definition is -/

/-- The checks on the steps from the `i`-th on. -/
theorem validate_steps_ok {d : WorkflowDefinition} {i : Nat} {seen : List String}
    {steps : List WorkflowStep} (h : validate_steps d i seen steps = .ok ()) :
    (steps.map WorkflowStep.id).Nodup ∧ (∀ s ∈ steps, s.id ∉ seen) ∧
      ∀ k step, steps[k]? = some step → forward_ref d (i + k) step = none := by
  induction steps generalizing i seen with
  | nil => simp
  | cons s rest ih =>
    unfold validate_steps at h
    by_cases hid : s.id = "" ∨ s.id ∈ seen
    · simp [hid, bind, Except.bind, throw, throwThe, MonadExceptOf.throw] at h
    · rw [if_neg hid] at h
      rcases hallowed : tool_allowed d s with e | ⟨⟩
      · simp [hallowed, bind, Except.bind] at h
      · rcases hforward : forward_ref d i s with _ | ref
        · simp only [hallowed, hforward, bind, Except.bind] at h
          obtain ⟨hnodup, hseen, hrefs⟩ := ih h
          refine ⟨?_, ?_, ?_⟩
          · rw [List.map_cons, List.nodup_cons]
            refine ⟨?_, hnodup⟩
            intro hmem
            obtain ⟨t, ht, hsame⟩ := List.mem_map.mp hmem
            exact hseen t ht (by rw [hsame]; exact List.mem_cons_self)
          · intro t ht
            rcases List.mem_cons.mp ht with rfl | ht
            · exact fun hmem => hid (.inr hmem)
            · exact fun hmem => hseen t ht (List.mem_cons_of_mem _ hmem)
          · intro k step hk
            cases k with
            | zero =>
              cases hk
              exact hforward
            | succ k =>
              have := hrefs k step hk
              rwa [Nat.add_right_comm] at this
        · simp [hallowed, hforward, bind, Except.bind] at h

theorem validate_ok {d : WorkflowDefinition} (h : d.validate = .ok ()) :
    validate_steps d 0 [] d.steps = .ok () := by
  unfold WorkflowDefinition.validate at h
  split_ifs at h
  exact h

/-- In an accepted definition an id leads to its own step. -/
theorem findIdx_id {steps : List WorkflowStep} (h : (steps.map WorkflowStep.id).Nodup) {j : Nat}
    {step : WorkflowStep} (hj : steps[j]? = some step) :
    steps.findIdx? (fun s => s.id == step.id) = some j := by
  obtain ⟨hlt, hget⟩ := List.getElem?_eq_some_iff.mp hj
  rw [List.findIdx?_eq_some_iff_getElem]
  refine ⟨hlt, by rw [hget]; exact beq_self_eq_true _, ?_⟩
  intro k hk
  simp only [beq_iff_eq]
  intro hsame
  have hk' : k < (steps.map WorkflowStep.id).length := by rw [List.length_map]; omega
  have hj' : j < (steps.map WorkflowStep.id).length := by rw [List.length_map]; omega
  have hids : (steps.map WorkflowStep.id)[k] = (steps.map WorkflowStep.id)[j] := by
    rw [List.getElem_map, List.getElem_map, hsame, hget]
  exact List.pairwise_iff_getElem.mp h k j hk' hj' hk hids

/-- An accepted definition has no legible reference to a step that has not run. -/
theorem accepted_refs {d : WorkflowDefinition} (h : d.validate = .ok ()) {i j : Nat}
    {step later : WorkflowStep} (hi : d.steps[i]? = some step) (hj : d.steps[j]? = some later)
    (hij : i ≤ j) : later.id ∉ step_refs step := by
  intro hmem
  obtain ⟨hnodup, -, hrefs⟩ := validate_steps_ok (validate_ok h)
  have hnone := hrefs i step hi
  rw [Nat.zero_add] at hnone
  unfold forward_ref at hnone
  have hno := List.find?_eq_none.mp hnone later.id hmem
  rw [findIdx_id hnodup hj] at hno
  simp [hij] at hno

/-! ## The law -/

/-- **Validation catches every forward reference that it can read.** In an accepted definition no
text names its own or a later step, and none is left literal when the step is rendered, exactly
where each such id is legible to the scan. -/
theorem forward_references_are_caught_where_legible {d : WorkflowDefinition}
    (h : d.validate = .ok ()) :
    (NoForward d ∧ NoneLeft d) ↔
      ∀ (i : Nat) (step : WorkflowStep), d.steps[i]? = some step →
        ∀ (j : Nat) (later : WorkflowStep), d.steps[j]? = some later → i ≤ j →
          ∀ leaf ∈ step.leaves, Names leaf later.id → Legible step later.id := by
  constructor
  · rintro ⟨hforward, -⟩ i step hi j later hj hij leaf hleaf hnames
    exact (hforward i step hi j later hj hij leaf hleaf hnames).elim
  · intro hlegible
    have hforward : NoForward d := by
      intro i step hi j later hj hij leaf hleaf hnames
      have hid := hlegible i step hi j later hj hij leaf hleaf hnames
      exact accepted_refs h hi hj hij (step_refs_sees hleaf hnames hid)
    refine ⟨hforward, ?_⟩
    rintro i step hi outputs houtputs leaf hleaf other hother ⟨hnames, hno⟩
    obtain ⟨j, hj⟩ := List.mem_iff_getElem?.mp hother
    by_cases hij : i ≤ j
    · exact hforward i step hi j other hj hij leaf hleaf hnames
    · exact hno ((houtputs other.id).mpr ⟨j, other, by omega, hj, rfl⟩)

/-! ## An id with a quote -/

/-- The first step asks for its own output, under an id that JSON escapes. -/
def quoted_workflow : WorkflowDefinition :=
  { name := "w", description := "", tools := ["t"],
    steps := [.Tool "a\"b" "t" (.object [("text", .string (placeholder "a\"b"))])] }

theorem a_quoted_id_is_not_seen :
    quoted_workflow.validate = .ok () ∧ ¬ (NoForward quoted_workflow ∧ NoneLeft quoted_workflow) := by
  refine ⟨by decide +kernel, ?_⟩
  rintro ⟨hforward, -⟩
  exact hforward 0 _ rfl 0 _ rfl (Nat.le_refl 0) (placeholder "a\"b") (by decide +kernel)
    (List.infix_rfl)

/-- A second step asks for the output of the first. -/
def plain_workflow : WorkflowDefinition :=
  { name := "w", description := "", tools := ["t"],
    steps := [.Prompt "a" "hello", .Tool "b" "t" (.object [("text", .string (placeholder "a"))])] }

theorem a_plain_workflow_has_no_forward_reference :
    plain_workflow.validate = .ok () ∧ NoForward plain_workflow ∧ NoneLeft plain_workflow := by
  have hvalid : plain_workflow.validate = .ok () := by decide +kernel
  refine ⟨hvalid, (forward_references_are_caught_where_legible hvalid).mpr ?_⟩
  have hall : ∀ s ∈ plain_workflow.steps, ∀ t ∈ plain_workflow.steps, Legible s t.id := by
    have hids : ∀ t ∈ plain_workflow.steps, t.id.toList = ['a'] ∨ t.id.toList = ['b'] := by
      simp [plain_workflow, WorkflowStep.id]
    have hlong : 1 < REF_CLOSE.toList.length := by simp [REF_CLOSE]
    intro s _ t ht
    have hmark : ¬ REF_CLOSE.toList <:+: t.id.toList := by
      intro hin
      have hshort := hin.length_le
      obtain h | h := hids t ht <;> rw [h, List.length_singleton] at hshort <;> omega
    have hescaped : ∀ c ∈ t.id.toList, escape_char c = [c] := by
      intro c hc
      obtain h | h := hids t ht <;> rw [h] at hc <;> obtain rfl := List.mem_singleton.mp hc <;> rfl
    refine ⟨hmark, ?_⟩
    cases s with
    | Prompt id text => trivial
    | Tool id tool args => exact hescaped
  intro i step hi j later hj _ leaf _ _
  exact hall step (List.mem_of_getElem? hi) later (List.mem_of_getElem? hj)

end pai_workflows
