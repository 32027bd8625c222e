-- The scope of a run's memories: what a run may see of the table decides what it gets to see,
-- and the rest of the table stays as it is.
import PersonalAi.Lib.Runs
import PersonalAi.MemoryTools

open pai_core pai_tools json runs
open pai_agent (MemoryScopeQuery RecallQuery isolated_scope AgentRuntime)

namespace pai_memory

variable {F : Type} {e : Engine F}

/-! ## The part that a run may see -/

def visible (q : MemoryScopeQuery) (r : Row F) : Bool := sees q r.item.conversation

def view (q : MemoryScopeQuery) (rows : List (Row F)) : List (Row F) := rows.filter (visible q)

def hidden (q : MemoryScopeQuery) (rows : List (Row F)) : List (Row F) :=
  rows.filter fun r => !visible q r

/-- A test that only visible rows pass sees the view alone. -/
theorem filter_eq_view {q : MemoryScopeQuery} {p : Row F → Bool} {rows : List (Row F)}
    (hp : ∀ r ∈ rows, p r = true → visible q r = true) : rows.filter p = (view q rows).filter p := by
  rw [view, List.filter_filter]
  refine List.filter_congr fun r hr => ?_
  rcases hpr : p r with _ | _
  · rfl
  · simp [hp r hr hpr]

theorem find_eq_view {q : MemoryScopeQuery} {p : Row F → Bool} {rows : List (Row F)}
    (hp : ∀ r ∈ rows, p r = true → visible q r = true) : rows.find? p = (view q rows).find? p := by
  rw [← List.head?_filter, ← List.head?_filter, filter_eq_view hp]

/-! ## Recall -/

/-- A recall can come to the row: it is live, in the scope of the query, and near its text. -/
def reaches (e : Engine F) (query : RecallQuery) (r : Row F) : Bool :=
  !r.deleted && sees query.memory_scope r.item.conversation &&
    match query.text with
    | none => true
    | some text => e.fts_match (tokens e text) r.item.content ||
        match e.embed text with
        | some vector => (similar e vector r).isSome
        | none => false

/-- The text index puts the rows of a view in one order, whichever of the two tables it is of. -/
def SameRanks (e : Engine F) (query : RecallQuery) (q : MemoryScopeQuery)
    (rows rows' : List (Row F)) : Prop :=
  ∀ text, query.text = some text → ∀ a ∈ view q rows, ∀ b ∈ view q rows,
    e.fts_before (rows.map fun r => r.item.content) (tokens e text) a.item.content b.item.content =
      e.fts_before (rows'.map fun r => r.item.content) (tokens e text) a.item.content b.item.content

/-- What a recall may rest on: all that it reaches is visible, and the ranks are the same. -/
structure Covered (e : Engine F) (query : RecallQuery) (q : MemoryScopeQuery)
    (rows rows' : List (Row F)) : Prop where
  left : ∀ r ∈ rows, reaches e query r = true → visible q r = true
  right : ∀ r ∈ rows', reaches e query r = true → visible q r = true
  ranks : SameRanks e query q rows rows'

section Recall
variable {query : RecallQuery} {q : MemoryScopeQuery} {rows rows' : List (Row F)}

theorem newest_agrees (hview : view q rows = view q rows') (h : Covered e query q rows rows')
    (htext : query.text = none) (limit : Nat) :
    newest query.memory_scope limit rows = newest query.memory_scope limit rows' := by
  have hp : ∀ l : List (Row F), (∀ r ∈ l, reaches e query r = true → visible q r = true) →
      ∀ r ∈ l, (!r.deleted && sees query.memory_scope r.item.conversation) = true →
        visible q r = true := by
    intro l hl r hr hlive
    exact hl r hr (by simpa [reaches, htext] using hlive)
  unfold newest
  rw [filter_eq_view (hp rows h.left), filter_eq_view (hp rows' h.right), hview]

theorem fts_rows_agree (hview : view q rows = view q rows') (h : Covered e query q rows rows')
    {text : String} (htext : query.text = some text) (limit : Nat) :
    fts_rows e (tokens e text) query.memory_scope limit rows =
      fts_rows e (tokens e text) query.memory_scope limit rows' := by
  have hp : ∀ l : List (Row F), (∀ r ∈ l, reaches e query r = true → visible q r = true) →
      ∀ r ∈ l, (e.fts_match (tokens e text) r.item.content && !r.deleted &&
        sees query.memory_scope r.item.conversation) = true → visible q r = true := by
    intro l hl r hr hfound
    simp only [Bool.and_eq_true] at hfound
    exact hl r hr (by simp [reaches, htext, hfound.1.1, hfound.1.2, hfound.2])
  unfold fts_rows
  rw [filter_eq_view (hp rows h.left), filter_eq_view (hp rows' h.right), ← hview]
  refine congrArg (List.take limit) (sorting.insertionSort_congr
    (List.pairwise_of_forall_mem_list fun a ha b hb => ?_))
  rw [h.ranks text htext a (List.mem_filter.mp ha).1 b (List.mem_filter.mp hb).1]

theorem vector_hits_agree (hview : view q rows = view q rows') (h : Covered e query q rows rows')
    {text : String} (htext : query.text = some text) {vector : List F}
    (hvector : e.embed text = some vector) :
    vector_hits e vector query.memory_scope rows = vector_hits e vector query.memory_scope rows' := by
  have hp : ∀ l : List (Row F), (∀ r ∈ l, reaches e query r = true → visible q r = true) →
      ∀ r ∈ l, ((similar e vector r).isSome && !r.deleted &&
        sees query.memory_scope r.item.conversation) = true → visible q r = true := by
    intro l hl r hr hfound
    simp only [Bool.and_eq_true] at hfound
    exact hl r hr (by simp [reaches, htext, hvector, hfound.1.1, hfound.1.2, hfound.2])
  unfold vector_hits
  rw [filter_eq_view (hp rows h.left), filter_eq_view (hp rows' h.right), hview]

theorem recall_agrees (hview : view q rows = view q rows') (h : Covered e query q rows rows') :
    e.recall query rows = e.recall query rows' := by
  unfold Engine.recall
  rcases htext : query.text with _ | text
  · simp only [newest_agrees hview h htext]
  · dsimp only
    rw [fts_rows_agree hview h htext]
    rcases hvector : e.embed text with _ | vector
    · rfl
    · simp only [vector_hits_agree hview h htext hvector]

/-- A query with the scope of the run reaches what the run may see. -/
theorem reaches_visible (hscope : query.memory_scope = q) {r : Row F}
    (h : reaches e query r = true) : visible q r = true := by
  simp only [reaches, Bool.and_eq_true] at h
  exact hscope ▸ h.1.2

/-- A memory that is recalled is in the table, live and in the scope of the query. -/
theorem recall_mem {s : ScoredMemory F} (h : s ∈ e.recall query rows) :
    ∃ r ∈ rows, r.item = s.item ∧ reaches e query r = true := by
  have hranked : ∀ limit out, s ∈ ranked e query limit out → s ∈ out := by
    intro limit out hs
    have := (List.mem_insertionSort _).mp (List.mem_of_mem_take hs)
    exact (List.mem_filter.mp this).1
  unfold Engine.recall at h
  rcases htext : query.text with _ | text
  · rw [htext] at h
    obtain ⟨r, hr, rfl⟩ := List.mem_map.mp (hranked _ _ h)
    have hfound := List.mem_filter.mp ((List.mem_insertionSort _).mp (List.mem_of_mem_take hr))
    exact ⟨r, hfound.1, rfl, by simpa [reaches, htext] using hfound.2⟩
  · rw [htext] at h
    dsimp only at h
    split at h
    · cases h
    · rcases List.mem_append.mp (hranked _ _ h) with hfound | hnear
      · obtain ⟨r, hr, rfl⟩ := List.mem_map.mp hfound
        have hin := List.mem_filter.mp ((List.mem_insertionSort _).mp (List.mem_of_mem_take hr))
        simp only [Bool.and_eq_true] at hin
        exact ⟨r, hin.1, rfl, by simp [reaches, htext, hin.2.1.1, hin.2.1.2, hin.2.2]⟩
      · split at hnear
        · rename_i vector hvector
          obtain ⟨r, hr, hs⟩ := List.mem_filterMap.mp hnear
          have hin := List.mem_filter.mp hr
          simp only [Bool.and_eq_true] at hin
          refine ⟨r, hin.1, ?_, by simp [reaches, htext, hvector, hin.2.1.1, hin.2.1.2, hin.2.2]⟩
          obtain ⟨v, -, hv⟩ := Option.bind_eq_some_iff.mp hs
          split at hv
          · cases hv
            rfl
          · cases hv
        · cases hnear

end Recall

/-! ## One call -/

/-- Two worlds that a run cannot tell apart. -/
structure Agree (q : MemoryScopeQuery) (w w' : World F) : Prop where
  view : view q w.rows = view q w'.rows
  now : w.now = w'.now
  fresh : w.fresh = w'.fresh

def NamesVisible (q : MemoryScopeQuery) (id : MemoryId) (w : World F) : Prop :=
  ∀ r ∈ w.rows, r.item.id = id → visible q r = true

/-- The call names a visible memory or none at all, or it looks for one with a text that only
visible memories answer. The id of a new memory is new. -/
def OwnCall (e : Engine F) (q : MemoryScopeQuery) (ctx : ToolContext) (call : ToolCall)
    (w : World F) : Prop :=
  match call.tool with
  | .remember => w.fresh ∉ w.rows.map fun r => r.item.id
  | .share => ∀ id ∈ (call.args.index "memory_id").as_str, ∀ mid ∈ e.parse_str id,
      NamesVisible q mid w
  | .forget =>
    match (call.args.index "memory_id").as_str with
    | some id => ∀ mid ∈ e.parse_str id, NamesVisible q mid w
    | none => ∀ text ∈ (call.args.index "query").as_str, ∀ r ∈ w.rows,
        reaches e (forget_query ctx.memory_scope text) r = true → visible q r = true

/-- The ranks that a forgetting by text rests on. -/
def RankedCall (e : Engine F) (q : MemoryScopeQuery) (ctx : ToolContext) (call : ToolCall)
    (w w' : World F) : Prop :=
  call.tool = .forget → (call.args.index "memory_id").as_str = none →
    ∀ text ∈ (call.args.index "query").as_str,
      SameRanks e (forget_query ctx.memory_scope text) q w.rows w'.rows

section Calls
variable {q : MemoryScopeQuery} {ctx : ToolContext} {call : ToolCall} {w w' : World F}
  {id : MemoryId} {change : Row F → Row F} {hid : ∀ r, (change r).item.id = r.item.id}

theorem update_view (hconv : ∀ r, (change r).item.conversation = r.item.conversation) :
    view q (w.update id change hid).rows =
      (view q w.rows).map fun r => if r.item.id = id then change r else r := by
  simp only [view, World.update, List.filter_map]
  congr 1
  refine List.filter_congr fun r _ => ?_
  simp only [visible, Function.comp]
  split
  · rw [hconv]
  · rfl

theorem update_hidden (hconv : ∀ r, (change r).item.conversation = r.item.conversation)
    (hown : NamesVisible q id w) : hidden q (w.update id change hid).rows = hidden q w.rows := by
  have hvisible : ∀ r : Row F, visible q (if r.item.id = id then change r else r) = visible q r := by
    intro r
    simp only [visible]
    split
    · rw [hconv]
    · rfl
  simp only [hidden, World.update, List.filter_map, Function.comp_def, hvisible]
  refine (List.map_congr_left fun r hr => ?_).trans (List.map_id _)
  obtain ⟨hin, hhid⟩ := List.mem_filter.mp hr
  rw [if_neg]
  · rfl
  · intro hname
    simp [hown r hin hname] at hhid

theorem Agree.update {change' : Row F → Row F} {hid' : ∀ r, (change' r).item.id = r.item.id}
    (h : Agree q w w') (hconv : ∀ r, (change r).item.conversation = r.item.conversation)
    (hchange : change = change') :
    Agree q (w.update id change hid) (w'.update id change' hid') := by
  subst hchange
  exact ⟨by rw [update_view hconv, update_view hconv, h.view], h.now, h.fresh⟩

theorem find_agrees (h : Agree q w w') {p : Row F → Bool}
    (hp : ∀ r ∈ w.rows, p r = true → visible q r = true)
    (hp' : ∀ r ∈ w'.rows, p r = true → visible q r = true) :
    w.rows.find? p = w'.rows.find? p := by
  rw [find_eq_view hp, find_eq_view hp', h.view]

theorem any_agrees (h : Agree q w w') (hown : NamesVisible q id w) (hown' : NamesVisible q id w') :
    w.rows.any (fun r => decide (r.item.id = id)) = w'.rows.any (fun r => decide (r.item.id = id)) := by
  have hfind := find_agrees h (p := fun r => decide (r.item.id = id))
    (fun r hr hname => hown r hr (of_decide_eq_true hname))
    (fun r hr hname => hown' r hr (of_decide_eq_true hname))
  rw [Bool.eq_iff_iff, List.any_eq_true, List.any_eq_true, ← List.find?_isSome, ← List.find?_isSome,
    hfind]

theorem get_agrees (h : Agree q w w') (hown : NamesVisible q id w) (hown' : NamesVisible q id w') :
    w.get id = w'.get id := by
  unfold World.get
  rw [find_agrees h]
  · intro r hr hname
    simp only [Bool.and_eq_true, decide_eq_true_eq] at hname
    exact hown r hr hname.1
  · intro r hr hname
    simp only [Bool.and_eq_true, decide_eq_true_eq] at hname
    exact hown' r hr hname.1

/-- The memory that a forgetting finds has a name that is visible. -/
theorem forgotten_visible (hcall : call.tool = .forget) (hown : OwnCall e q ctx call w)
    {item : MemoryItem F} (h : forgotten e call.args ctx w = .ok item) :
    NamesVisible q item.id w := by
  simp only [OwnCall, hcall] at hown
  unfold forgotten at h
  split at h
  · rename_i id hid
    rw [hid] at hown
    split at h
    · cases h
    · rename_i mid hmid
      unfold World.get at h
      split at h
      · rename_i r hr
        cases h
        have hname := List.find?_some hr
        simp only [Bool.and_eq_true, decide_eq_true_eq] at hname
        rw [hname.1]
        exact hown mid hmid
      · cases h
  · rename_i hid
    rw [hid] at hown
    split at h
    · rename_i text htext
      split at h
      · rename_i scored rest hrecall
        cases h
        obtain ⟨r, hr, hitem, hreach⟩ := recall_mem (hrecall ▸ List.mem_cons_self)
        intro r' hr' hname
        -- the id is the key of the table
        have hsame : r' = r := by
          refine List.inj_on_of_nodup_map w.unique hr' hr ?_
          rw [hname, ← hitem]
        exact hsame ▸ hown text htext r hr hreach
      · cases h
    · cases h

theorem forgotten_agrees (h : Agree q w w') (hcall : call.tool = .forget)
    (hown : OwnCall e q ctx call w) (hown' : OwnCall e q ctx call w')
    (hranks : RankedCall e q ctx call w w') :
    forgotten e call.args ctx w = forgotten e call.args ctx w' := by
  simp only [OwnCall, hcall] at hown hown'
  unfold forgotten
  rcases hid : (call.args.index "memory_id").as_str with _ | id
  · rw [hid] at hown hown'
    rcases htext : (call.args.index "query").as_str with _ | text
    · rfl
    · dsimp only
      rw [recall_agrees h.view ⟨hown text htext, hown' text htext, hranks hcall hid text htext⟩]
  · rw [hid] at hown hown'
    dsimp only at hown hown' ⊢
    rcases hmid : e.parse_str id with _ | mid
    · rfl
    · exact get_agrees h (hown mid hmid) (hown' mid hmid)

theorem embedded_id (item : MemoryItem F) : (e.embedded item).id = item.id := by
  unfold Engine.embedded
  split <;> rfl

theorem embedded_conversation (item : MemoryItem F) :
    (e.embedded item).conversation = item.conversation := by
  unfold Engine.embedded
  split <;> rfl

/-- A new memory is visible to the run that makes it. -/
theorem put_new {item : MemoryItem F} (hnew : item.id ∉ w.rows.map fun r => r.item.id)
    (hvisible : sees q item.conversation = true) : ∃ v, w.put e item = (.ok (), v) ∧
      v.now = w.now ∧ v.fresh = w.fresh ∧
      view q v.rows = view q w.rows ++ [{ item := e.embedded item, deleted := false }] ∧
      hidden q v.rows = hidden q w.rows := by
  unfold World.put
  rw [dif_neg (by simpa only [embedded_id] using hnew)]
  refine ⟨_, rfl, rfl, rfl, ?_, ?_⟩
  · simp only [view, List.filter_append]
    rw [List.filter_cons_of_pos (by simpa only [visible, embedded_conversation] using hvisible),
      List.filter_nil]
  · simp only [hidden, List.filter_append]
    rw [List.filter_cons_of_neg (by simp only [visible, embedded_conversation, hvisible]; decide),
      List.filter_nil, List.append_nil]

theorem remember_agrees (hq : sees q ctx.memory_scope = true) (h : Agree q w w')
    (hnew : w.fresh ∉ w.rows.map fun r => r.item.id)
    (hnew' : w'.fresh ∉ w'.rows.map fun r => r.item.id) (args : Value) :
    (MemoryRemember.execute e args ctx w).1 = (MemoryRemember.execute e args ctx w').1 ∧
      Agree q (MemoryRemember.execute e args ctx w).2 (MemoryRemember.execute e args ctx w').2 := by
  unfold MemoryRemember.execute user_fact
  rcases (args.index "content").as_str with _ | content
  · exact ⟨rfl, h⟩
  · rw [h.now, h.fresh]
    dsimp only
    generalize hitem : MemoryItem.mk w'.fresh _ content _ _ _ _ _ _ _ _ _ _ = item
    have hid : item.id = w'.fresh := by rw [← hitem]
    have hconv : item.conversation = ctx.memory_scope := by rw [← hitem]
    obtain ⟨v, hput, hnow, hfresh, hview, -⟩ := @put_new F e q w item
      (by rw [hid, ← h.fresh]; exact hnew) (hconv ▸ hq)
    obtain ⟨v', hput', hnow', hfresh', hview', -⟩ := @put_new F e q w' item
      (by rw [hid]; exact hnew') (hconv ▸ hq)
    rw [hput, hput']
    exact ⟨rfl, by rw [hview, hview', h.view], by rw [hnow, hnow', h.now],
      by rw [hfresh, hfresh', h.fresh]⟩

/-- What a call gives, and what it leaves of the view, rests on the view alone. -/
theorem call_agrees (hq : sees q ctx.memory_scope = true) (h : Agree q w w')
    (hown : OwnCall e q ctx call w) (hown' : OwnCall e q ctx call w')
    (hranks : RankedCall e q ctx call w w') :
    (call.execute e ctx w).1 = (call.execute e ctx w').1 ∧
      Agree q (call.execute e ctx w).2 (call.execute e ctx w').2 := by
  unfold ToolCall.execute
  rcases htool : call.tool with _ | _ | _
  · simp only [OwnCall, htool] at hown hown'
    exact remember_agrees hq h hown hown' call.args
  · simp only [OwnCall, htool] at hown hown'
    dsimp only
    unfold MemoryShare.execute
    rcases hid : (call.args.index "memory_id").as_str with _ | id
    · exact ⟨rfl, h⟩
    · dsimp only
      rcases hmid : e.parse_str id with _ | mid
      · exact ⟨rfl, h⟩
      · have hany := any_agrees h (hown id hid mid hmid) (hown' id hid mid hmid)
        simp only [World.set_share_circle, hany]
        exact ⟨rfl, h.update (fun _ => rfl) (by rw [h.now])⟩
  · dsimp only
    have hfound := forgotten_agrees h htool hown hown' hranks
    unfold MemoryForget.execute
    rw [← hfound]
    rcases forgotten e call.args ctx w with err | item
    · exact ⟨rfl, h⟩
    · dsimp only [World.delete]
      exact ⟨rfl, h.update (fun _ => rfl) (by rw [h.now])⟩

/-- A call leaves the hidden part as it is. -/
theorem call_confined (hq : sees q ctx.memory_scope = true) (hown : OwnCall e q ctx call w) :
    hidden q (call.execute e ctx w).2.rows = hidden q w.rows := by
  unfold ToolCall.execute
  rcases htool : call.tool with _ | _ | _
  · simp only [OwnCall, htool] at hown
    dsimp only
    unfold MemoryRemember.execute user_fact
    rcases (call.args.index "content").as_str with _ | content
    · rfl
    · dsimp only
      generalize hitem : MemoryItem.mk w.fresh _ content _ _ _ _ _ _ _ _ _ _ = item
      obtain ⟨v, hput, -, -, -, hhidden⟩ := @put_new F e q w item
        (by rw [← hitem]; exact hown) (by rw [← hitem]; exact hq)
      rw [hput]
      exact hhidden
  · simp only [OwnCall, htool] at hown
    dsimp only
    unfold MemoryShare.execute
    rcases hid : (call.args.index "memory_id").as_str with _ | id
    · rfl
    · dsimp only
      rcases hmid : e.parse_str id with _ | mid
      · rfl
      · simp only [World.set_share_circle]
        exact update_hidden (fun _ => rfl) (hown id hid mid hmid)
  · dsimp only
    unfold MemoryForget.execute
    rcases hfound : forgotten e call.args ctx w with err | item
    · rfl
    · dsimp only
      rw [World.delete]
      exact update_hidden (fun _ => rfl) (forgotten_visible htool hown hfound)

end Calls

/-! ## The run -/

/-- What two runs agree on that a model steers: what it has seen, and the view behind it. -/
structure Alike (q : MemoryScopeQuery) (s s' : Session F) : Prop where
  seen : s.seen = s'.seen
  view : view q s.world.rows = view q s'.world.rows

/-- The call that a turn brings keeps to what the run may see, in both of two tables. -/
def ClearTurn (e : Engine F) (q : MemoryScopeQuery) (ctx : ToolContext)
    (model : List Observation → Option ToolCall) (p : Session F × Session F) (t : Turn) : Prop :=
  ∀ call ∈ model p.1.seen,
    OwnCall e q ctx call (p.1.world.during t) ∧ OwnCall e q ctx call (p.2.world.during t) ∧
      RankedCall e q ctx call (p.1.world.during t) (p.2.world.during t)

section Turns
variable {q : MemoryScopeQuery} {ctx : ToolContext} {model : List Observation → Option ToolCall}

/-- A run may see what it writes. -/
theorem sees_own (q : MemoryScopeQuery) (hq : q ≠ .All) : sees q (isolated_scope q) = true := by
  match q with
  | .All => exact absurd rfl hq
  | .GlobalOnly => rfl
  | .Scoped c true => rfl
  | .Scoped c false => simp [isolated_scope, sees]

theorem memory_query_scoped {W : Type} (rt : AgentRuntime W) (conversation : Option ConversationId)
    (h : W) : rt.memory_query conversation h ≠ .All := by
  rcases conversation with _ | c
  · exact MemoryScopeQuery.noConfusion
  · exact MemoryScopeQuery.noConfusion

theorem step_alike (hq : sees q ctx.memory_scope = true) {p : Session F × Session F} {t : Turn}
    (h : Alike q p.1 p.2) (hclear : ClearTurn e q ctx model p t) :
    Alike q (p.1.step e ctx model t) (p.2.step e ctx model t) := by
  unfold Session.step
  rw [← h.seen]
  rcases hcall : model p.1.seen with _ | call
  · exact h
  · obtain ⟨hown, hown', hranks⟩ := hclear call hcall
    have hagree : Agree q (p.1.world.during t) (p.2.world.during t) := ⟨h.view, rfl, rfl⟩
    obtain ⟨hresult, hafter⟩ := call_agrees hq hagree hown hown' hranks
    exact ⟨by simp only [h.seen, hresult], hafter.view⟩

theorem step_confined (hq : sees q ctx.memory_scope = true) {s : Session F} {t : Turn}
    (hown : ∀ call ∈ model s.seen, OwnCall e q ctx call (s.world.during t)) :
    hidden q (s.step e ctx model t).world.rows = hidden q s.world.rows := by
  unfold Session.step
  rcases hcall : model s.seen with _ | call
  · rfl
  · exact call_confined hq (hown call hcall)

/-- Two runs of one model that begin alike stay alike, and neither touches what it may not see. -/
theorem runs_alike (hq : sees q ctx.memory_scope = true) {s s' : Session F} (h : Alike q s s')
    {turns : List Turn}
    (hclear : Along (pair (Session.step e ctx model) (Session.step e ctx model))
      (ClearTurn e q ctx model) (s, s') turns) :
    Alike q (run (Session.step e ctx model) s turns) (run (Session.step e ctx model) s' turns) ∧
      hidden q (run (Session.step e ctx model) s turns).world.rows = hidden q s.world.rows ∧
      hidden q (run (Session.step e ctx model) s' turns).world.rows = hidden q s'.world.rows := by
  have hend := @invariant _ _ (pair (Session.step e ctx model) (Session.step e ctx model))
    (fun p => Alike q p.1 p.2 ∧ hidden q p.1.world.rows = hidden q s.world.rows ∧
      hidden q p.2.world.rows = hidden q s'.world.rows)
    (ClearTurn e q ctx model)
    (by
      rintro p t ⟨halike, hleft, hright⟩ hturn
      refine ⟨step_alike hq halike hturn, ?_, ?_⟩
      · exact (step_confined hq fun call hcall => (hturn call hcall).1).trans hleft
      · exact (step_confined hq fun call hcall =>
          (hturn call (halike.seen ▸ hcall)).2.1).trans hright)
    (s, s') ⟨h, rfl, rfl⟩ turns hclear
  rw [run_pair] at hend
  exact hend

/-- The prompt rests on the view, where the text index ranks the view alike. -/
theorem begin_alike {scopes : List MemoryScope} {user_text : String} {w w' : World F}
    (hview : view q w.rows = view q w'.rows)
    (hprompt : user_text ≠ "" → SameRanks e (prompt_query scopes user_text q) q w.rows w'.rows) :
    Alike q (Session.begin e scopes user_text q w) (Session.begin e scopes user_text q w') := by
  refine ⟨?_, hview⟩
  unfold Session.begin
  by_cases htext : user_text = ""
  · rw [if_pos htext, if_pos htext]
  · rw [if_neg htext, if_neg htext, recall_agrees hview
      ⟨fun r _ => reaches_visible rfl, fun r _ => reaches_visible rfl, hprompt htext⟩]

end Turns

/-- The memory of a run is its own: where each call keeps to what the run may see, and the text
index ranks that part alike, two tables with one view give one prompt and one list of results,
and what the run may not see stays as it is. -/
theorem isolated_memory {W : Type} (rt : AgentRuntime W) (host : W)
    (conversation : Option ConversationId) (scopes : List MemoryScope) (user_text : String)
    (ctx : ToolContext) (model : List Observation → Option ToolCall) (turns : List Turn)
    (w w' : World F)
    (hview : view (rt.memory_query conversation host) w.rows =
      view (rt.memory_query conversation host) w'.rows)
    (hprompt : user_text ≠ "" →
      SameRanks e (prompt_query scopes user_text (rt.memory_query conversation host))
        (rt.memory_query conversation host) w.rows w'.rows)
    (hclear :
      let q := rt.memory_query conversation host
      let step := Session.step e (tool_context ctx q) model
      Along (pair step step) (ClearTurn e q (tool_context ctx q) model)
        (Session.begin e scopes user_text q w, Session.begin e scopes user_text q w') turns) :
    let q := rt.memory_query conversation host
    let ends := fun v : World F =>
      run (Session.step e (tool_context ctx q) model) (Session.begin e scopes user_text q v) turns
    (ends w).seen = (ends w').seen ∧
      hidden q (ends w).world.rows = hidden q w.rows ∧
      hidden q (ends w').world.rows = hidden q w'.rows := by
  intro q ends
  have hq : sees q (tool_context ctx q).memory_scope = true :=
    sees_own q (memory_query_scoped rt conversation host)
  obtain ⟨halike, hleft, hright⟩ := runs_alike hq (begin_alike hview hprompt) hclear
  exact ⟨halike.seen, hleft, hright⟩

/-! ### A private conversation -/

/-- Floats in tenths, an index of whole words, and no embedder. -/
def word_engine : Engine Nat :=
  { importance_of := fun _ => 8, one := 10, add := (· + ·), le := fun a b => decide (a ≤ b),
    cosine := fun _ _ => 0, above := fun _ => false, embed := fun _ => none,
    is_alphanumeric := Char.isAlphanum,
    fts_match := fun words text =>
      words.any fun word => (text.toList.splitOnP fun c => !c.isAlphanum).contains word.toList,
    fts_before := fun _ _ _ _ => true, parse_str := fun id => some ⟨id⟩ }

/-- A runtime whose conversations have isolated memory. -/
def private_runtime : AgentRuntime Unit :=
  { providers := fun _ => none, tools := ToolRegistry.empty,
    permissions := fun _ => { rules := fun _ => none }, memory_recall := fun _ w => (.ok [], w),
    record := fun _ w => (.ok (), w), max_steps := 4, device := ⟨"phone"⟩,
    persistence := some
      { write := fun _ w => w, load := fun _ w => (.error (.NotFound "run"), w),
        memory_of := fun _ _ => some .Isolated },
    allowed_roots := [], new_id := fun w => ("id", w), now := fun w => (0, w) }

def private_context : ToolContext :=
  { run := ⟨"run"⟩, device := ⟨"phone"⟩, memory_scope := none, allowed_roots := [] }

def note (id content : String) (conversation : Option ConversationId) : Row Nat :=
  { item :=
      { id := ⟨id⟩, scope := .Semantic, content, source := .UserStated, created_at := 0,
        updated_at := 0, confidence := 10, importance := 8, privacy := .Normal, entities := [],
        embedding := none, conversation, share_circle := none }
    deleted := false }

def own_note : Row Nat := note "1" "the pin of the safe" (some ⟨"private"⟩)

/-- The table has the note of the conversation alone. -/
def one_note : World Nat :=
  { rows := [own_note], unique := by decide, now := 0, fresh := ⟨"2"⟩ }

/-- The table has two more notes, a global one and that of another conversation. -/
def three_notes : World Nat :=
  { rows := [note "3" "the code of the door" none, own_note,
      note "4" "the key of the diary" (some ⟨"other"⟩)]
    unique := by decide, now := 0, fresh := ⟨"2"⟩ }

/-- A run in the private conversation. -/
def private_run (model : List Observation → Option ToolCall) (turns : List Turn) (w : World Nat) :
    Session Nat :=
  let q := private_runtime.memory_query (some ⟨"private"⟩) ()
  run (Session.step word_engine (tool_context private_context q) model)
    (Session.begin word_engine [] "where is the safe" q w) turns

/-- A model that remembers the milk, and then forgets the pin. -/
def tidy_model (seen : List Observation) : Option ToolCall :=
  match seen with
  | [_] => some { tool := .remember, args := .object [("content", .string "buy milk")] }
  | [_, _] => some { tool := .forget, args := .object [("query", .string "pin")] }
  | _ => none

def two_turns : List Turn := [⟨1, ⟨"5"⟩⟩, ⟨2, ⟨"6"⟩⟩]

theorem tidy_run_isolated :
    (private_run tidy_model two_turns one_note).seen =
        (private_run tidy_model two_turns three_notes).seen ∧
      hidden (.Scoped ⟨"private"⟩ false) (private_run tidy_model two_turns one_note).world.rows =
        [] ∧
      hidden (.Scoped ⟨"private"⟩ false) (private_run tidy_model two_turns three_notes).world.rows =
        [note "3" "the code of the door" none, note "4" "the key of the diary" (some ⟨"other"⟩)] :=
  isolated_memory private_runtime () (some ⟨"private"⟩) [] "where is the safe" private_context
    tidy_model two_turns one_note three_notes (by decide +kernel) (fun _ _ _ _ _ _ _ => rfl)
    (by
      refine ⟨?_, ?_, trivial⟩
      · rintro call ⟨⟩
        have hnew : (⟨"5"⟩ : MemoryId) ∉ one_note.rows.map fun r => r.item.id := by decide
        have hnew' : (⟨"5"⟩ : MemoryId) ∉ three_notes.rows.map fun r => r.item.id := by decide
        exact ⟨hnew, hnew', fun h => by cases h⟩
      · rintro call ⟨⟩
        refine ⟨?_, ?_, fun _ _ _ _ _ _ _ _ _ _ => rfl⟩
        · rintro text ⟨⟩
          decide +kernel
        · rintro text ⟨⟩
          decide +kernel)

/-- A model that forgets the code of the door, and then the note with the id 4. -/
def prying_model (seen : List Observation) : Option ToolCall :=
  match seen with
  | [_] => some { tool := .forget, args := .object [("query", .string "code")] }
  | [_, _] => some { tool := .forget, args := .object [("memory_id", .string "4")] }
  | _ => none

/-- What a person reads of a run. -/
def Observation.line : Observation → Option String
  | .prompt recalled => recalled
  | .result (.ok out) => some out.summary
  | .result (.error _) => none

/-- Two tables with one view, of which the run tells which it has, and takes what it may not
see away. -/
theorem prying_run_not_isolated :
    view (private_runtime.memory_query (some ⟨"private"⟩) ()) one_note.rows =
        view (private_runtime.memory_query (some ⟨"private"⟩) ()) three_notes.rows ∧
      (private_run prying_model two_turns one_note).seen ≠
        (private_run prying_model two_turns three_notes).seen ∧
      hidden (.Scoped ⟨"private"⟩ false) three_notes.rows ≠
        hidden (.Scoped ⟨"private"⟩ false)
          (private_run prying_model two_turns three_notes).world.rows := by
  refine ⟨by decide +kernel, fun hseen => ?_, by decide +kernel⟩
  have hlines : (private_run prying_model two_turns one_note).seen.map Observation.line ≠
      (private_run prying_model two_turns three_notes).seen.map Observation.line := by
    decide +kernel
  exact hlines (congrArg _ hseen)

end pai_memory
