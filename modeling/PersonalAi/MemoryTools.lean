-- The memory of the agent (pai-memory and the memory tools): the table, recall by keyword and
-- by vector, and the three tools that a model calls on it.
import PersonalAi.AgentRuns
import PersonalAi.Lib.Sorting

open pai_core pai_tools json text
open pai_agent (MemoryScopeQuery RecallQuery)

namespace pai_memory

structure MemoryId where
  text : String
deriving DecidableEq, Repr

inductive PrivacyLevel
  | Normal | Sensitive | Secret
deriving DecidableEq, Repr

/-- A memory. `F` is the type of its floats. -/
structure MemoryItem (F : Type) where
  id : MemoryId
  scope : MemoryScope
  content : String
  source : MemorySource
  created_at : Timestamp
  updated_at : Timestamp
  confidence : F
  importance : F
  privacy : PrivacyLevel
  entities : List String
  embedding : Option (List F)
  conversation : Option ConversationId
  share_circle : Option String
deriving DecidableEq

structure Row (F : Type) where
  item : MemoryItem F
  deleted : Bool
deriving DecidableEq

structure ScoredMemory (F : Type) where
  item : MemoryItem F
  score : F
deriving DecidableEq

/-- What lies outside the crate: floats, the embedder, which texts the full-text index finds for
some tokens and which of two it ranks first, which depends on all texts in it. -/
structure Engine (F : Type) where
  importance_of : Value → F
  one : F
  add : F → F → F
  le : F → F → Bool
  cosine : List F → List F → F
  above : F → Bool
  embed : String → Option (List F)
  is_alphanumeric : Char → Bool
  fts_match : List String → String → Bool
  fts_before : List String → List String → String → String → Bool
  parse_str : String → Option MemoryId

/-- `conversation_clause` -/
def sees : MemoryScopeQuery → Option ConversationId → Bool
  | .All, _ => true
  | .GlobalOnly, c => c.isNone
  | .Scoped c true, d => d.isNone || decide (d = some c)
  | .Scoped c false, d => decide (d = some c)

section Recall
variable {F : Type} (e : Engine F)

def tokens (text : String) : List String :=
  ((text.toList.splitOnP (fun c => !e.is_alphanumeric c)).map String.ofList).filter
    (fun t => decide ((utf8 t).length > 1))

/-- The text index has the contents of all rows in it. -/
def fts_rows (words : List String) (scope : MemoryScopeQuery) (limit : Nat) (rows : List (Row F)) :
    List (Row F) :=
  ((rows.filter fun r =>
      e.fts_match words r.item.content && !r.deleted && sees scope r.item.conversation).insertionSort
    (fun a b =>
      e.fts_before (rows.map fun r => r.item.content) words a.item.content b.item.content)).take limit

/-- The score of a row by its vector. -/
def similar (vector : List F) (r : Row F) : Option (ScoredMemory F) :=
  r.item.embedding.bind fun v =>
    if e.above (e.cosine vector v) then
      some { item := r.item, score := e.add (e.cosine vector v) r.item.importance }
    else none

def vector_hits (vector : List F) (scope : MemoryScopeQuery) (rows : List (Row F)) :
    List (ScoredMemory F) :=
  (rows.filter fun r =>
    (similar e vector r).isSome && !r.deleted && sees scope r.item.conversation).filterMap
      (similar e vector)

def newest (scope : MemoryScopeQuery) (limit : Nat) (rows : List (Row F)) : List (Row F) :=
  ((rows.filter fun r => !r.deleted && sees scope r.item.conversation).insertionSort
    (fun a b => b.item.updated_at ≤ a.item.updated_at)).take limit

def ranked (query : RecallQuery) (limit : Nat) (out : List (ScoredMemory F)) :
    List (ScoredMemory F) :=
  ((out.filter fun s => query.scopes.isEmpty || query.scopes.contains s.item.scope).insertionSort
    (fun a b => e.le b.score a.score)).take limit

/-- A text without tokens finds nothing, and its vector is not asked. -/
def Engine.recall (query : RecallQuery) (rows : List (Row F)) : List (ScoredMemory F) :=
  let limit := max query.limit 1
  match query.text with
  | none =>
    ranked e query limit ((newest query.memory_scope limit rows).map fun r =>
      { item := r.item, score := r.item.importance })
  | some text =>
    let words := tokens e text
    if words = [] then []
    else
      let found := (fts_rows e words query.memory_scope limit rows).map fun r =>
        { item := r.item, score := e.add r.item.importance r.item.confidence }
      let near := match e.embed text with
        | some vector => vector_hits e vector query.memory_scope rows
        | none => []
      ranked e query limit (found ++ near)

end Recall

/-! ## The table -/

/-- The table, with the id as its key, the time, and the id that the next memory gets. -/
structure World (F : Type) where
  rows : List (Row F)
  unique : (rows.map fun r => r.item.id).Nodup
  now : Timestamp
  fresh : MemoryId

/-- An item that comes without a vector gets that of its content, if there is an embedder. -/
def Engine.embedded {F : Type} (e : Engine F) (item : MemoryItem F) : MemoryItem F :=
  if item.embedding.isNone then { item with embedding := e.embed item.content } else item

namespace World
variable {F : Type} (e : Engine F) (w : World F)

def put (item : MemoryItem F) : Except Error Unit × World F :=
  let row : Row F := { item := e.embedded item, deleted := false }
  if h : row.item.id ∈ w.rows.map fun r => r.item.id then
    (.error (.Storage "UNIQUE constraint failed: memories.id"), w)
  else
    (.ok (), { w with
      rows := w.rows ++ [row]
      unique := by
        rw [List.map_append, List.nodup_append_comm]
        exact List.nodup_cons.mpr ⟨h, w.unique⟩ })

/-- `UPDATE … WHERE id=?1`, which keeps the id. -/
def update (id : MemoryId) (change : Row F → Row F)
    (hid : ∀ r, (change r).item.id = r.item.id) : World F :=
  { w with
    rows := w.rows.map fun r => if r.item.id = id then change r else r
    unique := by
      have hsame : ((fun r : Row F => r.item.id) ∘ fun r => if r.item.id = id then change r else r) =
          fun r => r.item.id := by
        funext r
        dsimp only [Function.comp]
        split
        · exact hid r
        · rfl
      rw [List.map_map, hsame]
      exact w.unique }

def set_share_circle (id : MemoryId) (circle : Option String) : Bool × World F :=
  (w.rows.any (fun r => decide (r.item.id = id)),
    w.update id (fun r =>
      { r with item := { r.item with share_circle := circle, updated_at := w.now } }) fun _ => rfl)

def get (id : MemoryId) : Except Error (MemoryItem F) :=
  match w.rows.find? (fun r => decide (r.item.id = id) && !r.deleted) with
  | some r => .ok r.item
  | none => .error (.NotFound ("memory " ++ id.text))

def delete (id : MemoryId) : World F :=
  w.update id (fun r => { item := { r.item with updated_at := w.now }, deleted := true }) fun _ => rfl

end World

def user_fact {F : Type} (e : Engine F) (w : World F) (content : String) (importance : F) :
    MemoryItem F :=
  { id := w.fresh, scope := .Semantic, content, source := .UserStated, created_at := w.now,
    updated_at := w.now, confidence := e.one, importance, privacy := .Normal, entities := [],
    embedding := none, conversation := none, share_circle := none }

/-! ## The tools -/

section Tools
variable {F : Type} (e : Engine F)

def MemoryRemember.execute (args : Value) (ctx : ToolContext) (w : World F) :
    Except Error ToolOutput × World F :=
  match (args.index "content").as_str with
  | none => (.error (.InvalidInput "content"), w)
  | some content =>
    let scope : MemoryScope := match ((args.index "memory_type").as_str).getD "semantic" with
      | "episodic" => .Episodic
      | "procedural" => .Procedural
      | "relationship" => .Relationship
      | _ => .Semantic
    let item := { user_fact e w content (e.importance_of (args.index "importance")) with
      scope
      conversation := ctx.memory_scope
      share_circle := (args.index "circle").as_str }
    match w.put e item with
    | (.error err, w') => (.error err, w')
    | (.ok (), w') =>
      (.ok { value := .object [("memory_id", .string item.id.text)]
             summary := "remembered: " ++ content }, w')

def MemoryShare.execute (args : Value) (_ctx : ToolContext) (w : World F) :
    Except Error ToolOutput × World F :=
  match (args.index "memory_id").as_str with
  | none => (.error (.InvalidInput "memory_id"), w)
  | some id =>
    match e.parse_str id with
    | none => (.error (.InvalidInput "memory_id not a uuid"), w)
    | some mid =>
      let circle := (args.index "circle").as_str
      let (ok, w') := w.set_share_circle mid circle
      (.ok
        { value := .object [("shared", .bool ok)]
          summary := if ok then
              match circle with
              | some c => "memory now federates to circle '" ++ c ++ "'"
              | none => "memory now roams vault-wide"
            else "no such memory: " ++ id }, w')

/-- What a query of `memory.forget` may see. -/
def forget_scope (memory_scope : Option ConversationId) : MemoryScopeQuery :=
  match memory_scope with
  | some c => .Scoped c true
  | none => .GlobalOnly

def forget_query (memory_scope : Option ConversationId) (q : String) : RecallQuery :=
  { text := some q, scopes := [], limit := 1, memory_scope := forget_scope memory_scope }

/-- The memory that a forgetting finds, by its id or as the first that a text recalls. -/
def forgotten (args : Value) (ctx : ToolContext) (w : World F) : Except Error (MemoryItem F) :=
  match (args.index "memory_id").as_str with
  | some id =>
    match e.parse_str id with
    | none => .error (.InvalidInput "memory_id must be a uuid")
    | some mid => w.get mid
  | none =>
    match (args.index "query").as_str with
    | some q =>
      match e.recall (forget_query ctx.memory_scope q) w.rows with
      | scored :: _ => .ok scored.item
      | [] => .error (.NotFound ("no memory matching '" ++ q ++ "'"))
    | none => .error (.InvalidInput "memory.forget needs 'memory_id' or 'query'")

def MemoryForget.execute (args : Value) (ctx : ToolContext) (w : World F) :
    Except Error ToolOutput × World F :=
  match forgotten e args ctx w with
  | .error err => (.error err, w)
  | .ok item =>
    (.ok
      { value := .object [("content", .string item.content), ("deleted_id", .string item.id.text)]
        summary := "forgot: " ++ item.content }, w.delete item.id)

inductive MemoryTool
  | remember | share | forget
deriving DecidableEq

structure ToolCall where
  tool : MemoryTool
  args : Value

def ToolCall.execute (call : ToolCall) : ToolContext → World F → Except Error ToolOutput × World F :=
  match call.tool with
  | .remember => MemoryRemember.execute e call.args
  | .share => MemoryShare.execute e call.args
  | .forget => MemoryForget.execute e call.args

end Tools

/-! ## A run and its memories -/

/-- What a model sees of the memories: the message in its prompt, then the results of its calls. -/
inductive Observation
  | prompt (recalled : Option String)
  | result (r : Except Error ToolOutput)

structure Session (F : Type) where
  world : World F
  seen : List Observation

/-- The time of a call, and the id for a memory that it makes. -/
structure Turn where
  now : Timestamp
  fresh : MemoryId

/-- The table at the time of a turn. -/
def World.during {F : Type} (w : World F) (t : Turn) : World F :=
  { w with now := t.now, fresh := t.fresh }

section Sessions
variable {F : Type} (e : Engine F)

/-- What the tools of a run get to know of its conversation. -/
def tool_context (ctx : ToolContext) (query : MemoryScopeQuery) : ToolContext :=
  { ctx with memory_scope := pai_agent.isolated_scope query }

/-- What `build_request` recalls for the text of the user. -/
def prompt_query (scopes : List MemoryScope) (user_text : String) (query : MemoryScopeQuery) :
    RecallQuery :=
  { text := some user_text, scopes, limit := 8, memory_scope := query }

def prompt_text (hits : List (ScoredMemory F)) : Option String :=
  match hits with
  | [] => none
  | hit :: rest => some ("Relevant memories:\n" ++ "\n".intercalate
      ((hit :: rest).map fun s =>
        pai_agent.memory_line { source := s.item.source, content := s.item.content }))

/-- A run begins with the memories in its prompt. -/
def Session.begin (scopes : List MemoryScope) (user_text : String) (query : MemoryScopeQuery)
    (w : World F) : Session F :=
  { world := w
    seen := [.prompt (if user_text = "" then none
      else prompt_text (e.recall (prompt_query scopes user_text query) w.rows))] }

/-- The model chooses a call by what it has seen, or none. -/
def Session.step (ctx : ToolContext) (model : List Observation → Option ToolCall) (s : Session F)
    (t : Turn) : Session F :=
  match model s.seen with
  | none => s
  | some call =>
    let (r, w') := call.execute e ctx (s.world.during t)
    { world := w', seen := s.seen ++ [.result r] }

end Sessions

end pai_memory
