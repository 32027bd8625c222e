-- The tool protocol: what a tool declares, the registry, and the check of
-- arguments against a schema.
import PersonalAi.Permissions

open pai_core pai_permissions json

namespace pai_tools

/-- What the model and the policies see of a tool. -/
structure ToolDescriptor where
  name : String
  description : String
  input_schema : Value
  required_permissions : List Permission
  risk : RiskLevel
deriving Repr

structure ToolOutput where
  value : Value
  summary : String
deriving Repr

/-- What a tool is told about the run it works for. The connectors it may use
are part of the world. -/
structure ToolContext where
  run : AgentRunId
  device : DeviceId
  memory_scope : Option ConversationId
  allowed_roots : List String
deriving Repr

/-- A tool, over the states `W` of the world. -/
structure Tool (W : Type) where
  descriptor : ToolDescriptor
  execute : Value → ToolContext → W → Except Error ToolOutput × W

/-! ## The registry -/

/-- Puts an entry at its place in the order of names, over an entry of the same
name. -/
def insert_named {W : Type} (name : String) (tool : Tool W) :
    List (String × Tool W) → List (String × Tool W)
  | [] => [(name, tool)]
  | (n, t) :: rest =>
    if name = n then (name, tool) :: rest
    else if name < n then (name, tool) :: (n, t) :: rest
    else (n, t) :: insert_named name tool rest

theorem mem_insert_named {W : Type} {name : String} {tool : Tool W}
    {entries : List (String × Tool W)} {e : String × Tool W}
    (h : e ∈ insert_named name tool entries) : e = (name, tool) ∨ e ∈ entries := by
  induction entries with
  | nil => simpa [insert_named] using h
  | cons head rest ih =>
    obtain ⟨n, t⟩ := head
    unfold insert_named at h
    split_ifs at h
    · rcases List.mem_cons.mp h with rfl | h
      · exact Or.inl rfl
      · exact Or.inr (List.mem_cons_of_mem _ h)
    · rcases List.mem_cons.mp h with rfl | h
      · exact Or.inl rfl
      · exact Or.inr h
    · rcases List.mem_cons.mp h with rfl | h
      · exact Or.inr (by simp)
      · exact (ih h).imp id (List.mem_cons_of_mem _)

/-- The tools by name. A tool stands under the name that it declares. -/
structure ToolRegistry (W : Type) where
  tools : List (String × Tool W)
  named : ∀ e ∈ tools, e.2.descriptor.name = e.1

variable {W : Type}

def ToolRegistry.empty : ToolRegistry W := { tools := [], named := by simp }

def ToolRegistry.register (r : ToolRegistry W) (tool : Tool W) : ToolRegistry W :=
  { tools := insert_named tool.descriptor.name tool r.tools
    named := by
      intro e he
      rcases mem_insert_named he with rfl | he
      · rfl
      · exact r.named e he }

def ToolRegistry.get (r : ToolRegistry W) (name : String) : Option (Tool W) := r.tools.lookup name

def ToolRegistry.descriptors (r : ToolRegistry W) : List ToolDescriptor :=
  r.tools.map (fun e => e.2.descriptor)

theorem ToolRegistry.get_name {r : ToolRegistry W} {name : String} {tool : Tool W}
    (h : r.get name = some tool) : tool.descriptor.name = name := by
  obtain ⟨before, after, hsplit, _⟩ := List.lookup_eq_some_iff.mp h
  exact r.named (name, tool) (by simp [hsplit])

/-! ## Arguments -/

/-- Whether an argument has the type that its schema declares. -/
def arg_ok (schema arg : Value) : Bool :=
  match (schema.get "type").bind Value.as_str with
  | some "number" | some "integer" => arg.is_number
  | some "string" => arg.is_string
  | some "boolean" => arg.is_boolean
  | some "array" => arg.is_array
  | some "object" => arg.is_object
  | _ => true

def check_required (args : Value) : List String → Except Error Unit
  | [] => .ok ()
  | field :: rest =>
    if (args.get field).isNone then .error (.InvalidInput ("missing arg '" ++ field ++ "'"))
    else check_required args rest

def check_props (args : Value) : List (String × Value) → Except Error Unit
  | [] => .ok ()
  | (k, v) :: rest =>
    match args.get k with
    | none => check_props args rest
    | some arg =>
      if arg_ok v arg then check_props args rest
      else .error (.InvalidInput ("arg '" ++ k ++ "' wrong type"))

/-- `args` against the part of JSON Schema that the protocol uses: the type, the
required fields and the types of the properties. -/
def validate_args (schema args : Value) : Except Error Unit := do
  if (schema.get "type").bind Value.as_str = some "object" ∧ ¬ args.is_object then
    throw (.InvalidInput "tool args must be an object")
  let required := ((schema.get "required").bind Value.as_array).getD []
  check_required args (required.filterMap Value.as_str)
  let props := ((schema.get "properties").bind Value.as_object).getD []
  check_props args props

end pai_tools
