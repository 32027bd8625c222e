-- The deterministic fast path (pai-agent, fastpath.rs): an intent that is clear
-- without a model is carried out by tool calls that the runtime chooses itself.
import PersonalAi.Lib.Chars
import PersonalAi.ModelLoop

open pai_core pai_permissions pai_tools program json text

namespace pai_agent.fastpath

variable {W : Type}

inductive FastIntent
  | Capabilities
  | Remember (content : String)
  | ListFiles (path : String)
  | ReadFile (path : String)
  | DeleteFile (path : String)
  | RunFile (path : String)
  | WriteCode (lang filename : Option String) (spec : String) (run_after : Bool)
  | DocSearch (query : String)
deriving DecidableEq, Repr

def CAPABILITY_TEXT : String :=
  "I can chat, remember things you tell me, search your documents and email, manage GitLab " ++
    "issues and MRs — and write code: files land in your workspace/ folder (Settings → " ++
    "Storage). Reads run free; writes and shell commands ask for your approval first.\n\n" ++
    "Try: \"write a python script that prints hello\", \"list my workspace files\", or " ++
    "\"search my documents for sync\"."

def CODEGEN_SYSTEM : String :=
  "You are a code generator inside a personal AI. Reply with the complete file contents in a " ++
    "single fenced code block and nothing else — no explanation, no preamble."

/-! ## Languages and code -/

/-- A language: its name, its file extension and the command that runs a file,
where there is one. The file stands in the place of the braces. -/
structure Lang where
  name : String
  ext : String
  runner : Option String
deriving Repr

def LANGS : List Lang :=
  [⟨"python", "py", some "python \x7bf\x7d"⟩, ⟨"rust", "rs", none⟩,
    ⟨"javascript", "js", some "node \x7bf\x7d"⟩, ⟨"typescript", "ts", none⟩,
    ⟨"powershell", "ps1", some "powershell -File \x7bf\x7d"⟩, ⟨"bash", "sh", some "sh \x7bf\x7d"⟩,
    ⟨"html", "html", none⟩, ⟨"css", "css", none⟩, ⟨"ruby", "rb", some "ruby \x7bf\x7d"⟩,
    ⟨"go", "go", some "go run \x7bf\x7d"⟩, ⟨"lua", "lua", some "lua \x7bf\x7d"⟩,
    ⟨"php", "php", some "php \x7bf\x7d"⟩, ⟨"perl", "pl", some "perl \x7bf\x7d"⟩,
    ⟨"java", "java", none⟩, ⟨"kotlin", "kt", none⟩, ⟨"swift", "swift", none⟩,
    ⟨"sql", "sql", none⟩, ⟨"cpp", "cpp", none⟩, ⟨"c", "c", none⟩]

def lang_row (lang : String) : Option Lang := LANGS.find? (fun l => l.name == lang)

/-- The command that runs a script. `windows` is the build target: a stock
Windows has no `sh`. -/
def runner_for (windows : Bool) (path : String) : Option String :=
  match rsplit_once '.' path.toList with
  | none => none
  | some (_, ext) =>
    let tmpl := match String.ofList (ext.map Char.toLower) with
      | "py" => some "python \x7bf\x7d"
      | "js" => some "node \x7bf\x7d"
      | "rb" => some "ruby \x7bf\x7d"
      | "lua" => some "lua \x7bf\x7d"
      | "php" => some "php \x7bf\x7d"
      | "pl" => some "perl \x7bf\x7d"
      | "ps1" => some "powershell -File \x7bf\x7d"
      | "bat" | "cmd" => some "call \x7bf\x7d"
      | "exe" => some "\x7bf\x7d"
      | "sh" => if windows then none else some "sh \x7bf\x7d"
      | _ => none
    tmpl.map (fun t => replace t "\x7bf\x7d" path)

def default_filename (lang : Option String) : String :=
  "main." ++ ((lang.bind lang_row).map Lang.ext).getD "txt"

def scaffold : Option String → String
  | some "python" =>
    "def main():\n    print(\"Hello from Personal AI\")\n\n\n" ++
      "if __name__ == \"__main__\":\n    main()\n"
  | some "rust" => "fn main() \x7b\n    println!(\"Hello from Personal AI\");\n\x7d\n"
  | some "javascript" => "console.log(\"Hello from Personal AI\");\n"
  | some "bash" => "#!/bin/sh\necho \"Hello from Personal AI\"\n"
  | some "powershell" => "Write-Output \"Hello from Personal AI\"\n"
  | some "html" =>
    "<!doctype html>\n<html>\n  <body>\n    <h1>Hello from Personal AI</h1>\n  </body>\n</html>\n"
  | some "go" =>
    "package main\n\nimport \"fmt\"\n\n" ++
      "func main() \x7b\n\tfmt.Println(\"Hello from Personal AI\")\n\x7d\n"
  | some "ruby" => "puts \"Hello from Personal AI\"\n"
  | some "lua" => "print(\"Hello from Personal AI\")\n"
  | some "php" => "<?php echo \"Hello from Personal AI\\n\";\n"
  | some "perl" => "print \"Hello from Personal AI\\n\";\n"
  | some "java" =>
    "public class Main \x7b\n    public static void main(String[] args) \x7b\n" ++
      "        System.out.println(\"Hello from Personal AI\");\n    \x7d\n\x7d\n"
  | _ => "# generated by Personal AI\n"

/-- The inside of the first fenced block, behind the line of its opening fence. -/
def fenced_block (cs : List Char) : Option (List Char) :=
  match split_once_str "```".toList cs with
  | none => none
  | some (_, after) =>
    let body := match split_once '\n' after with
      | none => after
      | some (_, rest) => rest
    match split_once_str "```".toList body with
    | none => none
    | some (inside, _) => if trim inside = [] then none else some (trim inside)

/-- A reply without a fence is code when it has several lines and does not start
like JSON or prose. -/
def unfenced_code (cs : List Char) : Option (List Char) :=
  let trimmed := trim cs
  let lower := trimmed.map Char.toLower
  if trimmed ≠ [] ∧ trimmed.head? ≠ some '\x7b' ∧ trimmed.head? ≠ some '[' ∧ '\n' ∈ trimmed ∧
      ¬ "sure".toList.isPrefixOf lower ∧ ¬ "here".toList.isPrefixOf lower then
    some trimmed
  else none

def extract_code (reply : String) : Option String :=
  ((fenced_block reply.toList).orElse (fun _ => unfenced_code reply.toList)).map String.ofList

/-! ## Answers -/

/-- The output of a tool in an observed message. -/
def obs_output (msg : Message) : Value × Bool :=
  (msg.content.findSome? (fun b =>
    match b with
    | .ToolResult _ _ output is_error => some (output, is_error)
    | _ => none)).getD (error_value "no result", true)

def error_of (v : Value) : String := (v.index "error").as_str.getD "error"

def tick (s : String) : String := "`" ++ s ++ "`"

def trim_str (s : String) : String := String.ofList (trim s.toList)

def entry_line (e : Value) : String :=
  let n := (e.index "name").as_str.getD "?"
  if (e.index "dir").as_bool = some true then n ++ "/"
  else n ++ " (" ++ toString ((e.index "size").as_u64.getD 0) ++ " B)"

def remember_answer (content : String) : Value × Bool → String
  | (_, true) => "Couldn't store that memory — denied or unavailable."
  | (_, false) => "Remembered: " ++ content

def list_answer (path : String) : Value × Bool → String
  | (v, true) => "Couldn't list " ++ tick path ++ ": " ++ error_of v
  | (v, false) =>
    let entries := (v.index "entries").as_array.getD []
    if entries.isEmpty then tick path ++ " is empty — nothing in the workspace yet."
    else tick path ++ " — " ++ toString entries.length ++ " entries:\n" ++
      "\n".intercalate (entries.map entry_line)

def read_answer (path : String) : Value × Bool → String
  | (v, true) => "Couldn't read " ++ tick path ++ ": " ++ error_of v
  | (v, false) =>
    let note :=
      if (v.index "truncated").as_bool = some true then "\n\n(truncated at 64 KiB)" else ""
    tick path ++ ":\n```\n" ++ (v.index "content").as_str.getD "" ++ "\n```" ++ note

def delete_answer (path : String) : Value × Bool → String
  | (v, true) => "Couldn't delete " ++ tick path ++ ": " ++ error_of v
  | (_, false) => "Deleted " ++ tick path ++ "."

/-- The exit code and the standard output of a command. -/
def exit_text (cmd : String) (v : Value) : String :=
  let out := trim_str ((v.index "stdout").as_str.getD "")
  tick cmd ++ " → exit " ++ toString ((v.index "exit_code").as_i64.getD (-1)) ++
    (if out = "" then "" else "\n```\n" ++ out ++ "\n```")

def run_answer (path cmd : String) : Value × Bool → String
  | (v, true) => "Couldn't run " ++ tick path ++ ": " ++ error_of v
  | (v, false) =>
    let err := trim_str ((v.index "stderr").as_str.getD "")
    exit_text cmd v ++ (if err = "" then "" else "\nstderr:\n```\n" ++ err ++ "\n```")

def hit_line (i : Nat) (r : Value) : String :=
  "[D" ++ toString (i + 1) ++ "] " ++ (r.index "title").as_str.getD "untitled" ++
    (((r.index "page").as_u64.map (fun p => " p." ++ toString p)).getD "")

def search_answer (query : String) : Value × Bool → String
  | (v, true) => "Couldn't search documents: " ++ error_of v
  | (v, false) =>
    let results := (v.index "results").as_array.getD []
    if results.isEmpty then "No documents matched " ++ tick query ++ "."
    else toString results.length ++ " hit(s) for " ++ tick query ++ ":\n" ++
      "\n".intercalate ((results.take 5).mapIdx hit_line)

/-! ## Execution -/

/-- What the fast path of a run works with. -/
structure FastContext (W : Type) where
  definition : AgentDefinition
  run : AgentRun
  conv : ConversationId
  mem_scope : Option ConversationId
  provider : InferenceProvider W

/-- One decided tool call, through the gate of the model loop; the observed
message lands in the transcript. -/
def exec_once (rt : AgentRuntime W) (c : Caller W) (x : FastContext W) (name : String)
    (arguments : Value) : Action W (Value × Bool) := do
  let call ← draw rt.new_id
  let msg ← rt.execute_tool c
    { definition := x.definition, run := x.run, call_id := ⟨call⟩, name := name,
      arguments := arguments, conv := x.conv, memory_scope := x.mem_scope,
      chosen_by := .fast_path }
  rt.persist_msg x.run msg
  return obs_output msg

/-- The text that code is looked for in: the content of a final action, or the
whole text. -/
def reply_text (resp : GenerateResponse) : String :=
  match resp.action with
  | some (.Final content) => content
  | _ => resp.text

/-- The file contents, and whether they are only the scaffold. -/
def code_of (lang : Option String) : Except Error GenerateResponse → String × Bool
  | .ok resp =>
    match extract_code (reply_text resp) with
    | some code => (code, false)
    | none => (scaffold lang, true)
  | .error _ => (scaffold lang, true)

def wrote_text (fname code : String) (scaffolded : Bool) : String :=
  "Wrote " ++ tick fname ++ " (" ++ toString code.utf8ByteSize ++ " bytes)" ++
    (if scaffolded then
      " — the model didn't return usable code, so it's a starter scaffold" else "")

/-- The optional run of a file that was written. -/
def run_written (rt : AgentRuntime W) (c : Caller W) (x : FastContext W) (lang : Option String)
    (fname answer : String) : Action W String :=
  match (lang.bind lang_row).bind Lang.runner with
  | none =>
    pure (answer ++ "\n\n(no auto-run for this language — the file is ready in workspace/)")
  | some tmpl => do
    let cmd := replace tmpl "\x7bf\x7d" fname
    let (v, is_err) ← exec_once rt c x "shell.exec" (.object [("command", .string cmd)])
    return answer ++ "\n\n" ++ (if is_err then "Run failed: " ++ error_of v else exit_text cmd v)

/-- The model writes file contents, never the protocol: the write and the run
are chosen here. -/
def write_code (rt : AgentRuntime W) (c : Caller W) (x : FastContext W)
    (lang filename : Option String) (spec : String) (run_after : Bool) : Action W String := do
  let msg ← rt.new_message x.conv .User [.Text spec] .User
  let req : AIRequest :=
    { messages := [msg], tools := [], model := x.definition.model, require_structured := false,
      system := some CODEGEN_SYSTEM }
  let reply ← observe (x.provider.generate req) (fun _ => .generate req)
  let (code, scaffolded) := code_of lang reply
  let fname := filename.getD (default_filename lang)
  let (v, is_err) ← exec_once rt c x "fs.write"
    (.object [("content", .string code), ("path", .string fname)])
  if is_err then return "Couldn't write " ++ tick fname ++ ": " ++ error_of v
  else if run_after then run_written rt c x lang fname (wrote_text fname code scaffolded)
  else return wrote_text fname code scaffolded

/-- The tool call that answers a direct intent, and the text made of its
outcome. A file that cannot be run ends the run: the source unwraps. -/
def answer_intent (windows : Bool) (rt : AgentRuntime W) (c : Caller W) (x : FastContext W) :
    FastIntent → Action W String
  | .Capabilities => pure CAPABILITY_TEXT
  | .Remember content => do
    let out ← exec_once rt c x "memory.remember"
      (.object [("content", .string content), ("memory_type", .string "semantic")])
    return remember_answer content out
  | .ListFiles path => do
    let out ← exec_once rt c x "fs.list" (.object [("path", .string path)])
    return list_answer path out
  | .ReadFile path => do
    let out ← exec_once rt c x "fs.read" (.object [("path", .string path)])
    return read_answer path out
  | .DeleteFile path => do
    let out ← exec_once rt c x "fs.delete" (.object [("path", .string path)])
    return delete_answer path out
  | .RunFile path =>
    match runner_for windows path with
    | none => fail (.Other "called `Option::unwrap()` on a `None` value")
    | some cmd => do
      let out ← exec_once rt c x "shell.exec" (.object [("command", .string cmd)])
      return run_answer path cmd out
  | .WriteCode lang filename spec run_after => write_code rt c x lang filename spec run_after
  | .DocSearch query => do
    let out ← exec_once rt c x "documents.search" (.object [("query", .string query)])
    return search_answer query out

def fast_path (windows : Bool) (rt : AgentRuntime W) (c : Caller W) (x : FastContext W)
    (intent : FastIntent) : Action W RunOutcome := do
  emit c (.Step 0)
  let answer ← answer_intent windows rt c x intent
  let msg ← rt.new_message x.conv .Assistant [.Text answer] .Generated
  rt.persist_msg x.run msg
  emit c (.TextDelta answer)
  rt.finish_run c x.run (some answer) .Completed

end pai_agent.fastpath
