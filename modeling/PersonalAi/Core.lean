-- What every crate of the workspace shares: instants, ids, errors, the unit of
-- replication, messages, runs and the audit trail.
import PersonalAi.Lib.Json
import PersonalAi.Lib.Text

namespace pai_core

open text (Bytes)

/-- An instant: nanoseconds since the Unix epoch. -/
abbrev Timestamp := Nat

/-- `timestamp_millis` of an instant. -/
def timestamp_millis (t : Timestamp) : Nat := t / 1000000

/-- A device id, as the canonical text that `Display` gives for its UUID. -/
structure DeviceId where
  text : String
deriving DecidableEq, Repr

def DeviceId.to_string (d : DeviceId) : String := d.text

inductive Error
  | NotFound (msg : String)
  | PermissionDenied (msg : String)
  | ApprovalRequired (msg : String)
  | InvalidInput (msg : String)
  | Provider (msg : String)
  | Storage (msg : String)
  | Sync (msg : String)
  | Cancelled
  | Timeout
  | Other (msg : String)
deriving DecidableEq, Repr

def Error.to_string : Error → String
  | .NotFound m => "not found: " ++ m
  | .PermissionDenied m => "permission denied: " ++ m
  | .ApprovalRequired m => "approval required for " ++ m
  | .InvalidInput m => "invalid input: " ++ m
  | .Provider m => "provider error: " ++ m
  | .Storage m => "storage error: " ++ m
  | .Sync m => "sync error: " ++ m
  | .Cancelled => "cancelled"
  | .Timeout => "timeout"
  | .Other m => m

/-- The unit of replication. A transport reads every field but can open
nothing: `C` is the type of the sealed payload. -/
structure SyncObject (C : Type) where
  key : String
  ciphertext : C
  version : Nat
  writer : DeviceId
  updated_at : Timestamp
  tombstone : Bool
deriving DecidableEq

/-! ## Conversations -/

structure ConversationId where
  text : String
deriving DecidableEq, Repr

structure MessageId where
  text : String
deriving DecidableEq, Repr

structure AgentId where
  text : String
deriving DecidableEq, Repr

structure AgentRunId where
  text : String
deriving DecidableEq, Repr

structure ToolCallId where
  text : String
deriving DecidableEq, Repr

inductive Role
  | User | Assistant | System | Tool
deriving DecidableEq, Repr

inductive TrustLevel
  | Untrusted | Generated | User | Policy
deriving DecidableEq, Repr

/-- A block of a message. -/
inductive Content
  | Text (text : String)
  | Image (blob mime : String)
  | Audio (blob mime : String)
  | Video (blob mime : String)
  | DocumentRef (document : String)
  | ToolCall (call : ToolCallId) (tool : String) (arguments : json.Value)
  | ToolResult (call : ToolCallId) (tool : String) (output : json.Value) (is_error : Bool)
deriving Repr

structure Message where
  id : MessageId
  conversation : ConversationId
  role : Role
  created_at : Timestamp
  content : List Content
  trust : TrustLevel
deriving Repr

inductive MemoryIsolation
  | Shared | Isolated
deriving DecidableEq, Repr

inductive MemoryScope
  | Working | Episodic | Semantic | Procedural | Relationship
deriving DecidableEq, Repr

inductive MemorySource
  | UserStated | AiInferred | Imported | SystemObserved
deriving DecidableEq, Repr

/-! ## Runs and the audit trail -/

inductive RunState
  | Running | AwaitingApproval | Completed | Failed | Cancelled | TimedOut
deriving DecidableEq, Repr

structure AgentRun where
  id : AgentRunId
  agent : AgentId
  conversation : Option ConversationId
  started_at : Timestamp
  ended_at : Option Timestamp
  state : RunState
deriving DecidableEq, Repr

inductive ExecutionPolicy
  | AlwaysAllow | AskUser | AllowWithRule | NeverAllow
deriving DecidableEq, Repr

inductive AuditKind
  | MessageSent | RunStarted | RunFinished | ModelResponded | MemoryWritten | MemoryDeleted
  | ToolRequested | ToolAllowed | ToolDenied | ToolExecuted | ModelLoaded | SyncReceived
  | SyncSent | PermissionChanged | ConfigChanged | ApprovalRequested | ApprovalResolved
  | AppDeployed | AppRun | AppRemoved | AppBackedUp | AppRestored | AppMigrated | AppRescued
  | AppShared | AppShareRevoked | AppAuthConfigured | AppServed
deriving DecidableEq, Repr

inductive AuditOutcome
  | Ok | Denied | Error | Cancelled
deriving DecidableEq, Repr

/-- An entry of the audit log, without its own id and instant. -/
structure AuditEvent where
  device : Option DeviceId
  agent : Option AgentId
  run : Option AgentRunId
  conversation : Option ConversationId
  kind : AuditKind
  tool : Option String
  detail : json.Value
  outcome : AuditOutcome
deriving Repr

end pai_core
