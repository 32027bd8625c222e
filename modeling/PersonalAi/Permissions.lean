-- The permission system: what a tool needs, what the user's policies say about
-- it, and the verdict for one call.
import PersonalAi.Core

open pai_core

namespace pai_permissions

inductive Permission
  | EmailRead | EmailSearch | EmailLabel | EmailArchive | EmailDelete | EmailDraft | EmailSend
  | GitLabRead | GitLabWrite | GitLabMerge | CalendarRead | CalendarCreate | CalendarUpdate
  | CalendarDelete | FilesRead | FilesWrite | FilesDelete | MicrophoneAccess | CameraAccess
  | ContactsRead | MemoryWrite | MemoryRead | MemoryDelete | DocumentRead | DocumentWrite
  | ComputeLocal | ComputeTrustedDevice | ComputeCloud | NotificationSend | AppShare | AppBackup
  | AppInspect | AppConfigure | MediaGenerate
deriving DecidableEq, Repr

/-- The name that `Debug` prints. -/
def Permission.debug : Permission → String
  | .EmailRead => "EmailRead"
  | .EmailSearch => "EmailSearch"
  | .EmailLabel => "EmailLabel"
  | .EmailArchive => "EmailArchive"
  | .EmailDelete => "EmailDelete"
  | .EmailDraft => "EmailDraft"
  | .EmailSend => "EmailSend"
  | .GitLabRead => "GitLabRead"
  | .GitLabWrite => "GitLabWrite"
  | .GitLabMerge => "GitLabMerge"
  | .CalendarRead => "CalendarRead"
  | .CalendarCreate => "CalendarCreate"
  | .CalendarUpdate => "CalendarUpdate"
  | .CalendarDelete => "CalendarDelete"
  | .FilesRead => "FilesRead"
  | .FilesWrite => "FilesWrite"
  | .FilesDelete => "FilesDelete"
  | .MicrophoneAccess => "MicrophoneAccess"
  | .CameraAccess => "CameraAccess"
  | .ContactsRead => "ContactsRead"
  | .MemoryWrite => "MemoryWrite"
  | .MemoryRead => "MemoryRead"
  | .MemoryDelete => "MemoryDelete"
  | .DocumentRead => "DocumentRead"
  | .DocumentWrite => "DocumentWrite"
  | .ComputeLocal => "ComputeLocal"
  | .ComputeTrustedDevice => "ComputeTrustedDevice"
  | .ComputeCloud => "ComputeCloud"
  | .NotificationSend => "NotificationSend"
  | .AppShare => "AppShare"
  | .AppBackup => "AppBackup"
  | .AppInspect => "AppInspect"
  | .AppConfigure => "AppConfigure"
  | .MediaGenerate => "MediaGenerate"

inductive PermissionDecision
  | Allow | AskUser | Deny
deriving DecidableEq, Repr

/-- The user's rules. -/
structure PolicyTable where
  rules : Permission → Option ExecutionPolicy

def PolicyTable.get (t : PolicyTable) (p : Permission) : Option ExecutionPolicy := t.rules p

def PolicyTable.set (t : PolicyTable) (p : Permission) (policy : ExecutionPolicy) : PolicyTable :=
  { rules := Function.update t.rules p (some policy) }

/-- The loop of `decide`, with the decision it has come to. -/
def PolicyTable.decide_from (t : PolicyTable) (decision : PermissionDecision) :
    List Permission → PermissionDecision
  | [] => decision
  | p :: rest =>
    match (t.get p).getD .AskUser with
    | .NeverAllow => .Deny
    | .AskUser => t.decide_from .AskUser rest
    | .AllowWithRule | .AlwaysAllow => t.decide_from decision rest

/-- `PolicyEngine::decide` over the table that its lock guards: the most
restrictive verdict of the permissions. -/
def PolicyTable.decide (t : PolicyTable) (permissions : List Permission) : PermissionDecision :=
  t.decide_from .Allow permissions

inductive RiskLevel
  | Low | Medium | High | Critical
deriving DecidableEq, Repr

def RiskLevel.debug : RiskLevel → String
  | .Low => "Low"
  | .Medium => "Medium"
  | .High => "High"
  | .Critical => "Critical"

/-- An approval that the user is asked for. -/
structure ApprovalRequest where
  id : ToolCallId
  tool : String
  permissions : List Permission
  summary : String
  risk : RiskLevel
deriving DecidableEq, Repr

/-! ## The verdict -/

theorem decide_from_deny {t : PolicyTable} {permissions : List Permission} {p : Permission}
    (hp : p ∈ permissions) (hnever : t.get p = some .NeverAllow) (decision : PermissionDecision) :
    t.decide_from decision permissions = .Deny := by
  induction permissions generalizing decision with
  | nil => simp at hp
  | cons q rest ih =>
    rcases List.mem_cons.mp hp with rfl | hp
    · simp [PolicyTable.decide_from, hnever]
    · unfold PolicyTable.decide_from
      split
      · rfl
      · exact ih hp _
      · exact ih hp _
      · exact ih hp _

theorem decide_from_allow {t : PolicyTable} {permissions : List Permission}
    {decision : PermissionDecision} (h : t.decide_from decision permissions = .Allow) :
    decision = .Allow ∧
      ∀ p ∈ permissions, t.get p = some .AllowWithRule ∨ t.get p = some .AlwaysAllow := by
  induction permissions generalizing decision with
  | nil => exact ⟨h, by simp⟩
  | cons q rest ih =>
    unfold PolicyTable.decide_from at h
    have hq : ∀ policy, (t.get q).getD .AskUser = policy → policy ≠ .AskUser →
        t.get q = some policy := by
      intro policy hpol hne
      cases hget : t.get q with
      | none => simp [hget] at hpol; exact absurd hpol.symm hne
      | some r => simp [hget] at hpol; rw [hpol]
    split at h
    · simp at h
    · exact absurd (ih h).1 (by simp)
    · rename_i hrule
      obtain ⟨hd, hrest⟩ := ih h
      refine ⟨hd, ?_⟩
      intro p hp
      rcases List.mem_cons.mp hp with rfl | hp
      · exact Or.inl (hq _ hrule (by simp))
      · exact hrest p hp
    · rename_i hrule
      obtain ⟨hd, hrest⟩ := ih h
      refine ⟨hd, ?_⟩
      intro p hp
      rcases List.mem_cons.mp hp with rfl | hp
      · exact Or.inr (hq _ hrule (by simp))
      · exact hrest p hp

/-- A tool runs unasked only when the user's rules allow each permission it
needs. -/
theorem decide_allow {t : PolicyTable} {permissions : List Permission}
    (h : t.decide permissions = .Allow) :
    ∀ p ∈ permissions, t.get p = some .AllowWithRule ∨ t.get p = some .AlwaysAllow :=
  (decide_from_allow h).2

/-- One forbidden permission is enough for a refusal. -/
theorem decide_deny {t : PolicyTable} {permissions : List Permission} {p : Permission}
    (hp : p ∈ permissions) (hnever : t.get p = some .NeverAllow) :
    t.decide permissions = .Deny :=
  decide_from_deny hp hnever .Allow

end pai_permissions
