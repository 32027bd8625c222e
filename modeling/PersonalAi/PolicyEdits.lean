-- The user's edits of the policies: the engine in memory, the rows of the `policies` table, and
-- the restarts that make the one of the other.
import Mathlib.Logic.Function.Basic
import PersonalAi.Lib.Runs
import PersonalAi.Lib.Table
import PersonalAi.Permissions

open pai_core pai_permissions table

namespace pai_ffi.policies

/-! ## Permissions and policies as texts -/

/-- The name that serde gives it. -/
def permission_name : Permission → String
  | .EmailRead => "EMAIL_READ"
  | .EmailSearch => "EMAIL_SEARCH"
  | .EmailLabel => "EMAIL_LABEL"
  | .EmailArchive => "EMAIL_ARCHIVE"
  | .EmailDelete => "EMAIL_DELETE"
  | .EmailDraft => "EMAIL_DRAFT"
  | .EmailSend => "EMAIL_SEND"
  | .GitLabRead => "GIT_LAB_READ"
  | .GitLabWrite => "GIT_LAB_WRITE"
  | .GitLabMerge => "GIT_LAB_MERGE"
  | .CalendarRead => "CALENDAR_READ"
  | .CalendarCreate => "CALENDAR_CREATE"
  | .CalendarUpdate => "CALENDAR_UPDATE"
  | .CalendarDelete => "CALENDAR_DELETE"
  | .FilesRead => "FILES_READ"
  | .FilesWrite => "FILES_WRITE"
  | .FilesDelete => "FILES_DELETE"
  | .MicrophoneAccess => "MICROPHONE_ACCESS"
  | .CameraAccess => "CAMERA_ACCESS"
  | .ContactsRead => "CONTACTS_READ"
  | .MemoryWrite => "MEMORY_WRITE"
  | .MemoryRead => "MEMORY_READ"
  | .MemoryDelete => "MEMORY_DELETE"
  | .DocumentRead => "DOCUMENT_READ"
  | .DocumentWrite => "DOCUMENT_WRITE"
  | .ComputeLocal => "COMPUTE_LOCAL"
  | .ComputeTrustedDevice => "COMPUTE_TRUSTED_DEVICE"
  | .ComputeCloud => "COMPUTE_CLOUD"
  | .NotificationSend => "NOTIFICATION_SEND"
  | .AppShare => "APP_SHARE"
  | .AppBackup => "APP_BACKUP"
  | .AppInspect => "APP_INSPECT"
  | .AppConfigure => "APP_CONFIGURE"
  | .MediaGenerate => "MEDIA_GENERATE"

/-- All of them, in the order of the source. -/
def permissions : List Permission :=
  [.EmailRead, .EmailSearch, .EmailLabel, .EmailArchive, .EmailDelete, .EmailDraft,
    .EmailSend, .GitLabRead, .GitLabWrite, .GitLabMerge, .CalendarRead, .CalendarCreate,
    .CalendarUpdate, .CalendarDelete, .FilesRead, .FilesWrite, .FilesDelete, .MicrophoneAccess,
    .CameraAccess, .ContactsRead, .MemoryWrite, .MemoryRead, .MemoryDelete, .DocumentRead,
    .DocumentWrite, .ComputeLocal, .ComputeTrustedDevice, .ComputeCloud, .NotificationSend,
    .AppShare, .AppBackup, .AppInspect, .AppConfigure, .MediaGenerate]

def policy_name : ExecutionPolicy → String
  | .AlwaysAllow => "ALWAYS_ALLOW"
  | .AskUser => "ASK_USER"
  | .AllowWithRule => "ALLOW_WITH_RULE"
  | .NeverAllow => "NEVER_ALLOW"

def parse_permission (text : String) : Option Permission :=
  permissions.find? fun p => permission_name p = text

def parse_policy (text : String) : Option ExecutionPolicy :=
  [ExecutionPolicy.AlwaysAllow, .AskUser, .AllowWithRule, .NeverAllow].find? fun policy =>
    policy_name policy = text

theorem parse_permission_name (p : Permission) : parse_permission (permission_name p) = some p := by
  cases p <;> decide

theorem parse_policy_name (policy : ExecutionPolicy) :
    parse_policy (policy_name policy) = some policy := by
  cases policy <;> decide

theorem parse_permission_iff {text : String} {p : Permission} :
    parse_permission text = some p ↔ text = permission_name p := by
  constructor
  · intro h
    have hname := List.find?_some h
    exact (of_decide_eq_true hname).symm
  · rintro rfl
    exact parse_permission_name p

/-! ## The table -/

/-- A value of a column. -/
inductive Cell
  | text (s : String)
  | other
deriving DecidableEq

def Cell.is_text : Cell → Bool
  | .text _ => true
  | .other => false

/-- The rows under their permission, which is the primary key. -/
abbrev Rows := Table Cell Cell

def parse_cell : Cell → Option ExecutionPolicy
  | .text policy => parse_policy policy
  | .other => none

/-- A row with the names of a permission and of a policy. -/
def parse_row (permission policy : Cell) : Option (Permission × ExecutionPolicy) :=
  match permission with
  | .text permission =>
    (parse_permission permission).bind fun p => (parse_cell policy).map fun policy => (p, policy)
  | .other => none

def with_defaults : PolicyTable where
  rules
    | .EmailRead | .EmailSearch | .EmailDraft => some .AlwaysAllow
    | .EmailLabel | .EmailArchive | .EmailSend | .EmailDelete => some .AskUser
    | .GitLabRead => some .AlwaysAllow
    | .GitLabWrite | .GitLabMerge => some .AskUser
    | .CalendarRead => some .AlwaysAllow
    | .CalendarCreate | .CalendarUpdate | .CalendarDelete => some .AskUser
    | .FilesRead => some .AlwaysAllow
    | .FilesWrite | .FilesDelete => some .AskUser
    | .MicrophoneAccess | .CameraAccess | .ContactsRead => some .AskUser
    | .MemoryWrite | .MemoryRead => some .AlwaysAllow
    | .MemoryDelete => some .AskUser
    | .DocumentRead | .DocumentWrite => some .AlwaysAllow
    | .ComputeLocal => some .AlwaysAllow
    | .ComputeTrustedDevice | .ComputeCloud => some .AskUser
    | .NotificationSend => some .AlwaysAllow
    | .AppShare | .AppBackup => some .AskUser
    | .AppInspect => some .AlwaysAllow
    | .AppConfigure => some .AskUser
    | .MediaGenerate => none

/-- One row of the loop of `load_policies`. -/
def set_row (t : PolicyTable) (row : (_ : Cell) × Cell) : PolicyTable :=
  match parse_row row.1 row.2 with
  | some (p, policy) => t.set p policy
  | none => t

/-- The query gives all rows or an error, also for one value that is no text. -/
def answered (queried : Bool) (rows : Rows) : Bool :=
  queried && rows.entries.all fun row => row.1.is_text && row.2.is_text

def load_policies (queried : Bool) (rows : Rows) : PolicyTable :=
  if answered queried rows then rows.entries.foldl set_row with_defaults else with_defaults

def persist_policy (rows : Rows) (p : Permission) (policy : ExecutionPolicy) : Rows :=
  rows.insert (.text (permission_name p)) (.text (policy_name policy))

def effective (t : PolicyTable) (p : Permission) : ExecutionPolicy := (t.get p).getD .AskUser

/-! ## Runs -/

/-- The runtime, and two notes: the last edit of a permission that was reported as done, and
whether it stands since then, or a restart has come to it again. -/
structure State where
  engine : PolicyTable
  rows : Rows
  acked : Permission → Option ExecutionPolicy
  stands : Permission → Bool

/-- What the caller gives as texts may be no text at all. -/
def parse_edit (permission policy : Except Error String) :
    Except Error (Permission × ExecutionPolicy) := do
  let p ← match parse_permission (← permission) with
    | some p => .ok p
    | none => .error (.InvalidInput "unknown permission")
  let policy ← match parse_policy (← policy) with
    | some policy => .ok policy
    | none => .error (.InvalidInput "unknown policy")
  return (p, policy)

/-- `written` is what comes of the insert. -/
def pai_set_policy (s : State) (permission policy : Except Error String)
    (written : Except Error Unit) : Except Error Unit × State :=
  match parse_edit permission policy with
  | .error e => (.error e, s)
  | .ok (p, policy) =>
    let s := { s with engine := s.engine.set p policy }
    match written with
    | .error e => (.error e, s)
    | .ok () =>
      (.ok (), { s with
        rows := persist_policy s.rows p policy
        acked := Function.update s.acked p (some policy)
        stands := Function.update s.stands p true })

/-- The policy in the row of a permission. -/
def stored (rows : Rows) (p : Permission) : Option ExecutionPolicy :=
  (rows.lookup (.text (permission_name p))).bind parse_cell

/-- A restart reads the row of the permission. -/
def reads (queried : Bool) (rows : Rows) (p : Permission) : Bool :=
  answered queried rows && (stored rows p).isSome

def restart (s : State) (queried : Bool) : State :=
  { s with engine := load_policies queried s.rows, stands := reads queried s.rows }

/-- Another value in the place of a row, which is no row of a permission and a policy. -/
def damage (rows : Rows) (key permission policy : Cell) : Rows :=
  if key ∈ rows ∧ (permission = key ∨ permission ∉ rows) ∧ parse_row permission policy = none then
    (rows.erase key).insert permission policy
  else rows

inductive Act
  | pai_set_policy (permission policy : Except Error String) (written : Except Error Unit)
  | restart (queried : Bool)
  | damage (key permission policy : Cell)

def step (s : State) : Act → State
  | .pai_set_policy permission policy written => (pai_set_policy s permission policy written).2
  | .restart queried => restart s queried
  | .damage key permission policy => { s with rows := damage s.rows key permission policy }

/-- Before any edit. -/
def started (rows : Rows) : State :=
  { engine := load_policies true rows, rows, acked := fun _ => none, stands := fun _ => false }

/-! ## What is asked of a run -/

/-- What `decide` makes of one permission with the policy. -/
def verdict : ExecutionPolicy → PermissionDecision
  | .NeverAllow => .Deny
  | .AskUser => .AskUser
  | .AllowWithRule | .AlwaysAllow => .Allow

def rank : PermissionDecision → Nat
  | .Deny => 0
  | .AskUser => 1
  | .Allow => 2

/-- An edit that was reported as done governs what is decided, and whatever restarts have come to,
no permission is freer than its last such edit. -/
structure Lawful (s : State) : Prop where
  governs : ∀ p policy, s.acked p = some policy → s.stands p = true →
    effective s.engine p = policy ∧ ∀ ps, s.engine.decide ps = (s.engine.set p policy).decide ps
  bounded : ∀ p policy, s.acked p = some policy → ∀ ps, p ∈ ps →
    rank (s.engine.decide ps) ≤ rank (verdict policy)

def reply (s : State) : Act → Option (Except Error Unit)
  | .pai_set_policy permission policy written => some (pai_set_policy s permission policy written).1
  | .restart _ | .damage _ _ _ => none

/-- An edit that was reported as failed changes nothing, and the state behind the act is lawful. -/
structure HoldsAt (s : State) (a : Act) : Prop where
  refused : ∀ e, reply s a = some (.error e) → ∀ p,
    effective (step s a).engine p = effective s.engine p
  lawful : Lawful (step s a)

/-- The insert of an edit goes through where the edit changes something, and a restart reads the
row of each edited permission whose default is freer than the edit. -/
def Meets (s : State) : Act → Prop
  | .pai_set_policy permission policy written => ∀ p new,
    parse_edit permission policy = .ok (p, new) → written = .ok () ∨ effective s.engine p = new
  | .restart queried => ∀ p policy, s.acked p = some policy → reads queried s.rows p = true ∨
    rank (verdict (effective with_defaults p)) ≤ rank (verdict policy)
  | .damage _ _ _ => True

/-! ## Decisions -/

section Decisions
variable {t u : PolicyTable} {p q : Permission} {policy : ExecutionPolicy} {ps : List Permission}

theorem set_get : (t.set p policy).get q = if q = p then some policy else t.get q :=
  Function.update_apply ..

theorem effective_set : effective (t.set p policy) q = if q = p then policy else effective t q := by
  unfold effective
  rw [set_get]
  split <;> rfl

/-- A decision asks for the effective policies only. -/
theorem decide_from_congr (h : ∀ p, effective t p = effective u p) (decision : PermissionDecision) :
    t.decide_from decision ps = u.decide_from decision ps := by
  induction ps generalizing decision with
  | nil => rfl
  | cons p ps ih =>
    have hp : (t.get p).getD .AskUser = (u.get p).getD .AskUser := h p
    unfold PolicyTable.decide_from
    rw [hp]
    split
    · rfl
    · exact ih _
    · exact ih _
    · exact ih _

theorem decide_set (h : effective t p = policy) (ps : List Permission) :
    t.decide ps = (t.set p policy).decide ps := by
  refine decide_from_congr (fun q => ?_) _
  rw [effective_set]
  split
  · rename_i hq
    rw [hq, h]
  · rfl

theorem decide_from_rank {decision : PermissionDecision} (hd : decision ≠ .Deny) :
    rank (t.decide_from decision ps) ≤ rank decision ∧
      ∀ p ∈ ps, rank (t.decide_from decision ps) ≤ rank (verdict (effective t p)) := by
  induction ps generalizing decision with
  | nil => exact ⟨Nat.le_refl _, by simp⟩
  | cons p ps ih =>
    have hpos : 1 ≤ rank decision := by
      cases decision with
      | Allow => decide
      | AskUser => decide
      | Deny => exact absurd rfl hd
    have hp : (t.get p).getD .AskUser = effective t p := rfl
    unfold PolicyTable.decide_from
    rw [hp]
    rcases hpolicy : effective t p with _ | _ | _ | _
    · obtain ⟨hle, hall⟩ := ih hd
      refine ⟨hle, List.forall_mem_cons.mpr ⟨?_, hall⟩⟩
      rw [hpolicy]
      exact Nat.le_trans hle (by cases decision <;> decide)
    · obtain ⟨hle, hall⟩ := ih (show PermissionDecision.AskUser ≠ .Deny by decide)
      refine ⟨Nat.le_trans hle hpos, List.forall_mem_cons.mpr ⟨?_, hall⟩⟩
      rw [hpolicy]
      exact hle
    · obtain ⟨hle, hall⟩ := ih hd
      refine ⟨hle, List.forall_mem_cons.mpr ⟨?_, hall⟩⟩
      rw [hpolicy]
      exact Nat.le_trans hle (by cases decision <;> decide)
    · exact ⟨Nat.zero_le _, fun _ _ => Nat.zero_le _⟩

/-- The most restrictive policy wins. -/
theorem decide_rank (h : p ∈ ps) : rank (t.decide ps) ≤ rank (verdict (effective t p)) :=
  (decide_from_rank (by decide)).2 p h

theorem decide_one (t : PolicyTable) (p : Permission) :
    t.decide [p] = verdict (effective t p) := by
  have hp : (t.get p).getD .AskUser = effective t p := rfl
  unfold PolicyTable.decide PolicyTable.decide_from
  rw [hp]
  cases effective t p <;> rfl

end Decisions

/-! ## Rows -/

section Table
variable {rows : Rows} {p q : Permission} {policy : ExecutionPolicy} {queried : Bool}

theorem permission_name_inj (h : permission_name p = permission_name q) : p = q :=
  Option.some.inj ((parse_permission_name p).symm.trans ((congrArg _ h).trans (parse_permission_name q)))

theorem key_ne (h : q ≠ p) : Cell.text (permission_name q) ≠ .text (permission_name p) :=
  fun heq => h (permission_name_inj (Cell.text.inj heq))

theorem parse_row_named (p : Permission) (value : Cell) :
    parse_row (.text (permission_name p)) value = (parse_cell value).map fun policy => (p, policy) := by
  unfold parse_row
  dsimp only
  rw [parse_permission_name, Option.bind_some]

theorem parse_row_key {key value : Cell} {row : Permission × ExecutionPolicy}
    (h : parse_row key value = some row) : key = .text (permission_name row.1) := by
  cases key with
  | other => cases h
  | text permission =>
    obtain ⟨q, hq, hrow⟩ := Option.bind_eq_some_iff.mp h
    obtain ⟨policy, -, rfl⟩ := Option.map_eq_some_iff.mp hrow
    exact congrArg Cell.text (parse_permission_iff.mp hq)

theorem stored_persist : stored (persist_policy rows p policy) q =
    if q = p then some policy else stored rows q := by
  unfold stored persist_policy
  rw [lookup_insert_if]
  by_cases h : q = p
  · rw [if_pos h, if_pos (h ▸ rfl)]
    exact parse_policy_name policy
  · rw [if_neg h, if_neg (key_ne h)]

/-- A damaged row counts no more, and the others as before. -/
theorem stored_damage (key permission policy : Cell) :
    stored (damage rows key permission policy) p = none ∨
      stored (damage rows key permission policy) p = stored rows p := by
  unfold damage
  split
  · rename_i h
    obtain ⟨-, -, hrow⟩ := h
    unfold stored
    rw [lookup_insert_if, lookup_erase_if]
    by_cases hnew : Cell.text (permission_name p) = permission
    · rw [← hnew, parse_row_named, Option.map_eq_none_iff] at hrow
      rw [if_pos hnew]
      exact .inl hrow
    · rw [if_neg hnew]
      by_cases hold : Cell.text (permission_name p) = key
      · rw [if_pos hold]
        exact .inl rfl
      · rw [if_neg hold]
        exact .inr rfl
  · exact .inr rfl

theorem set_row_get (t : PolicyTable) (key value : Cell) (p : Permission) :
    (set_row t ⟨key, value⟩).get p =
      if key = .text (permission_name p) then (parse_cell value).or (t.get p) else t.get p := by
  unfold set_row
  by_cases h : key = .text (permission_name p)
  · rw [if_pos h, h]
    dsimp only
    rw [parse_row_named]
    rcases parse_cell value with _ | policy
    · rfl
    · exact set_get.trans (if_pos rfl)
  · rw [if_neg h]
    dsimp only
    rcases hrow : parse_row key value with _ | ⟨q, policy⟩
    · rfl
    · exact set_get.trans (if_neg fun hq : p = q => h (hq ▸ parse_row_key hrow))

theorem fold_get (l : List ((_ : Cell) × Cell)) (hl : l.NodupKeys) (t : PolicyTable) (p : Permission) :
    (l.foldl set_row t).get p =
      ((l.dlookup (.text (permission_name p))).bind parse_cell).or (t.get p) := by
  induction l generalizing t with
  | nil => rfl
  | cons row l ih =>
    obtain ⟨key, value⟩ := row
    obtain ⟨hkey, hl⟩ := List.nodupKeys_cons.mp hl
    rw [List.foldl_cons, ih hl, set_row_get]
    by_cases h : key = .text (permission_name p)
    · rw [if_pos h]
      subst h
      rw [List.dlookup_cons_eq, List.dlookup_eq_none.mpr hkey]
      rfl
    · rw [if_neg h, List.dlookup_cons_ne _ _ (fun heq => h heq.symm)]

theorem load_get (h : answered queried rows = true) (p : Permission) :
    (load_policies queried rows).get p = (stored rows p).or (with_defaults.get p) := by
  unfold load_policies
  rw [if_pos h, fold_get _ rows.nodupKeys]
  rfl

/-- A row that is read is the rule. -/
theorem load_read (h : reads queried rows p = true) :
    stored rows p = some (effective (load_policies queried rows) p) := by
  unfold reads at h
  obtain ⟨hanswered, hstored⟩ := Bool.and_eq_true_iff.mp h
  obtain ⟨policy, hpolicy⟩ := Option.isSome_iff_exists.mp hstored
  unfold effective
  rw [load_get hanswered, hpolicy]
  rfl

/-- Else the default is. -/
theorem load_default (h : reads queried rows p = false) :
    effective (load_policies queried rows) p = effective with_defaults p := by
  unfold effective
  rcases hanswered : answered queried rows with _ | _
  · unfold load_policies
    rw [hanswered]
    rfl
  · unfold reads at h
    rw [hanswered, Bool.true_and] at h
    rw [load_get hanswered, Option.isSome_eq_false_iff.mp h |> Option.isNone_iff_eq_none.mp]
    rfl

end Table

/-! ## The law -/

/-- The row of an edited permission holds the last edit, or nothing that counts. -/
structure Inv (s : State) : Prop where
  rows : ∀ p policy, s.acked p = some policy →
    stored s.rows p = none ∨ stored s.rows p = some policy
  lawful : Lawful s

section Law
variable {s : State} {p : Permission} {new : ExecutionPolicy} {permission policy : Except Error String}

/-- With the same effective policies the same holds of an engine. -/
theorem lawful_congr {engine : PolicyTable} (h : Lawful s)
    (hsame : ∀ p, effective engine p = effective s.engine p) {rows : Rows} :
    Lawful { s with engine, rows } where
  governs p policy hacked hstands := by
    have heff : effective engine p = policy := (hsame p).trans (h.governs p policy hacked hstands).1
    exact ⟨heff, decide_set heff⟩
  bounded p policy hacked ps hp := by
    have hle := h.bounded p policy hacked ps hp
    rwa [show s.engine.decide ps = engine.decide ps from
      decide_from_congr (fun q => (hsame q).symm) _] at hle

theorem lawful_of_rank (hgoverns : ∀ p policy, s.acked p = some policy → s.stands p = true →
      effective s.engine p = policy)
    (hbounded : ∀ p policy, s.acked p = some policy →
      rank (verdict (effective s.engine p)) ≤ rank (verdict policy)) : Lawful s where
  governs p policy hacked hstands :=
    ⟨hgoverns p policy hacked hstands, decide_set (hgoverns p policy hacked hstands)⟩
  bounded p policy hacked _ hp := Nat.le_trans (decide_rank hp) (hbounded p policy hacked)

theorem bounded_one (h : Lawful s) (hacked : s.acked p = some new) :
    rank (verdict (effective s.engine p)) ≤ rank (verdict new) := by
  rw [← decide_one]
  exact h.bounded p new hacked [p] List.mem_cons_self

theorem edit_error {e : Error} (h : parse_edit permission policy = .error e)
    (written : Except Error Unit) : pai_set_policy s permission policy written = (.error e, s) := by
  unfold pai_set_policy
  rw [h]

theorem edit_failed (h : parse_edit permission policy = .ok (p, new)) (e : Error) :
    pai_set_policy s permission policy (.error e) =
      (.error e, { s with engine := s.engine.set p new }) := by
  unfold pai_set_policy
  rw [h]

theorem edit_written (h : parse_edit permission policy = .ok (p, new)) :
    pai_set_policy s permission policy (.ok ()) =
      (.ok (), { engine := s.engine.set p new, rows := persist_policy s.rows p new,
                 acked := Function.update s.acked p (some new)
                 stands := Function.update s.stands p true }) := by
  unfold pai_set_policy
  rw [h]

/-- An edit that goes through. -/
theorem inv_written (h : Inv s) (p : Permission) (new : ExecutionPolicy) :
    Inv { engine := s.engine.set p new, rows := persist_policy s.rows p new,
          acked := Function.update s.acked p (some new)
          stands := Function.update s.stands p true } where
  rows q policy hacked := by
    dsimp only at hacked ⊢
    rw [stored_persist]
    rw [Function.update_apply] at hacked
    by_cases hq : q = p
    · rw [if_pos hq] at hacked ⊢
      exact .inr hacked
    · rw [if_neg hq] at hacked ⊢
      exact h.rows q policy hacked
  lawful := by
    refine lawful_of_rank (fun q policy hacked hstands => ?_) (fun q policy hacked => ?_)
    · dsimp only at hacked hstands ⊢
      rw [effective_set]
      rw [Function.update_apply] at hacked hstands
      by_cases hq : q = p
      · rw [if_pos hq] at hacked ⊢
        exact Option.some.inj hacked
      · rw [if_neg hq] at hacked hstands ⊢
        exact (h.lawful.governs q policy hacked hstands).1
    · dsimp only at hacked ⊢
      rw [effective_set]
      rw [Function.update_apply] at hacked
      by_cases hq : q = p
      · rw [if_pos hq] at hacked ⊢
        rw [Option.some.inj hacked]
      · rw [if_neg hq] at hacked ⊢
        exact bounded_one h.lawful hacked

/-- The effective policies of a failed edit. -/
theorem effective_failed (h : effective s.engine p = new) (q : Permission) :
    effective (s.engine.set p new) q = effective s.engine q := by
  rw [effective_set]
  split
  · rename_i hq
    rw [hq, h]
  · rfl

theorem restart_lawful_iff (h : Inv s) (queried : Bool) :
    Lawful (restart s queried) ↔ Meets s (.restart queried) := by
  constructor
  · intro hlawful p policy hacked
    rcases hreads : reads queried s.rows p with _ | _
    · have hle := bounded_one (s := restart s queried) hlawful hacked
      change rank (verdict (effective (load_policies queried s.rows) p)) ≤ _ at hle
      rw [load_default hreads] at hle
      exact .inr hle
    · exact .inl rfl
  · intro hmeets
    have hread : ∀ p policy, s.acked p = some policy → reads queried s.rows p = true →
        effective (load_policies queried s.rows) p = policy := by
      intro p policy hacked hreads
      have hstored := load_read hreads
      rcases h.rows p policy hacked with hnone | hsome
      · rw [hnone] at hstored
        cases hstored
      · exact Option.some.inj (hstored.symm.trans hsome)
    refine lawful_of_rank hread (fun p policy hacked => ?_)
    change rank (verdict (effective (load_policies queried s.rows) p)) ≤ _
    rcases hreads : reads queried s.rows p with _ | _
    · rw [load_default hreads]
      rcases hmeets p policy hacked with htrue | hle
      · rw [hreads] at htrue
        cases htrue
      · exact hle
    · rw [hread p policy hacked hreads]

/-- One act. -/
theorem meets_step (h : Inv s) (a : Act) (hmeets : Meets s a) : Inv (step s a) ∧ HoldsAt s a := by
  cases a with
  | restart queried =>
    have hlawful := (restart_lawful_iff h queried).mpr hmeets
    exact ⟨⟨h.rows, hlawful⟩, ⟨(fun _ hreply => by cases hreply), hlawful⟩⟩
  | damage key permission policy =>
    have hlawful : Lawful (step s (.damage key permission policy)) :=
      lawful_congr h.lawful fun _ => rfl
    refine ⟨⟨fun p policy' hacked => ?_, hlawful⟩, ⟨(fun _ hreply => by cases hreply), hlawful⟩⟩
    change stored (damage s.rows key permission policy) p = none ∨
      stored (damage s.rows key permission policy) p = some policy'
    rcases @stored_damage s.rows p key permission policy with hnone | hsame
    · exact .inl hnone
    · rw [hsame]
      exact h.rows p policy' hacked
  | pai_set_policy permission policy written =>
    rcases hedit : parse_edit permission policy with e | ⟨p, new⟩
    · have hstep : step s (.pai_set_policy permission policy written) = s :=
        congrArg Prod.snd (edit_error hedit written)
      rw [hstep]
      exact ⟨h, ⟨fun _ _ _ => by rw [hstep], by rw [hstep]; exact h.lawful⟩⟩
    · rcases written with e | ⟨⟩
      · have heff : effective s.engine p = new := by
          rcases hmeets p new hedit with hok | heff
          · cases hok
          · exact heff
        have hstep : step s (.pai_set_policy permission policy (.error e)) =
            { s with engine := s.engine.set p new } := congrArg Prod.snd (edit_failed hedit e)
        have hlawful : Lawful { s with engine := s.engine.set p new } :=
          lawful_congr h.lawful (effective_failed heff)
        rw [hstep]
        refine ⟨⟨h.rows, hlawful⟩, ⟨fun _ _ q => ?_, by rw [hstep]; exact hlawful⟩⟩
        rw [hstep]
        exact effective_failed heff q
      · have hinv : Inv (step s (.pai_set_policy permission policy (.ok ()))) := by
          change Inv (pai_set_policy s permission policy (.ok ())).2
          rw [edit_written hedit]
          exact inv_written h p new
        refine ⟨hinv, ⟨fun e hreply => ?_, hinv.lawful⟩⟩
        change some (pai_set_policy s permission policy (.ok ())).1 = _ at hreply
        rw [edit_written hedit] at hreply
        cases hreply

/-- What is asked of an act needs the condition. -/
theorem meets_of_holds (h : Inv s) (a : Act) (hholds : HoldsAt s a) : Meets s a := by
  cases a with
  | restart queried => exact (restart_lawful_iff h queried).mp hholds.lawful
  | damage key permission policy => trivial
  | pai_set_policy permission policy written =>
    intro p new hedit
    rcases written with e | ⟨⟩
    · have hreply : reply s (.pai_set_policy permission policy (.error e)) = some (.error e) :=
        congrArg (fun r : Except Error Unit × State => some r.1) (edit_failed hedit e)
      have hsame := hholds.refused e hreply p
      change effective (pai_set_policy s permission policy (.error e)).2.engine p = _ at hsame
      rw [edit_failed hedit, effective_set, if_pos rfl] at hsame
      exact .inr hsame.symm
    · exact .inl rfl

theorem started_inv (rows : Rows) : Inv (started rows) where
  rows p policy hacked := by cases hacked
  lawful := ⟨(fun p policy hacked => by cases hacked), (fun p policy hacked => by cases hacked)⟩

end Law

/-- The edits of a run hold at each of its acts exactly where each act meets the condition. -/
theorem edits_hold_iff (rows : Rows) (acts : List Act) :
    runs.Along step HoldsAt (started rows) acts ↔ runs.Along step Meets (started rows) acts := by
  constructor
  · exact @runs.along_of_invariant State Act step Inv HoldsAt Meets
      (fun s a hs ha => (meets_step hs a (meets_of_holds hs a ha)).1)
      (fun s a hs ha => meets_of_holds hs a ha) _ (started_inv rows) acts
  · exact @runs.along_of_invariant State Act step Inv Meets HoldsAt
      (fun s a hs ha => (meets_step hs a ha).1) (fun s a hs ha => (meets_step hs a ha).2) _
      (started_inv rows) acts

/-- An edit that the disk refuses. -/
def refused_edit : Act :=
  .pai_set_policy (.ok "EMAIL_SEND") (.ok "ALWAYS_ALLOW") (.error (.Storage "disk I/O error"))

def forbid : Act := .pai_set_policy (.ok "EMAIL_READ") (.ok "NEVER_ALLOW") (.ok ())

/-- The refused edit lets mail be sent unasked, and behind a query that fails, and behind one row
whose policy is no policy, mail is read again that was not to be read. -/
theorem edits_do_not_hold :
    ¬ runs.Along step HoldsAt (started ∅) [refused_edit] ∧
      ¬ runs.Along step HoldsAt (started ∅) [forbid, .restart false] ∧
      ¬ runs.Along step HoldsAt (started ∅) [forbid,
        .damage (.text "EMAIL_READ") (.text "EMAIL_READ") (.text "NEVER"), .restart true] := by
  refine ⟨fun h => ?_, fun h => ?_, fun h => ?_⟩
  · have hsame := h.1.refused (.Storage "disk I/O error") (by decide) .EmailSend
    exact absurd hsame (by decide)
  · have hle := h.2.1.lawful.bounded .EmailRead .NeverAllow (by decide) [.EmailRead]
      List.mem_cons_self
    exact absurd hle (by decide)
  · have hle := h.2.2.1.lawful.bounded .EmailRead .NeverAllow (by decide) [.EmailRead]
      List.mem_cons_self
    exact absurd hle (by decide)

end pai_ffi.policies
