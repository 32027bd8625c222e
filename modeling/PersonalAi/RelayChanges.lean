-- Who changes the files of a relay: a file reads otherwise behind an act only where a PUT or DELETE
-- of its key, with a token that was valid when it was handled, has its next operation.
import PersonalAi.RelayRuns

open pai_core text inodes runs pai_sync.keys pai_sync.folder

namespace pai_sync.relay

variable {C : Type}

/-! ## Where calls come from -/

/-- The key in the path of a request. -/
def HttpRequest.key (http : HttpRequest) : Option String :=
  ( strip_prefix key_prefix (first_part '?' http.url)).bind decoded_key

/-- The request was handled in the run, with a token that was valid then. -/
def Admitted (wire : Wire C) (listing : Listing) (auth : List String → Option AuthCheck)
    (acts : List RelayAct) (id : Nat) (http : HttpRequest) : Prop :=
  ∃ before after, acts = before ++ .handle id :: after ∧
    let s := run (Relay.step wire listing auth) Relay.empty before
    s.threads id = some { http, phase := .arrived } ∧ authorized (auth s.tokens) http.headers = true

/-- What a request has to be for the handler to call the folder with it. -/
def Asks (wire : Wire C) (http : HttpRequest) : Request C → Prop
  | .push obj => http.method = "PUT" ∧ http.key = some obj.key ∧
    wire.from_slice http.body = some obj ∧ http.body.length ≤ MAX_OBJ_BODY
  | .delete key => http.method = "DELETE" ∧ http.key = some key
  | .pull key => http.method = "GET" ∧ http.key = some key
  | .list => http.method = "GET"

/-- The call is for that request. -/
def CallOf (request : Request C) : Call C → Prop
  | .push obj | .writing obj _ _ => request = .push obj
  | .delete key => request = .delete key
  | _ => True

/-! ## The handler -/

section Handler
variable {wire : Wire C} {auth : Option AuthCheck} {http : HttpRequest} {request : Request C}

theorem with_key_call {p : String} {next : String → Handled C}
    (h : with_key p next = .call request) :
    ∃ key, decoded_key p = some key ∧ next key = .call request := by
  unfold with_key at h
  split at h
  · cases h
  · exact ⟨_, ‹_›, h⟩

theorem put_call {body : Bytes} {key : String} (h : put wire body key = .call request) :
    ∃ obj, request = .push obj ∧ obj.key = key ∧ wire.from_slice body = some obj ∧
      body.length ≤ MAX_OBJ_BODY := by
  unfold put at h
  dsimp only at h
  split at h
  · cases h
  · split at h
    · cases h
    · rename_i hlength
      have hsmall : body.length ≤ MAX_OBJ_BODY := by
        rw [List.length_take] at hlength
        omega
      rw [List.take_of_length_le (hsmall.trans (Nat.le_succ _))] at h
      split at h
      · cases h
      · rename_i obj hobj
        split at h
        · cases h
        · rename_i hkey
          cases h
          exact ⟨obj, rfl, not_not.mp hkey, hobj, hsmall⟩

/-- The folder is called for requests with a valid token only, each with the key of its path. -/
theorem handle_call (h : handle wire auth http = .call request) :
    authorized auth http.headers = true ∧ Asks wire http request := by
  unfold handle at h
  split at h
  · rename_i hauth
    refine ⟨hauth, ?_⟩
    dsimp only at h
    split at h
    · rename_i hlist
      cases h
      exact hlist.1
    · split at h
      · cases h
      · rename_i p hp
        have hkey : http.key = decoded_key p := by
          unfold HttpRequest.key
          rw [hp, Option.bind_some]
        split at h
        · rename_i hmethod
          obtain ⟨key, hdecoded, hcall⟩ := with_key_call h
          cases hcall
          exact ⟨hmethod, hkey.trans hdecoded⟩
        · split at h
          · rename_i hmethod
            obtain ⟨key, hdecoded, hcall⟩ := with_key_call h
            obtain ⟨obj, rfl, rfl, hobj, hsmall⟩ := put_call hcall
            exact ⟨hmethod, hkey.trans hdecoded, hobj, hsmall⟩
          · split at h
            · rename_i hmethod
              obtain ⟨key, hdecoded, hcall⟩ := with_key_call h
              cases hcall
              exact ⟨hmethod, hkey.trans hdecoded⟩
            · cases h
  · cases h

end Handler

/-! ## Whose files an operation changes -/

section Folder
variable {wire : Wire C} {s : State C} {id bytes : Nat} {order : List Name} {name : Name}

/-- A file that is open for an object stands under the names of its key only. -/
def Opened (d : Dir Name) (obj : SyncObject C) (inode : Nat) : Prop :=
  inode < d.next ∧ ∀ n, d.names.lookup n = some inode → n = temporary obj.key ∨ n = path obj.key

def AllOpened (s : State C) : Prop :=
  ∀ id obj inode written, s.calls id = some (.writing obj inode written) → Opened s.dir obj inode

theorem create_opened (d : Dir Name) (obj : SyncObject C) :
    Opened (d.create (temporary obj.key)).2 obj (d.create (temporary obj.key)).1 :=
  ⟨(d.create (temporary obj.key)).2.below _ _ Dir.create_inode,
    fun n hn => .inl ((d.create (temporary obj.key)).2.apart n _ _ hn Dir.create_inode)⟩

theorem create_next (d : Dir Name) (n : Name) : d.next ≤ (d.create n).2.next := by
  unfold Dir.create
  split
  · exact Nat.le_refl _
  · exact Nat.le_succ _

/-- A file that was open already is not one that is made. -/
theorem opened_create {obj : SyncObject C} {inode : Nat} {d : Dir Name} (h : Opened d obj inode)
    (n : Name) : Opened (d.create n).2 obj inode := by
  refine ⟨Nat.lt_of_lt_of_le h.1 (create_next d n), fun m hm => ?_⟩
  by_cases hmn : m = n
  · subst hmn
    refine h.2 m ?_
    obtain heq : (d.create m).1 = inode := Option.some.inj (Dir.create_inode.symm.trans hm)
    unfold Dir.create at heq
    split at heq
    · rename_i i hi
      exact hi.trans (congrArg some heq)
    · exact absurd h.1 (heq ▸ Nat.lt_irrefl _)
  · rw [Dir.create_names hmn] at hm
    exact h.2 m hm

theorem opened_rename {obj : SyncObject C} {inode : Nat} {d d' : Dir Name} {key : String}
    (h : Opened d obj inode) (hrename : d.rename (temporary key) (path key) = some d') :
    Opened d' obj inode := by
  have hnext : d'.next = d.next := by
    unfold Dir.rename at hrename
    split at hrename
    · cases hrename
    · cases hrename
      rfl
  obtain ⟨hnames, -⟩ := Dir.rename_names hrename (temporary_ne_path key key)
  refine ⟨hnext ▸ h.1, fun n hn => ?_⟩
  rw [hnames] at hn
  split at hn
  · rename_i hpath
    -- the temporary file of the key is one of the two of the object, so the keys have one file
    rcases h.2 _ hn with heq | heq
    · exact .inr (hpath.trans (congrArg Name.object (temporary_inj heq)))
    · exact absurd heq (temporary_ne_path key obj.key)
  · split at hn
    · cases hn
    · exact h.2 n hn

theorem opened_remove {obj : SyncObject C} {inode : Nat} {d d' : Dir Name} {n : Name}
    (h : Opened d obj inode) (hremove : d.remove n = some d') : Opened d' obj inode := by
  have hnext : d'.next = d.next := by
    unfold Dir.remove at hremove
    split at hremove
    · cases hremove
      rfl
    · cases hremove
  obtain ⟨hnames, -⟩ := Dir.remove_names hremove
  refine ⟨hnext ▸ h.1, fun m hm => ?_⟩
  rw [hnames] at hm
  split at hm
  · cases hm
  · exact h.2 m hm

theorem at_other {id' : Nat} (h : id' ≠ id) {call : Call C} :
    (s.at_ id call).calls id' = s.calls id' :=
  Function.update_of_ne h ..

/-- What an operation of a call may change of the folder: `dir'` is as before, or has another content
or name under the names of the key. -/
inductive Touches (d d' : Dir Name) : Call C → Prop
  | same {call : Call C} (h : d' = d) : Touches d d' call
  | push {obj : SyncObject C} (h : d' = (d.create (temporary obj.key)).2) : Touches d d' (.push obj)
  | chunk {obj : SyncObject C} {inode written : Nat} {bytes : Bytes}
      (h : d' = d.write_at inode written bytes) : Touches d d' (.writing obj inode written)
  | rename {obj : SyncObject C} {inode written : Nat}
      (h : d.rename (temporary obj.key) (path obj.key) = some d') :
      Touches d d' (.writing obj inode written)
  | delete {key : String} (h : d.remove (path key) = some d') : Touches d d' (.delete key)

theorem operate_touches (call : Call C) :
    Touches s.dir (operate wire s id bytes order call).dir call := by
  cases call with
  | push obj => exact .push rfl
  | writing obj inode written =>
    unfold operate
    dsimp only
    split
    · exact .chunk rfl
    · split
      · exact .same rfl
      · exact .rename ‹_›
  | pull key =>
    unfold operate
    dsimp only
    split <;> exact .same rfl
  | found key =>
    unfold operate
    dsimp only
    split <;> exact .same rfl
  | list => exact .same rfl
  | reading entries out => cases entries <;> exact .same rfl
  | delete key =>
    unfold operate
    dsimp only
    split
    · exact .same rfl
    · exact .delete ‹_›
  | done reply => exact .same rfl

/-- Files that are open stay with the names of their keys. -/
theorem touches_opened {d d' : Dir Name} {call : Call C} (h : Touches d d' call)
    {obj : SyncObject C} {inode : Nat} (hopened : Opened d obj inode) : Opened d' obj inode := by
  cases h with
  | same h => exact h ▸ hopened
  | push h => exact h ▸ opened_create hopened _
  | chunk h => exact h ▸ hopened
  | rename h => exact opened_rename hopened h
  | delete h => exact opened_remove hopened h

/-- The key of which a call changes the files, and whether only the file of the object. -/
def Reaches (name : Name) : Call C → Prop
  | .push obj | .writing obj _ _ => name = temporary obj.key ∨ name = path obj.key
  | .delete key => name = path key
  | _ => False

theorem touches_reaches {d d' : Dir Name} {call : Call C} (h : Touches d d' call)
    (hopened : ∀ obj inode written, call = .writing obj inode written → Opened d obj inode)
    (hread : d'.read name ≠ d.read name) : Reaches name call := by
  by_contra hnot
  cases h with
  | same h => exact hread (h ▸ rfl)
  | @push obj h =>
    refine hread ?_
    rw [h, Dir.read_create (fun heq => hnot (.inl heq))]
  | @chunk obj inode written bytes h =>
    refine hread ?_
    rw [h]
    unfold Dir.read
    change (d.names.lookup name).map _ = _
    rcases hname : d.names.lookup name with _ | i
    · rfl
    · refine congrArg some (Dir.write_at_other fun heq => hnot ?_)
      exact (hopened obj inode written rfl).2 name (heq ▸ hname)
  | @rename obj inode written h =>
    refine hread ?_
    rw [Dir.read_rename h (temporary_ne_path _ _), if_neg (fun heq => hnot (.inr heq)),
      if_neg (fun heq => hnot (.inl heq))]
  | @delete key h =>
    refine hread ?_
    have hname : name ≠ path key := fun heq => hnot heq
    rw [Dir.read_remove h, if_neg hname]

/-- Where a call goes: it stays one for its request, and the open file of a push is one that it has
opened itself. -/
structure Next (d : Dir Name) (call call' : Call C) : Prop where
  of : ∀ request, CallOf request call → CallOf request call'
  opened : ∀ obj inode written, call' = .writing obj inode written →
    Opened d obj inode ∨ ∃ n, call = .writing obj inode n

theorem next_closed {d : Dir Name} {call call' : Call C} (h : ∀ request, CallOf request call')
    (hopened : ∀ obj inode written, call' ≠ .writing obj inode written) : Next d call call' :=
  ⟨fun request _ => h request, fun obj inode written heq => absurd heq (hopened obj inode written)⟩

theorem operate_next {call call' : Call C} (hcall : s.calls id = some call)
    (h : (operate wire s id bytes order call).calls id = some call') :
    Next (operate wire s id bytes order call).dir call call' := by
  cases call with
  | push o =>
    cases (at_self _ _ _).symm.trans h
    refine ⟨fun request hof => hof, fun obj inode written heq => ?_⟩
    cases heq
    exact .inl (create_opened s.dir o)
  | writing o i n =>
    unfold operate at h ⊢
    dsimp only at h ⊢
    split at h
    · cases (at_self _ _ _).symm.trans h
      refine ⟨fun request hof => hof, fun obj inode written heq => ?_⟩
      cases heq
      exact .inr ⟨n, rfl⟩
    · split at h
      · cases (at_self _ _ _).symm.trans h
        exact next_closed (fun _ => trivial) nofun
      · cases (at_self _ _ _).symm.trans h
        exact next_closed (fun _ => trivial) nofun
  | pull key =>
    unfold operate at h
    dsimp only at h
    split at h <;> cases (at_self _ _ _).symm.trans h <;> exact next_closed (fun _ => trivial) nofun
  | found key =>
    unfold operate at h
    dsimp only at h
    split at h <;> cases (at_self _ _ _).symm.trans h <;> exact next_closed (fun _ => trivial) nofun
  | list =>
    cases (at_self _ _ _).symm.trans h
    exact next_closed (fun _ => trivial) nofun
  | reading entries out =>
    cases entries <;> cases (at_self _ _ _).symm.trans h <;>
      exact next_closed (fun _ => trivial) nofun
  | delete key =>
    unfold operate at h
    dsimp only at h
    split at h <;> cases (at_self _ _ _).symm.trans h <;> exact next_closed (fun _ => trivial) nofun
  | done reply =>
    cases hcall.symm.trans h
    exact next_closed (fun _ => trivial) nofun

end Folder

/-! ## The invariant -/

section Law
variable {wire : Wire C} {listing : Listing} {auth : List String → Option AuthCheck}

/-- Every call of the folder is for a request that was admitted, and open files are with their keys. -/
structure Traced (wire : Wire C) (listing : Listing) (auth : List String → Option AuthCheck)
    (acts : List RelayAct) (s : Relay C) : Prop where
  calls : ∀ id call, s.folder.calls id = some call → ∃ http request,
    Admitted wire listing auth acts id http ∧ Asks wire http request ∧ CallOf request call
  opened : AllOpened s.folder

theorem admitted_later {acts : List RelayAct} {id : Nat} {http : HttpRequest}
    (h : Admitted wire listing auth acts id http) (a : RelayAct) :
    Admitted wire listing auth (acts ++ [a]) id http := by
  obtain ⟨before, after, rfl, hwas⟩ := h
  exact ⟨before, after ++ [a], by simp, hwas⟩

/-- Where the folder is left alone. -/
theorem traced_same {acts : List RelayAct} {s s' : Relay C} (h : Traced wire listing auth acts s)
    (a : RelayAct) (hfolder : s'.folder = s.folder) :
    Traced wire listing auth (acts ++ [a]) s' := by
  refine ⟨fun id call hcall => ?_, hfolder ▸ h.opened⟩
  obtain ⟨http, request, hadmitted, hasks, hof⟩ := h.calls id call (hfolder ▸ hcall)
  exact ⟨http, request, admitted_later hadmitted a, hasks, hof⟩

/-- Where one call of the folder goes on. -/
theorem traced_goes_on {acts : List RelayAct} {s : Relay C} {folder' : State C} {id : Nat}
    {call call' : Call C} (h : Traced wire listing auth acts s)
    (hcall : s.folder.calls id = some call)
    (hcalls : folder'.calls = Function.update s.folder.calls id (some call'))
    (hnext : Next folder'.dir call call')
    (hopened : ∀ (obj : SyncObject C) inode, Opened s.folder.dir obj inode →
      Opened folder'.dir obj inode)
    (a : RelayAct) : Traced wire listing auth (acts ++ [a]) { s with folder := folder' } := by
  constructor
  · intro id' c hc
    dsimp only at hc
    by_cases hid : id' = id
    · subst hid
      rw [hcalls, Function.update_self] at hc
      obtain rfl : call' = c := Option.some.inj hc
      obtain ⟨http, request, hadmitted, hasks, hof⟩ := h.calls id' call hcall
      exact ⟨http, request, admitted_later hadmitted a, hasks, hnext.of request hof⟩
    · rw [hcalls, Function.update_of_ne hid] at hc
      obtain ⟨http, request, hadmitted, hasks, hof⟩ := h.calls id' c hc
      exact ⟨http, request, admitted_later hadmitted a, hasks, hof⟩
  · intro id' obj inode written hc
    dsimp only at hc ⊢
    by_cases hid : id' = id
    · subst hid
      rw [hcalls, Function.update_self] at hc
      rcases hnext.opened obj inode written (Option.some.inj hc) with hnew | ⟨n, rfl⟩
      · exact hnew
      · exact hopened obj inode (h.opened id' obj inode n hcall)
    · rw [hcalls, Function.update_of_ne hid] at hc
      exact hopened obj inode (h.opened id' obj inode written hc)

theorem op_traced {acts : List RelayAct} {s : Relay C} (h : Traced wire listing auth acts s)
    (id bytes : Nat) (order : List Name) :
    Traced wire listing auth (acts ++ [.op id bytes order])
      (s.step wire listing auth (.op id bytes order)) := by
  unfold Relay.step folder.step
  dsimp only
  rcases hcall : s.folder.calls id with _ | call
  · exact traced_same h _ rfl
  · obtain ⟨call', -, hcalls⟩ := operate_goes_on wire hcall bytes order
    have hself : (operate wire s.folder id bytes order call).calls id = some call' := by
      rw [hcalls, Function.update_self]
    exact traced_goes_on h hcall hcalls (operate_next hcall hself)
      (fun obj inode hopened => touches_opened (operate_touches call) hopened) _

theorem fail_traced {acts : List RelayAct} {s : Relay C} (h : Traced wire listing auth acts s)
    (id : Nat) :
    Traced wire listing auth (acts ++ [.fail id]) (s.step wire listing auth (.fail id)) := by
  unfold Relay.step folder.step
  dsimp only
  rcases hcall : s.folder.calls id with _ | call
  · exact traced_same h _ rfl
  · have hnext : Next s.folder.dir call (.done .error) := next_closed (fun _ => trivial) nofun
    have hfailed : (s.folder.at_ id (.done .error)).calls =
        Function.update s.folder.calls id (some (.done .error)) := rfl
    cases call with
    | done reply => exact traced_same h _ rfl
    | _ => exact traced_goes_on h hcall hfailed hnext (fun _ _ hopened => hopened) _

/-- The folder is called by a request that is admitted with it. -/
theorem handle_traced {acts : List RelayAct} {s : Relay C}
    (hs : run (Relay.step wire listing auth) Relay.empty acts = s)
    (h : Traced wire listing auth acts s) (id : Nat) :
    Traced wire listing auth (acts ++ [.handle id]) (s.step wire listing auth (.handle id)) := by
  unfold Relay.step
  dsimp only
  split
  · rename_i http hthread
    rcases hhandle : handle wire (auth s.tokens) http with r | request | _
    · exact traced_same h _ rfl
    · obtain ⟨hauth, hasks⟩ := handle_call hhandle
      have hadmitted : Admitted wire listing auth (acts ++ [.handle id]) id http :=
        ⟨acts, [], rfl, by rw [hs]; exact hthread, by rw [hs]; exact hauth⟩
      dsimp only
      refine ⟨fun id' call hcall => ?_, fun id' obj inode written hcall => ?_⟩
      · simp only [Relay.at_, folder.step] at hcall
        split at hcall
        · by_cases hid : id' = id
          · subst hid
            cases (at_self _ _ _).symm.trans hcall
            refine ⟨http, request, hadmitted, hasks, ?_⟩
            cases request <;> trivial
          · rw [at_other hid] at hcall
            obtain ⟨http', request', hadmitted', hrest⟩ := h.calls id' call hcall
            exact ⟨http', request', admitted_later hadmitted' _, hrest⟩
        · obtain ⟨http', request', hadmitted', hrest⟩ := h.calls id' call hcall
          exact ⟨http', request', admitted_later hadmitted' _, hrest⟩
      · simp only [Relay.at_, folder.step] at hcall ⊢
        split at hcall
        · rename_i hnone
          rw [if_pos hnone]
          by_cases hid : id' = id
          · subst hid
            have hcall' := (at_self _ _ _).symm.trans hcall
            cases request <;> cases hcall'
          · rw [at_other hid] at hcall
            exact h.opened id' obj inode written hcall
        · rename_i hsome
          rw [if_neg hsome]
          exact h.opened id' obj inode written hcall
    · exact traced_same h _ rfl
  · exact traced_same h _ rfl

theorem step_traced {acts : List RelayAct} {s : Relay C}
    (hs : run (Relay.step wire listing auth) Relay.empty acts = s)
    (h : Traced wire listing auth acts s) (a : RelayAct) :
    Traced wire listing auth (acts ++ [a]) (s.step wire listing auth a) := by
  cases a with
  | peers tokens => exact traced_same h _ rfl
  | arrive id http =>
    unfold Relay.step
    dsimp only
    split <;> exact traced_same h _ rfl
  | handle id => exact handle_traced hs h id
  | op id bytes order => exact op_traced h id bytes order
  | fail id => exact fail_traced h id
  | respond id =>
    unfold Relay.step
    dsimp only
    split <;> exact traced_same h _ rfl

theorem run_traced (acts : List RelayAct) :
    Traced wire listing auth acts (run (Relay.step wire listing auth) Relay.empty acts) := by
  induction acts using List.reverseRecOn with
  | nil => exact ⟨nofun, nofun⟩
  | append_singleton acts a ih =>
    rw [run_append]
    exact step_traced rfl ih a

/-- Only operations change what is in the folder. -/
theorem dir_same {s : Relay C} {a : RelayAct} (hno : ∀ id bytes order, a ≠ .op id bytes order) :
    (s.step wire listing auth a).folder.dir = s.folder.dir := by
  cases a with
  | peers tokens => rfl
  | arrive id http =>
    unfold Relay.step
    dsimp only
    split <;> rfl
  | handle id =>
    unfold Relay.step
    dsimp only
    split
    · split
      · rfl
      · rfl
      · simp only [Relay.at_, folder.step]
        split <;> rfl
    · rfl
  | op id bytes order => exact absurd rfl (hno id bytes order)
  | fail id =>
    unfold Relay.step folder.step
    dsimp only
    split <;> rfl
  | respond id =>
    unfold Relay.step
    dsimp only
    split <;> rfl

end Law

/-- The files that a request may change: both of its key, or that of the object. -/
def MayChange (wire : Wire C) (http : HttpRequest) (key : String) (name : Name) : Prop :=
  (http.method = "PUT" ∧ (name = temporary key ∨ name = path key) ∧
      http.body.length ≤ MAX_OBJ_BODY ∧ ∃ obj, wire.from_slice http.body = some obj ∧ obj.key = key) ∨
    (http.method = "DELETE" ∧ name = path key)

theorem asks_reaches {wire : Wire C} {http : HttpRequest} {request : Request C} {call : Call C}
    {name : Name} (hasks : Asks wire http request) (hof : CallOf request call)
    (hreaches : Reaches name call) :
    ∃ key, http.key = some key ∧ MayChange wire http key name := by
  have hput : ∀ obj : SyncObject C, request = .push obj →
      (name = temporary obj.key ∨ name = path obj.key) →
      ∃ key, http.key = some key ∧ MayChange wire http key name := by
    rintro obj rfl hname
    obtain ⟨hmethod, hkey, hobj, hsmall⟩ := hasks
    exact ⟨obj.key, hkey, .inl ⟨hmethod, hname, hsmall, obj, hobj, rfl⟩⟩
  cases call with
  | push obj => exact hput obj hof hreaches
  | writing obj inode written => exact hput obj hof hreaches
  | delete key =>
    obtain rfl : request = .delete key := hof
    exact ⟨key, hasks.2, .inr ⟨hasks.1, hreaches⟩⟩
  | _ => exact hreaches.elim

/-- A file of a relay reads otherwise behind an act only where the act is an operation for a PUT or
a DELETE that had a valid token when it was handled, and the file one of the key in its path. -/
theorem a_changed_file_had_a_token (wire : Wire C) (listing : Listing)
    (auth : List String → Option AuthCheck) (acts : List RelayAct) (a : RelayAct) (name : Name)
    (hchanged :
      (run (Relay.step wire listing auth) Relay.empty (acts ++ [a])).folder.dir.read name ≠
        (run (Relay.step wire listing auth) Relay.empty acts).folder.dir.read name) :
    ∃ id bytes order http key, a = .op id bytes order ∧ Admitted wire listing auth acts id http ∧
      http.key = some key ∧ MayChange wire http key name := by
  have htraced := @run_traced C wire listing auth acts
  rw [run_append, run_cons, run_nil] at hchanged
  generalize run (Relay.step wire listing auth) Relay.empty acts = s at hchanged htraced
  by_cases hop : ∃ id bytes order, a = .op id bytes order
  · obtain ⟨id, bytes, order, rfl⟩ := hop
    unfold Relay.step folder.step at hchanged
    dsimp only at hchanged
    rcases hcall : s.folder.calls id with _ | call
    · rw [hcall] at hchanged
      exact absurd rfl hchanged
    · rw [hcall] at hchanged
      obtain ⟨http, request, hadmitted, hasks, hof⟩ := htraced.calls id call hcall
      have hreaches := touches_reaches (operate_touches call)
        (fun obj inode written heq => htraced.opened id obj inode written (heq ▸ hcall)) hchanged
      obtain ⟨key, hkey, hmay⟩ := asks_reaches hasks hof hreaches
      exact ⟨id, bytes, order, http, key, rfl, hadmitted, hkey, hmay⟩
  · have hsame := @dir_same C wire listing auth s a
      (fun id bytes order heq => hop ⟨id, bytes, order, heq⟩)
    exact absurd (congrArg (Dir.read · name) hsame) hchanged

/-- The first operation of a push makes the temporary file of its key. -/
theorem a_push_makes_its_file :
    ∃ id bytes order http key, RelayAct.op 0 1000 [] = .op id bytes order ∧
      Admitted sample_wire sample_listing bind_dynamic
        [.peers ["5eed"], .arrive 0 pushed_request, .handle 0] id http ∧
      http.key = some key ∧ MayChange sample_wire http key (temporary "memory/1") := by
  refine a_changed_file_had_a_token sample_wire sample_listing bind_dynamic
    [.peers ["5eed"], .arrive 0 pushed_request, .handle 0] (.op 0 1000 []) (temporary "memory/1") ?_
  decide +kernel

end pai_sync.relay
