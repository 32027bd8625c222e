-- The folder transport, one file operation at a time: the calls that are under way, their files,
-- and what the pushes and deletes that took effect have left under each key.
import PersonalAi.Lib.Inodes
import PersonalAi.Lib.Runs
import PersonalAi.ObjectKeys
import PersonalAi.SyncRows

open pai_core text inodes pai_sync.keys

namespace pai_sync.folder

variable {C : Type}

/-! ## Files -/

/-- The two files of a key, under its encoded name: `.part` and `.syncobj`. -/
inductive Name
  | part (file : String)
  | object (file : String)
deriving DecidableEq

def path (key : String) : Name := .object (urlenc key)

/-- `with_extension("part")` of the path; an encoded name has no dot. -/
def temporary (key : String) : Name := .part (urlenc key)

/-- `serde_json` on an object in its `Wire`. -/
structure Wire (C : Type) where
  to_vec : SyncObject C → Bytes
  from_slice : Bytes → Option (SyncObject C)

def header_of (o : SyncObject C) : engine.SyncObjectMeta :=
  { key := o.key, version := o.version, writer := o.writer, updated_at := o.updated_at
    tombstone := o.tombstone }

/-! ## Calls -/

inductive Request (C : Type)
  | push (obj : SyncObject C)
  | pull (key : String)
  | list
  | delete (key : String)

/-- The text of an error is that of the system or of serde. -/
inductive Reply (C : Type)
  | pushed
  | pulled (obj : Option (SyncObject C))
  | listed (out : List engine.SyncObjectMeta)
  | deleted
  | error
deriving DecidableEq

/-- Where a call is: before its first operation, or with a file open and so many bytes written,
behind `exists`, in the middle of the entries, or at its end. -/
inductive Call (C : Type)
  | push (obj : SyncObject C)
  | writing (obj : SyncObject C) (inode written : Nat)
  | pull (key : String)
  | found (key : String)
  | list
  | reading (entries : List Name) (out : List engine.SyncObjectMeta)
  | delete (key : String)
  | done (reply : Reply C)
deriving DecidableEq

def Request.call : Request C → Call C
  | .push obj => .push obj
  | .pull key => .pull key
  | .list => .list
  | .delete key => .delete key

def Request.key : Request C → Option String
  | .push obj => some obj.key
  | .pull key | .delete key => some key
  | .list => none

/-- The folder and the calls, with three notes: what the pushes and deletes that took effect have
left, the objects of those pushes, and the keys of all calls. -/
structure State (C : Type) where
  dir : Dir Name
  calls : Nat → Option (Call C)
  store : String → Option (SyncObject C)
  completed : List (SyncObject C)
  keys : List String

def State.at_ (s : State C) (id : Nat) (c : Call C) : State C :=
  { s with calls := Function.update s.calls id (some c) }

/-- An empty folder and no calls. -/
def start : State C :=
  { dir := Dir.empty, calls := fun _ => none, store := fun _ => none, completed := [], keys := [] }

section Operations
variable (wire : Wire C)

/-- What an entry adds to the list: what it holds, if it is there and an object. -/
def reported (d : Dir Name) (entry : Name) : List engine.SyncObjectMeta :=
  (((d.read entry).bind wire.from_slice).map header_of).toList

/-- The next operation of a call. A write takes as many bytes as it likes, and a folder is listed in
any order. -/
def operate (s : State C) (id bytes : Nat) (order : List Name) : Call C → State C
  | .push obj =>
    let (inode, dir) := s.dir.create (temporary obj.key)
    { s with dir }.at_ id (.writing obj inode 0)
  | .writing obj inode written =>
    if written < (wire.to_vec obj).length then
      let chunk := ((wire.to_vec obj).drop written).take (bytes + 1)
      { s with dir := s.dir.write_at inode written chunk }.at_ id
        (.writing obj inode (written + chunk.length))
    else
      match s.dir.rename (temporary obj.key) (path obj.key) with
      | none => s.at_ id (.done .error)
      | some dir =>
        { s with
          dir, store := Function.update s.store obj.key (some obj)
          completed := obj :: s.completed }.at_ id (.done .pushed)
  | .pull key =>
    if s.dir.exists_ (path key) then s.at_ id (.found key) else s.at_ id (.done (.pulled none))
  | .found key =>
    match (s.dir.read (path key)).bind wire.from_slice with
    | none => s.at_ id (.done .error)
    | some obj => s.at_ id (.done (.pulled (some obj)))
  | .list => s.at_ id (.reading (if order.Perm s.dir.list then order else s.dir.list) [])
  | .reading [] out => s.at_ id (.done (.listed out))
  | .reading (entry :: entries) out =>
    s.at_ id (.reading entries (out ++ reported wire s.dir entry))
  | .delete key =>
    match s.dir.remove (path key) with
    | none => s.at_ id (.done .deleted)
    | some dir =>
      { s with dir, store := Function.update s.store key none }.at_ id (.done .deleted)
  | .done _ => s

/-- A new call, the next operation of one, an operation that fails, and the end of a process with
its calls. -/
inductive Act (C : Type)
  | begin_ (id : Nat) (request : Request C)
  | op (id bytes : Nat) (order : List Name)
  | fail (id : Nat)
  | crash (ids : List Nat)

def step (s : State C) : Act C → State C
  | .begin_ id request =>
    if (s.calls id).isNone then
      { s with keys := request.key.toList ++ s.keys }.at_ id request.call
    else s
  | .op id bytes order =>
    match s.calls id with
    | none => s
    | some call => operate wire s id bytes order call
  | .fail id =>
    match s.calls id with
    | none | some (.done _) => s
    | some _ => s.at_ id (.done .error)
  | .crash ids => { s with calls := fun id => if id ∈ ids then none else s.calls id }

/-- What `pull` would return if it ran now: an object or none, or an error, which is `none` here. -/
def pull_now (d : Dir Name) (key : String) : Option (Option (SyncObject C)) :=
  match d.read (path key) with
  | none => some none
  | some raw => (wire.from_slice raw).map some

/-! ## What is asked of a run -/

/-- The operation of a call. -/
def OfCall (P : State C → Nat → Nat → List Name → Call C → Prop) (s : State C) : Act C → Prop
  | .op id bytes order => ∀ call, s.calls id = some call → P s id bytes order call
  | _ => True

/-- What an operation does to a call is what the store says: a pull ends with the object of its key,
the one that a push puts there where it ends well; a listing takes all objects, and from the entry of
an object the list has its header, and from other entries nothing. -/
def Right (s : State C) (id bytes : Nat) (order : List Name) (call : Call C) : Prop :=
  let s' := operate wire s id bytes order call
  match call with
  | .pull key => s'.calls id = some (.found key) ∨ s'.calls id = some (.done (.pulled (s.store key)))
  | .found key => s'.calls id = some (.done (.pulled (s.store key)))
  | .writing obj _ _ => s'.calls id = some (.done .pushed) → s'.store obj.key = some obj
  | .delete key => s'.calls id = some (.done .deleted) ∧ s'.store key = none
  | .list => ∃ entries, s'.calls id = some (.reading entries []) ∧ entries.Nodup ∧
    ∀ file, .object file ∈ entries ↔ ∃ key ∈ s.keys, urlenc key = file ∧ s.store key ≠ none
  | .reading (.object file :: entries) out => ∃ key ∈ s.keys, urlenc key = file ∧
    s'.calls id = some (.reading entries (out ++ ((s.store key).map header_of).toList))
  | .reading (.part _ :: entries) out => s'.calls id = some (.reading entries out)
  | .reading [] out => s'.calls id = some (.done (.listed out))
  | .push _ | .done _ => True

/-- Behind each act a pull of any key would return what the pushes and deletes have left, which is
an object of the key that a push has written as a whole, and which only the end of a push or a delete
changes. -/
structure HoldsAt (s : State C) (a : Act C) : Prop where
  right : OfCall (Right wire) s a
  pulls : ∀ key ∈ (step wire s a).keys,
    pull_now wire (step wire s a).dir key = some ((step wire s a).store key)
  whole : ∀ key obj, (step wire s a).store key = some obj →
    obj.key = key ∧ obj ∈ (step wire s a).completed
  stays : ∀ key, (step wire s a).store key ≠ s.store key → ∃ id bytes order, a = .op id bytes order ∧
    ((∃ obj inode written, s.calls id = some (.writing obj inode written) ∧ obj.key = key ∧
        (step wire s a).calls id = some (.done .pushed) ∧ (step wire s a).store key = some obj) ∨
      (s.calls id = some (.delete key) ∧ (step wire s a).store key = none))

/-- No push opens the temporary file of another one that writes to it, no delete comes between the
two operations of a pull, no entry that is read is a temporary file with an object in it, and no two
keys have one file. -/
def Meets (s : State C) : Act C → Prop
  | .begin_ _ request => ∀ key ∈ request.key, ∀ other ∈ s.keys, urlenc other = urlenc key → other = key
  | .op id _ _ =>
    match s.calls id with
    | some (.push obj) => ∀ other obj' inode written,
      s.calls other = some (.writing obj' inode written) → urlenc obj'.key ≠ urlenc obj.key
    | some (.delete key) => ∀ other key', s.calls other = some (.found key') →
      urlenc key' ≠ urlenc key
    | some (.reading (.part file :: _) _) => (s.dir.read (.part file)).bind wire.from_slice = none
    | _ => True
  | .fail _ | .crash _ => True

/-- An object that is pushed comes back from its text. -/
def Back : Act C → Prop
  | .begin_ _ (.push obj) => wire.from_slice (wire.to_vec obj) = some obj
  | _ => True

end Operations

end pai_sync.folder
