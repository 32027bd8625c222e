-- What the folder transport keeps while its calls interleave: under each key the file that was
-- renamed there last, and per push a temporary file that nobody else writes to.
import PersonalAi.FolderCalls

open pai_core text inodes pai_sync.keys

namespace pai_sync.folder

variable {C : Type} {wire : Wire C} {s : State C}

/-! ## The invariant -/

/-- The files of the keys hold what the store has. -/
structure Files (wire : Wire C) (s : State C) : Prop where
  apart : ∀ k ∈ s.keys, ∀ k' ∈ s.keys, urlenc k = urlenc k' → k = k'
  stored : ∀ k ∈ s.keys, s.dir.read (path k) = (s.store k).map wire.to_vec
  own : ∀ k o, s.store k = some o → k ∈ s.keys ∧ o.key = k ∧ o ∈ s.completed
  back : ∀ k o, s.store k = some o → wire.from_slice (wire.to_vec o) = some o
  files : ∀ file, s.dir.read (.object file) ≠ none → ∃ k ∈ s.keys, urlenc k = file

/-- A push that writes has its temporary file for itself, and a pull that has found a file finds it
again. -/
def Sound (wire : Wire C) (s : State C) : Call C → Prop
  | .push o => o.key ∈ s.keys ∧ wire.from_slice (wire.to_vec o) = some o
  | .writing o inode written => o.key ∈ s.keys ∧ wire.from_slice (wire.to_vec o) = some o ∧
    s.dir.names.lookup (temporary o.key) = some inode ∧ written ≤ (wire.to_vec o).length ∧
    s.dir.bytes inode = (wire.to_vec o).take written
  | .pull k => k ∈ s.keys
  | .found k => k ∈ s.keys ∧ s.store k ≠ none
  | .delete k => k ∈ s.keys
  | .reading entries _ => ∀ file, .object file ∈ entries → ∃ k ∈ s.keys, urlenc k = file
  | .list | .done _ => True

/-- No two pushes write to one file. -/
def Alone (calls : Nat → Option (Call C)) : Prop :=
  ∀ id id' o o' i i' n n', calls id = some (.writing o i n) → calls id' = some (.writing o' i' n') →
    urlenc o.key = urlenc o'.key → id = id'

structure Inv (wire : Wire C) (s : State C) : Prop where
  files : Files wire s
  sound : ∀ id call, s.calls id = some call → Sound wire s call
  alone : Alone s.calls

/-! ## Names -/

theorem temporary_ne_path (k k' : String) : temporary k ≠ path k' := by
  intro h
  cases h

theorem temporary_inj {k k' : String} (h : temporary k = temporary k') : urlenc k = urlenc k' :=
  Name.part.inj h

theorem Files.exists_path (h : Files wire s) {k : String} (hk : k ∈ s.keys) :
    s.dir.exists_ (path k) = (s.store k).isSome := by
  rw [Dir.exists_iff, h.stored k hk, Option.isSome_map]

/-- What a pull would return is what the store has. -/
theorem Files.pull_now (h : Files wire s) {k : String} (hk : k ∈ s.keys) :
    pull_now wire s.dir k = some (s.store k) := by
  unfold folder.pull_now
  rw [h.stored k hk]
  rcases hstore : s.store k with _ | o
  · rfl
  · exact congrArg (Option.map some) (h.back k o hstore)

/-! ## A call that goes on -/

theorem files_at {id : Nat} {call : Call C} (h : Files wire s) : Files wire (s.at_ id call) :=
  ⟨h.apart, h.stored, h.own, h.back, h.files⟩

/-- Only temporary files change. -/
theorem files_same (h : Files wire s) {dir : Dir Name}
    (hread : ∀ file, dir.read (.object file) = s.dir.read (.object file)) :
    Files wire { s with dir } where
  apart := h.apart
  stored k hk := (hread _).trans (h.stored k hk)
  own := h.own
  back := h.back
  files file hfile := h.files file (fun hnone => hfile ((hread file).trans hnone))

/-- The file of one key changes, and with it what the store has there. -/
theorem files_update (h : Files wire s) {key : String} {value : Option (SyncObject C)} {dir : Dir Name}
    {completed : List (SyncObject C)} (hkey : key ∈ s.keys)
    (hread : ∀ file, dir.read (.object file) =
      if file = urlenc key then value.map wire.to_vec else s.dir.read (.object file))
    (hvalue : ∀ o, value = some o →
      o.key = key ∧ o ∈ completed ∧ wire.from_slice (wire.to_vec o) = some o)
    (hmore : ∀ o ∈ s.completed, o ∈ completed) :
    Files wire { s with dir, store := Function.update s.store key value, completed } := by
  have hstore : ∀ k o, Function.update s.store key value k = some o →
      k = key ∧ value = some o ∨ s.store k = some o := by
    intro k o hsome
    rw [Function.update_apply] at hsome
    split at hsome
    · exact .inl ⟨‹_›, hsome⟩
    · exact .inr hsome
  refine ⟨h.apart, fun k hk => ?_, fun k o hsome => ?_, fun k o hsome => ?_, fun file hfile => ?_⟩
  · change dir.read (.object (urlenc k)) = (Function.update s.store key value k).map wire.to_vec
    rw [hread, Function.update_apply]
    by_cases hk' : k = key
    · rw [if_pos hk', if_pos (by rw [hk'])]
    · rw [if_neg hk', if_neg (fun heq => hk' (h.apart k hk key hkey heq))]
      exact h.stored k hk
  · rcases hstore k o hsome with ⟨rfl, hnew⟩ | hold
    · exact ⟨hkey, (hvalue o hnew).1, (hvalue o hnew).2.1⟩
    · obtain ⟨hin, hown, hcompleted⟩ := h.own k o hold
      exact ⟨hin, hown, hmore o hcompleted⟩
  · rcases hstore k o hsome with ⟨-, hnew⟩ | hold
    · exact (hvalue o hnew).2.2
    · exact h.back k o hold
  · by_cases hname : file = urlenc key
    · exact ⟨key, hkey, hname.symm⟩
    · refine h.files file (fun hnone => hfile ?_)
      exact (hread file).trans ((if_neg hname).trans hnone)

/-- The others keep what they had, and the call has what it needs. -/
theorem inv_at {s' : State C} {id : Nat} {call : Call C} (hinv : Inv wire s)
    (hcalls : s'.calls = s.calls) (hfiles : Files wire s')
    (hothers : ∀ id' call', id' ≠ id → s.calls id' = some call' → Sound wire s' call')
    (hsound : Sound wire s' call)
    (halone : ∀ o i n, call = .writing o i n → ∀ id' o' i' n', id' ≠ id →
      s.calls id' = some (.writing o' i' n') → urlenc o'.key ≠ urlenc o.key) :
    Inv wire (s'.at_ id call) := by
  have hself : (s'.at_ id call).calls id = some call := Function.update_self ..
  have hother : ∀ id', id' ≠ id → (s'.at_ id call).calls id' = s.calls id' := by
    intro id' hne
    rw [← hcalls]
    exact Function.update_of_ne hne ..
  refine ⟨files_at hfiles, fun id' call' hcall' => ?_, ?_⟩
  · by_cases hid : id' = id
    · rw [hid, hself] at hcall'
      exact Option.some.inj hcall' ▸ hsound
    · rw [hother id' hid] at hcall'
      exact hothers id' call' hid hcall'
  · intro a b o o' i i' n n' ha hb hsame
    by_cases haid : a = id
    · by_cases hbid : b = id
      · exact haid.trans hbid.symm
      · rw [haid, hself] at ha
        rw [hother b hbid] at hb
        exact absurd hsame.symm (halone o i n (Option.some.inj ha) b o' i' n' hbid hb)
    · rw [hother a haid] at ha
      by_cases hbid : b = id
      · rw [hbid, hself] at hb
        exact absurd hsame (halone o' i' n' (Option.some.inj hb) a o i n haid ha)
      · rw [hother b hbid] at hb
        exact hinv.alone a b o o' i i' n n' ha hb hsame

/-- What a call has, it keeps: the keys, the temporary file of a push, and the object that a pull has
found. -/
theorem sound_frame {s' : State C} {call : Call C} (h : Sound wire s call)
    (hkeys : ∀ k ∈ s.keys, k ∈ s'.keys)
    (hwriting : ∀ o i n, call = .writing o i n → s.dir.names.lookup (temporary o.key) = some i →
      s'.dir.names.lookup (temporary o.key) = some i ∧ s'.dir.bytes i = s.dir.bytes i)
    (hfound : ∀ k, call = .found k → s.store k ≠ none → s'.store k ≠ none) : Sound wire s' call := by
  cases call with
  | writing o i n =>
    obtain ⟨hkey, hback, hlookup, hle, hbytes⟩ := h
    obtain ⟨hlookup', hbytes'⟩ := hwriting o i n rfl hlookup
    exact ⟨hkeys _ hkey, hback, hlookup', hle, hbytes'.trans hbytes⟩
  | found k => exact ⟨hkeys k h.1, hfound k rfl h.2⟩
  | push o => exact ⟨hkeys _ h.1, h.2⟩
  | pull k => exact hkeys k h
  | delete k => exact hkeys k h
  | list => trivial
  | reading entries out =>
    intro file hfile
    obtain ⟨k, hk, hfile'⟩ := h file hfile
    exact ⟨k, hkeys k hk, hfile'⟩
  | done reply => trivial

/-- A call that writes nothing goes on, and nothing else changes. -/
theorem inv_goes_on {id : Nat} {call : Call C} (h : Inv wire s) (hsound : Sound wire s call)
    (hcall : ∀ o i n, call ≠ .writing o i n) : Inv wire (s.at_ id call) :=
  inv_at h rfl h.files (fun id' call' _ => h.sound id' call') hsound
    (fun o i n heq => absurd heq (hcall o i n))

theorem at_self (s : State C) (id : Nat) (call : Call C) : (s.at_ id call).calls id = some call :=
  Function.update_self ..

/-! ## Pushes -/

section Push
variable {id bytes : Nat} {order : List Name} {obj : SyncObject C} {inode written : Nat}

theorem push_step (h : Inv wire s) (hcall : s.calls id = some (.push obj))
    (hmeets : ∀ other obj' inode written, s.calls other = some (.writing obj' inode written) →
      urlenc obj'.key ≠ urlenc obj.key) :
    Inv wire (operate wire s id bytes order (.push obj)) := by
  have hpush : Sound wire s (.push obj) := h.sound id _ hcall
  have hread : ∀ file, (s.dir.create (temporary obj.key)).2.read (.object file) =
      s.dir.read (.object file) := fun file => Dir.read_create (fun heq => by cases heq)
  refine inv_at h rfl (files_same h.files hread) (fun id' call' _ hcall' => ?_)
    ⟨hpush.1, hpush.2, Dir.create_inode, Nat.zero_le _, ?_⟩ ?_
  · refine sound_frame (h.sound id' call' hcall') (fun _ hk => hk) (fun o i n heq hlookup => ?_)
      (fun _ _ hsome => hsome)
    have hne : temporary o.key ≠ temporary obj.key :=
      fun hname => hmeets id' o i n (heq ▸ hcall') (temporary_inj hname)
    exact ⟨(Dir.create_names hne).trans hlookup, Dir.create_other hne hlookup⟩
  · exact Dir.create_bytes
  · intro o i n heq id' o' i' n' _ hcall'
    cases heq
    exact hmeets id' o' i' n' hcall'

/-- The other pushes that write have other files. -/
theorem other_temporary (h : Inv wire s) (hcall : s.calls id = some (.writing obj inode written))
    {id' : Nat} {o : SyncObject C} {i n : Nat} (hne : id' ≠ id)
    (hcall' : s.calls id' = some (.writing o i n)) : urlenc o.key ≠ urlenc obj.key :=
  fun heq => hne (h.alone id' id o obj i inode n written hcall' hcall heq)

/-- A push that writes takes the next bytes, and behind the last ones it renames. -/
theorem operate_chunk (hmore : written < (wire.to_vec obj).length) :
    operate wire s id bytes order (.writing obj inode written) =
      let chunk := ((wire.to_vec obj).drop written).take (bytes + 1)
      { s with dir := s.dir.write_at inode written chunk }.at_ id
        (.writing obj inode (written + chunk.length)) :=
  if_pos hmore

theorem operate_renamed {dir : Dir Name} (hall : ¬ written < (wire.to_vec obj).length)
    (hrename : s.dir.rename (temporary obj.key) (path obj.key) = some dir) :
    operate wire s id bytes order (.writing obj inode written) =
      { s with
        dir, store := Function.update s.store obj.key (some obj)
        completed := obj :: s.completed }.at_ id (.done .pushed) := by
  refine (if_neg hall).trans ?_
  rw [hrename]

theorem operate_unrenamed (hall : ¬ written < (wire.to_vec obj).length)
    (hrename : s.dir.rename (temporary obj.key) (path obj.key) = none) :
    operate wire s id bytes order (.writing obj inode written) = s.at_ id (.done .error) := by
  refine (if_neg hall).trans ?_
  rw [hrename]

theorem write_step (h : Inv wire s) (hcall : s.calls id = some (.writing obj inode written))
    (hmore : written < (wire.to_vec obj).length) :
    Inv wire (operate wire s id bytes order (.writing obj inode written)) := by
  obtain ⟨hkey, hback, hlookup, hle, hbytes⟩ := h.sound id _ hcall
  rw [operate_chunk hmore]
  generalize hchunk : ((wire.to_vec obj).drop written).take (bytes + 1) = chunk
  have hread : ∀ file, (s.dir.write_at inode written chunk).read (.object file) =
      s.dir.read (.object file) := fun file => Dir.read_write_at hlookup (fun heq => by cases heq)
  have hlen : chunk.length = min (bytes + 1) ((wire.to_vec obj).length - written) := by
    rw [← hchunk, List.length_take, List.length_drop]
  have htaken : (wire.to_vec obj).take written ++ chunk =
      (wire.to_vec obj).take (written + chunk.length) := by
    have hall : ((wire.to_vec obj).drop written).take chunk.length = chunk := by
      rw [hlen, ← hchunk, ← List.length_drop, ← List.take_eq_take_min]
    rw [List.take_add, hall]
  refine inv_at h rfl (files_same h.files hread) (fun id' call' hne hcall' => ?_)
    ⟨hkey, hback, hlookup, ?_, ?_⟩ ?_
  · refine sound_frame (h.sound id' call' hcall') (fun _ hk => hk) (fun o i n heq hlookup' => ?_)
      (fun _ _ hsome => hsome)
    have hother : i ≠ inode := fun hsame => other_temporary h hcall hne (heq ▸ hcall')
      (temporary_inj (s.dir.apart _ _ inode (hsame ▸ hlookup') hlookup))
    exact ⟨hlookup', Dir.write_at_other hother⟩
  · omega
  · refine Dir.write_at_bytes.trans ?_
    have hwritten : ((wire.to_vec obj).take written).length = written := by
      rw [List.length_take]
      omega
    have hend := Dir.splice_end ((wire.to_vec obj).take written) chunk
    rw [hwritten] at hend
    rw [hbytes, ← htaken]
    exact hend
  · intro o i n heq id' o' i' n' hne hcall'
    cases heq
    exact other_temporary h hcall hne hcall'

/-- The end of a push: the temporary file holds the object. -/
theorem rename_spec (h : Inv wire s) (hcall : s.calls id = some (.writing obj inode written))
    (hall : ¬ written < (wire.to_vec obj).length) :
    ∃ dir, s.dir.rename (temporary obj.key) (path obj.key) = some dir ∧
      operate wire s id bytes order (.writing obj inode written) =
        { s with
          dir, store := Function.update s.store obj.key (some obj)
          completed := obj :: s.completed }.at_ id (.done .pushed) ∧
      dir.read (path obj.key) = some (wire.to_vec obj) := by
  obtain ⟨hkey, hback, hlookup, hle, hbytes⟩ := h.sound id _ hcall
  have hread : s.dir.read (temporary obj.key) = some (wire.to_vec obj) := by
    have hwhole : written = (wire.to_vec obj).length := by omega
    unfold Dir.read
    rw [hlookup, Option.map_some, hbytes, hwhole, List.take_length]
  rcases hrename : s.dir.rename (temporary obj.key) (path obj.key) with _ | dir
  · rw [Dir.rename_eq_none.mp hrename] at hread
    cases hread
  · refine ⟨dir, rfl, operate_renamed hall hrename, ?_⟩
    rw [Dir.read_rename hrename (temporary_ne_path _ _), if_pos rfl, hread]

theorem rename_step (h : Inv wire s) (hcall : s.calls id = some (.writing obj inode written))
    (hall : ¬ written < (wire.to_vec obj).length) :
    Inv wire (operate wire s id bytes order (.writing obj inode written)) := by
  obtain ⟨dir, hrename, hstep, hwhole⟩ := @rename_spec C wire s id bytes order obj inode written h
    hcall hall
  obtain ⟨hkey, hback, -, -, -⟩ := h.sound id _ hcall
  have hnames := Dir.rename_names hrename (temporary_ne_path _ _)
  have hread : ∀ file, dir.read (.object file) =
      if file = urlenc obj.key then (some obj).map wire.to_vec else s.dir.read (.object file) := by
    intro file
    by_cases hname : file = urlenc obj.key
    · rw [if_pos hname, hname]
      exact hwhole
    · have hpath : Name.object file ≠ path obj.key := fun heq => hname (Name.object.inj heq)
      have htemporary : Name.object file ≠ temporary obj.key := fun heq => by cases heq
      rw [if_neg hname, Dir.read_rename hrename (temporary_ne_path _ _), if_neg hpath,
        if_neg htemporary]
  have hfiles := files_update h.files hkey hread
    (fun o ho => Option.some.inj ho ▸ ⟨rfl, List.mem_cons_self, hback⟩)
    (fun o ho => List.mem_cons_of_mem obj ho)
  rw [hstep]
  refine inv_at h rfl hfiles (fun id' call' hne hcall' => ?_) trivial (fun o i n heq => by cases heq)
  · refine sound_frame (h.sound id' call' hcall') (fun _ hk => hk) (fun o i n heq hlookup' => ?_)
      (fun k _ hsome => ?_)
    · have hne' : temporary o.key ≠ temporary obj.key :=
        fun hname => other_temporary h hcall hne (heq ▸ hcall') (temporary_inj hname)
      refine ⟨?_, congrFun hnames.2 i⟩
      exact (hnames.1 _).trans
        ((if_neg (temporary_ne_path _ _)).trans ((if_neg hne').trans hlookup'))
    · change Function.update s.store obj.key (some obj) k ≠ none
      rw [Function.update_apply]
      split
      · exact Option.some_ne_none _
      · exact hsome

end Push

/-! ## Pulls, lists and deletes -/

section Others
variable {id bytes : Nat} {order : List Name} {key : String}

theorem pull_step (h : Inv wire s) (hcall : s.calls id = some (.pull key)) :
    Inv wire (operate wire s id bytes order (.pull key)) ∧
      Right wire s id bytes order (.pull key) := by
  have hkey : key ∈ s.keys := h.sound id _ hcall
  have hexists := h.files.exists_path hkey
  have hstep : operate wire s id bytes order (.pull key) =
      if s.dir.exists_ (path key) then s.at_ id (.found key)
      else s.at_ id (.done (.pulled none)) := rfl
  unfold Right
  dsimp only
  rw [hstep, hexists]
  rcases hstore : s.store key with _ | o
  · exact ⟨inv_goes_on h trivial (by simp), .inr (at_self ..)⟩
  · refine ⟨inv_goes_on h ⟨hkey, ?_⟩ (by simp), .inl (at_self ..)⟩
    rw [hstore]
    exact Option.some_ne_none o

theorem found_step (h : Inv wire s) (hcall : s.calls id = some (.found key)) :
    Inv wire (operate wire s id bytes order (.found key)) ∧
      Right wire s id bytes order (.found key) := by
  obtain ⟨hkey, hsome⟩ : key ∈ s.keys ∧ s.store key ≠ none := h.sound id _ hcall
  obtain ⟨o, hstore⟩ := Option.ne_none_iff_exists'.mp hsome
  have hread : (s.dir.read (path key)).bind wire.from_slice = some o := by
    rw [h.files.stored key hkey, hstore]
    exact h.files.back key o hstore
  have hstep : operate wire s id bytes order (.found key) =
      s.at_ id (.done (.pulled (some o))) := by
    unfold operate
    dsimp only
    rw [hread]
  unfold Right
  dsimp only
  rw [hstep, hstore]
  exact ⟨inv_goes_on h trivial (by simp), at_self ..⟩

/-- The entries are those of the folder, in the order of the act or in another one. -/
theorem entries_perm (d : Dir Name) (order : List Name) :
    (if order.Perm d.list then order else d.list).Perm d.list := by
  split
  · assumption
  · exact List.Perm.refl _

theorem list_step (h : Inv wire s) :
    Inv wire (operate wire s id bytes order .list) ∧ Right wire s id bytes order .list := by
  have hperm := entries_perm s.dir order
  generalize hentries : (if order.Perm s.dir.list then order else s.dir.list) = entries at hperm
  have hstep : operate wire s id bytes order .list = s.at_ id (.reading entries []) := by
    rw [← hentries]
    rfl
  have hobjects : ∀ file, .object file ∈ entries ↔
      ∃ k ∈ s.keys, urlenc k = file ∧ s.store k ≠ none := by
    intro file
    rw [hperm.mem_iff, Dir.mem_list, Dir.exists_iff]
    constructor
    · intro hsome
      obtain ⟨k, hk, rfl⟩ := h.files.files file (Option.isSome_iff_ne_none.mp hsome)
      refine ⟨k, hk, rfl, ?_⟩
      rw [show Name.object (urlenc k) = path k from rfl, h.files.stored k hk,
        Option.isSome_map] at hsome
      exact Option.isSome_iff_ne_none.mp hsome
    · rintro ⟨k, hk, rfl, hstore⟩
      rw [show Name.object (urlenc k) = path k from rfl, h.files.stored k hk, Option.isSome_map]
      exact Option.isSome_iff_ne_none.mpr hstore
  unfold Right
  dsimp only
  rw [hstep]
  refine ⟨inv_goes_on h (fun file hfile => ?_) (by simp), entries, at_self ..,
    hperm.nodup_iff.mpr s.dir.names.keys_nodup, hobjects⟩
  obtain ⟨k, hk, hfile', -⟩ := (hobjects file).mp hfile
  exact ⟨k, hk, hfile'⟩

theorem reading_step {entries : List Name} {out : List engine.SyncObjectMeta} (h : Inv wire s)
    (hcall : s.calls id = some (.reading entries out))
    (hmeets : ∀ file rest, entries = .part file :: rest →
      (s.dir.read (.part file)).bind wire.from_slice = none) :
    Inv wire (operate wire s id bytes order (.reading entries out)) ∧
      Right wire s id bytes order (.reading entries out) := by
  have hentries : ∀ file, .object file ∈ entries → ∃ k ∈ s.keys, urlenc k = file :=
    h.sound id _ hcall
  rcases entries with _ | ⟨entry, rest⟩
  · exact ⟨inv_goes_on h trivial (by simp), at_self ..⟩
  · have hinv : Inv wire (operate wire s id bytes order (.reading (entry :: rest) out)) :=
      inv_goes_on h (fun file hfile => hentries file (List.mem_cons_of_mem _ hfile)) (by simp)
    refine ⟨hinv, ?_⟩
    cases entry with
    | object file =>
      obtain ⟨k, hk, rfl⟩ := hentries file List.mem_cons_self
      have hreported : reported wire s.dir (.object (urlenc k)) =
          ((s.store k).map header_of).toList := by
        unfold reported
        rw [show Name.object (urlenc k) = path k from rfl, h.files.stored k hk]
        rcases hstore : s.store k with _ | o
        · rfl
        · rw [Option.map_some, Option.bind_some, h.files.back k o hstore]
      refine ⟨k, hk, rfl, ?_⟩
      rw [← hreported]
      exact at_self ..
    | part file =>
      have hreported : reported wire s.dir (.part file) = [] := by
        unfold reported
        rw [hmeets file rest rfl]
        rfl
      have hself := at_self s id (.reading rest (out ++ reported wire s.dir (.part file)))
      rw [hreported, List.append_nil] at hself
      unfold Right
      dsimp only
      change (s.at_ id (.reading rest (out ++ reported wire s.dir (.part file)))).calls id = _
      rw [hreported, List.append_nil]
      exact hself

theorem delete_step (h : Inv wire s) (hcall : s.calls id = some (.delete key))
    (hmeets : ∀ other key', s.calls other = some (.found key') → urlenc key' ≠ urlenc key) :
    Inv wire (operate wire s id bytes order (.delete key)) ∧
      Right wire s id bytes order (.delete key) := by
  have hkey : key ∈ s.keys := h.sound id _ hcall
  unfold Right
  dsimp only
  rcases hremove : s.dir.remove (path key) with _ | dir
  · have hstep : operate wire s id bytes order (.delete key) = s.at_ id (.done .deleted) := by
      unfold operate
      dsimp only
      rw [hremove]
    have hstored := h.files.stored key hkey
    rw [Dir.remove_eq_none.mp hremove] at hstored
    rw [hstep]
    exact ⟨inv_goes_on h trivial (by simp), at_self .., Option.map_eq_none_iff.mp hstored.symm⟩
  · have hstep : operate wire s id bytes order (.delete key) =
        { s with dir, store := Function.update s.store key none }.at_ id (.done .deleted) := by
      unfold operate
      dsimp only
      rw [hremove]
    have hread : ∀ file, dir.read (.object file) =
        if file = urlenc key then (none : Option (SyncObject C)).map wire.to_vec
        else s.dir.read (.object file) := by
      intro file
      rw [Dir.read_remove hremove]
      exact if_congr (by unfold path; simp) rfl rfl
    have hfiles := files_update h.files hkey hread (fun o ho => by cases ho) (fun _ ho => ho)
    have hnames := Dir.remove_names hremove
    rw [hstep]
    refine ⟨inv_at h rfl hfiles (fun id' call' _ hcall' => ?_) trivial (fun o i n heq => by cases heq),
      at_self .., Function.update_self ..⟩
    · refine sound_frame (h.sound id' call' hcall') (fun _ hk => hk) (fun o i n _ hlookup' => ?_)
        (fun k heq hsome => ?_)
      · refine ⟨?_, congrFun hnames.2 i⟩
        exact (hnames.1 _).trans ((if_neg (temporary_ne_path _ _)).trans hlookup')
      · have hne : k ≠ key := fun hsame => hmeets id' k (heq ▸ hcall') (congrArg urlenc hsame)
        change Function.update s.store key none k ≠ none
        rw [Function.update_of_ne hne]
        exact hsome

end Others

/-! ## The law -/

section Law
variable {id bytes : Nat} {order : List Name} {call : Call C}

theorem operate_step (h : Inv wire s) (hcall : s.calls id = some call)
    (hmeets : Meets wire s (.op id bytes order)) :
    Inv wire (operate wire s id bytes order call) ∧ Right wire s id bytes order call := by
  unfold Meets at hmeets
  dsimp only at hmeets
  rw [hcall] at hmeets
  cases call with
  | push obj => exact ⟨push_step h hcall hmeets, trivial⟩
  | writing obj inode written =>
    by_cases hmore : written < (wire.to_vec obj).length
    · refine ⟨write_step h hcall hmore, fun hpushed => ?_⟩
      rw [operate_chunk hmore] at hpushed
      cases (at_self ..).symm.trans hpushed
    · refine ⟨rename_step h hcall hmore, fun _ => ?_⟩
      obtain ⟨dir, -, hstep, -⟩ := @rename_spec C wire s id bytes order obj inode written h hcall hmore
      rw [hstep]
      exact Function.update_self ..
  | pull key => exact pull_step h hcall
  | found key => exact found_step h hcall
  | list => exact list_step h
  | reading entries out =>
    refine reading_step h hcall fun file rest heq => ?_
    subst heq
    exact hmeets
  | delete key => exact delete_step h hcall hmeets
  | done reply => exact ⟨h, trivial⟩

/-- Only the end of a push and that of a delete change the store. -/
theorem operate_stays {key : String}
    (h : (operate wire s id bytes order call).store key ≠ s.store key) :
    (∃ obj inode written, call = .writing obj inode written ∧ obj.key = key ∧
        (operate wire s id bytes order call).calls id = some (.done .pushed) ∧
        (operate wire s id bytes order call).store key = some obj) ∨
      (call = .delete key ∧ (operate wire s id bytes order call).store key = none) := by
  cases call with
  | push obj => exact absurd rfl h
  | writing obj inode written =>
    by_cases hmore : written < (wire.to_vec obj).length
    · rw [operate_chunk hmore] at h
      exact absurd rfl h
    · rcases hrename : s.dir.rename (temporary obj.key) (path obj.key) with _ | dir
      · rw [operate_unrenamed hmore hrename] at h
        exact absurd rfl h
      · rw [operate_renamed hmore hrename] at h ⊢
        by_cases hkey : obj.key = key
        · refine .inl ⟨obj, inode, written, rfl, hkey, at_self .., ?_⟩
          rw [← hkey]
          exact Function.update_self ..
        · exact absurd (Function.update_of_ne (fun heq => hkey heq.symm) ..) h
  | pull key' =>
    unfold operate at h
    dsimp only at h
    split at h <;> exact absurd rfl h
  | found key' =>
    unfold operate at h
    dsimp only at h
    split at h <;> exact absurd rfl h
  | list => exact absurd rfl h
  | reading entries out =>
    cases entries with
    | nil => exact absurd rfl h
    | cons entry rest => exact absurd rfl h
  | delete key' =>
    unfold operate at h ⊢
    dsimp only at h ⊢
    rcases hremove : s.dir.remove (path key') with _ | dir
    · rw [hremove] at h
      exact absurd rfl h
    · rw [hremove] at h
      by_cases hkey : key = key'
      · subst hkey
        exact .inr ⟨rfl, Function.update_self ..⟩
      · exact absurd (Function.update_of_ne hkey ..) h
  | done reply => exact absurd rfl h

/-- A new call may bring a new key, under which nothing is stored. -/
theorem begin_step {request : Request C} (h : Inv wire s)
    (hmeets : Meets wire s (.begin_ id request)) (hback : Back wire (.begin_ id request)) :
    Inv wire (step wire s (.begin_ id request)) := by
  unfold step
  dsimp only
  split
  · have hin : ∀ k ∈ request.key, k ∈ request.key.toList ++ s.keys :=
      fun k hk => List.mem_append_left _ (Option.mem_toList.mpr hk)
    have hmore : ∀ k ∈ s.keys, k ∈ request.key.toList ++ s.keys :=
      fun k hk => List.mem_append_right _ hk
    have hnew : ∀ k ∈ request.key.toList ++ s.keys, k ∈ request.key ∨ k ∈ s.keys := by
      intro k hk
      exact (List.mem_append.mp hk).imp_left Option.mem_toList.mp
    refine inv_at h rfl ⟨fun k hk k' hk' heq => ?_, fun k hk => ?_, fun k o hstore => ?_, h.files.back,
      fun file hfile => ?_⟩ (fun id' call' _ hcall' => ?_) ?_ ?_
    · rcases hnew k hk with hk | hk
      · rcases hnew k' hk' with hk' | hk'
        · exact Option.mem_unique hk hk'
        · exact (hmeets k hk k' hk' heq.symm).symm
      · rcases hnew k' hk' with hk' | hk'
        · exact hmeets k' hk' k hk heq
        · exact h.files.apart k hk k' hk' heq
    · by_cases hold : k ∈ s.keys
      · exact h.files.stored k hold
      · have hkey : k ∈ request.key := (hnew k hk).resolve_right hold
        have hnone : s.dir.read (path k) = none := by
          by_contra hsome
          obtain ⟨k', hk', heq⟩ := h.files.files _ hsome
          exact hold (hmeets k hkey k' hk' heq ▸ hk')
        have hstore : s.store k = none := by
          by_contra hsome
          obtain ⟨o, ho⟩ := Option.ne_none_iff_exists'.mp hsome
          exact hold (h.files.own k o ho).1
        change s.dir.read (path k) = (s.store k).map wire.to_vec
        rw [hnone, hstore]
        rfl
    · obtain ⟨hk, hown⟩ := h.files.own k o hstore
      exact ⟨hmore k hk, hown⟩
    · obtain ⟨k, hk, heq⟩ := h.files.files file hfile
      exact ⟨k, hmore k hk, heq⟩
    · exact sound_frame (h.sound id' call' hcall') hmore (fun _ _ _ _ hlookup => ⟨hlookup, rfl⟩)
        (fun _ _ hsome => hsome)
    · cases request with
      | push obj => exact ⟨hin _ rfl, hback⟩
      | pull key => exact hin key rfl
      | list => trivial
      | delete key => exact hin key rfl
    · intro o i n heq
      cases request <;> cases heq
  · exact h

theorem crash_step (h : Inv wire s) (ids : List Nat) : Inv wire (step wire s (.crash ids)) := by
  have hcalls : ∀ id call, (step wire s (.crash ids)).calls id = some call → s.calls id = some call := by
    intro id call hcall
    change (if id ∈ ids then none else s.calls id) = some call at hcall
    split at hcall
    · cases hcall
    · exact hcall
  refine ⟨⟨h.files.apart, h.files.stored, h.files.own, h.files.back, h.files.files⟩,
    fun id call hcall => ?_, fun id id' o o' i i' n n' ha hb => ?_⟩
  · exact sound_frame (h.sound id call (hcalls id call hcall)) (fun _ hk => hk)
      (fun _ _ _ _ hlookup => ⟨hlookup, rfl⟩) (fun _ _ hsome => hsome)
  · exact h.alone id id' o o' i i' n n' (hcalls _ _ ha) (hcalls _ _ hb)

theorem fail_step (h : Inv wire s) (id : Nat) : Inv wire (step wire s (.fail id)) := by
  unfold step
  dsimp only
  split
  · exact h
  · exact h
  · exact inv_goes_on h trivial (by simp)

theorem inv_step (h : Inv wire s) (a : Act C) (hmeets : Meets wire s a) (hback : Back wire a) :
    Inv wire (step wire s a) := by
  cases a with
  | begin_ id request => exact begin_step h hmeets hback
  | op id bytes order =>
    unfold step
    dsimp only
    split
    · exact h
    · rename_i call hcall
      exact (operate_step h hcall hmeets).1
  | fail id => exact fail_step h id
  | crash ids => exact crash_step h ids

theorem holds_step (h : Inv wire s) (a : Act C) (hmeets : Meets wire s a) (hback : Back wire a) :
    HoldsAt wire s a where
  right := by
    cases a with
    | op id bytes order => exact fun call hcall => (operate_step h hcall hmeets).2
    | begin_ id request => trivial
    | fail id => trivial
    | crash ids => trivial
  pulls key hkey := (inv_step h a hmeets hback).files.pull_now hkey
  whole key obj hstore := ((inv_step h a hmeets hback).files.own key obj hstore).2
  stays key hne := by
    cases a with
    | op id bytes order =>
      unfold step at hne ⊢
      dsimp only at hne ⊢
      rcases hcall : s.calls id with _ | call
      · rw [hcall] at hne
        exact absurd rfl hne
      · rw [hcall] at hne
        refine ⟨id, bytes, order, rfl, ?_⟩
        rw [hcall]
        rcases operate_stays hne with ⟨obj, inode, written, rfl, hrest⟩ | ⟨rfl, hnone⟩
        · exact .inl ⟨obj, inode, written, rfl, hrest⟩
        · exact .inr ⟨rfl, hnone⟩
    | begin_ id request =>
      unfold step at hne
      dsimp only at hne
      split at hne <;> exact absurd rfl hne
    | fail id =>
      unfold step at hne
      dsimp only at hne
      split at hne <;> exact absurd rfl hne
    | crash ids => exact absurd rfl hne

theorem start_inv : Inv wire (start : State C) where
  files :=
    { apart := fun k hk => absurd hk List.not_mem_nil
      stored := fun k hk => absurd hk List.not_mem_nil
      own := fun k o hstore => by cases hstore
      back := fun k o hstore => by cases hstore
      files := fun file hfile => absurd rfl hfile }
  sound id call hcall := by cases hcall
  alone id id' o o' i i' n n' ha := by cases ha

end Law

/-- In every run of calls on a folder whose acts meet the condition, with crashes and failures
between any two operations, each act does what the store says, and the store is what the pushes and
deletes that took effect have left. -/
theorem folder_is_atomic (wire : Wire C) (acts : List (Act C)) (hback : ∀ a ∈ acts, Back wire a)
    (hmeets : runs.Along (step wire) (Meets wire) start acts) :
    runs.Along (step wire) (HoldsAt wire) start acts := by
  have hboth : runs.Along (step wire) (fun s a => Meets wire s a ∧ Back wire a) start acts :=
    runs.along_mono (fun _ a ha hmeets => ⟨hmeets, hback a ha⟩) hmeets
  exact @runs.along_of_invariant (State C) (Act C) (step wire) (Inv wire)
    (fun s a => Meets wire s a ∧ Back wire a) (HoldsAt wire)
    (fun _ a hs ha => inv_step hs a ha.1 ha.2) (fun _ a hs ha => holds_step hs a ha.1 ha.2) _ start_inv
    acts hboth

/-! ### Some runs -/

/-- A call whose operations meet the condition in every state. -/
def Call.free : Call C → Bool
  | .push _ | .delete _ | .reading _ _ => false
  | .writing _ _ _ | .pull _ | .found _ | .list | .done _ => true

theorem meets_free {id bytes : Nat} {order : List Name}
    (hfree : (s.calls id).all Call.free = true) : Meets wire s (.op id bytes order) := by
  unfold Meets
  dsimp only
  rcases hcall : s.calls id with _ | call
  · trivial
  · rw [hcall] at hfree
    cases call with
    | push obj => cases hfree
    | delete key => cases hfree
    | reading entries out => cases hfree
    | writing obj inode written => trivial
    | pull key => trivial
    | found key => trivial
    | list => trivial
    | done reply => trivial

theorem meets_one_key {id : Nat} {key : String} (hkeys : s.keys = [key]) :
    Meets wire s (.begin_ id (.pull key)) := by
  intro k hk other hother _
  cases hk
  rw [hkeys] at hother
  exact List.mem_singleton.mp hother

def sample : SyncObject Bytes :=
  { key := "memory/1", ciphertext := [7], version := 1
    writer := ⟨"00000000-0000-4000-8000-000000000001"⟩, updated_at := 0, tombstone := false }

/-- Its JSON: an object with `obj`, and in it the key, the bytes in an array, the version, the writer,
the time as `1970-01-01T00:00:00Z`, and `false`. -/
def sample_text : Bytes :=
  [123, 34, 111, 98, 106, 34, 58, 123, 34, 107, 101, 121, 34, 58, 34, 109, 101, 109, 111, 114,
    121, 47, 49, 34, 44, 34, 99, 105, 112, 104, 101, 114, 116, 101, 120, 116, 34, 58, 91, 55,
    93, 44, 34, 118, 101, 114, 115, 105, 111, 110, 34, 58, 49, 44, 34, 119, 114, 105, 116, 101,
    114, 34, 58, 34, 48, 48, 48, 48, 48, 48, 48, 48, 45, 48, 48, 48, 48, 45, 52, 48, 48, 48,
    45, 56, 48, 48, 48, 45, 48, 48, 48, 48, 48, 48, 48, 48, 48, 48, 48, 49, 34, 44, 34, 117,
    112, 100, 97, 116, 101, 100, 95, 97, 116, 34, 58, 34, 49, 57, 55, 48, 45, 48, 49, 45, 48,
    49, 84, 48, 48, 58, 48, 48, 58, 48, 48, 90, 34, 44, 34, 116, 111, 109, 98, 115, 116, 111,
    110, 101, 34, 58, 102, 97, 108, 115, 101, 125, 125]

/-- `serde_json` on the sample. -/
def sample_wire : Wire Bytes :=
  { to_vec := fun o => if o = sample then sample_text else []
    from_slice := fun raw => if raw = sample_text then some sample else none }

theorem sample_back : sample_wire.from_slice (sample_wire.to_vec sample) = some sample := by
  unfold sample_wire
  dsimp only
  rw [if_pos rfl, if_pos rfl]

def push (id : Nat) : Act Bytes := .begin_ id (.push sample)

/-- One operation, of which a write takes all bytes. -/
def next (id : Nat) : Act Bytes := .op id 1000 []

theorem a_push_is_pulled :
    runs.Along (step sample_wire) (HoldsAt sample_wire) start
      [push 0, next 0, next 0, next 0, .begin_ 1 (.pull "memory/1"), next 1, next 1] := by
  refine folder_is_atomic sample_wire _ (fun a ha => ?_) ⟨?_, ?_, ?_, ?_, ?_, ?_, ?_, trivial⟩
  · simp only [push, next, List.mem_cons, List.not_mem_nil, or_false] at ha
    rcases ha with rfl | rfl | rfl | rfl | rfl | rfl | rfl
    · exact sample_back
    all_goals trivial
  · exact fun key _ other hin => absurd hin List.not_mem_nil
  · intro other obj' inode written hcall
    by_cases hother : other = 0
    · subst hother
      cases hcall
    · cases (Function.update_of_ne hother ..).symm.trans hcall
  · refine @meets_free Bytes sample_wire _ 0 1000 [] ?_
    decide +kernel
  · refine @meets_free Bytes sample_wire _ 0 1000 [] ?_
    decide +kernel
  · refine meets_one_key ?_
    decide +kernel
  · refine @meets_free Bytes sample_wire _ 1 1000 [] ?_
    decide +kernel
  · refine @meets_free Bytes sample_wire _ 1 1000 [] ?_
    decide +kernel

/-- Two pushes of one object: the second opens the temporary file before the first renames it. -/
def overlapping : List (Act Bytes) := [push 0, push 1, next 0, next 0, next 1, next 0]

/-- A push that ends before its rename, and a list. -/
def left_behind : List (Act Bytes) :=
  [push 0, next 0, next 0, .crash [0], .begin_ 1 .list, next 1, next 1]

/-- A delete between the two operations of a pull. -/
def raced : List (Act Bytes) :=
  [push 0, next 0, next 0, next 0, .begin_ 1 (.pull "memory/1"), .begin_ 2 (.delete "memory/1"),
    next 1, next 2, next 1]

section Runs
variable {id bytes : Nat} {order : List Name}

theorem right_part {file : String} {entries : List Name} {out : List engine.SyncObjectMeta}
    (h : Right wire s id bytes order (.reading (.part file :: entries) out)) :
    (operate wire s id bytes order (.reading (.part file :: entries) out)).calls id =
      some (.reading entries out) :=
  h

theorem right_found {key : String} (h : Right wire s id bytes order (.found key)) :
    (operate wire s id bytes order (.found key)).calls id = some (.done (.pulled (s.store key))) :=
  h

end Runs

/-- An empty file is left under the key, the header of a push that did not end is listed, and a pull
ends with an error. -/
theorem folder_is_not_atomic :
    ¬ runs.Along (step sample_wire) (HoldsAt sample_wire) start overlapping ∧
      ¬ runs.Along (step sample_wire) (HoldsAt sample_wire) start left_behind ∧
      ¬ runs.Along (step sample_wire) (HoldsAt sample_wire) start raced := by
  refine ⟨fun h => ?_, fun h => ?_, fun h => ?_⟩
  · have hpull := h.2.2.2.2.2.1.pulls "memory/1" (by decide +kernel)
    exact absurd hpull (by decide +kernel)
  · have hright := h.2.2.2.2.2.2.1.right (.reading [.part "memory%2f1"] []) (by decide +kernel)
    exact absurd (right_part hright) (by decide +kernel)
  · have hright := h.2.2.2.2.2.2.2.2.1.right (.found "memory/1") (by decide +kernel)
    exact absurd (right_found hright) (by decide +kernel)

end pai_sync.folder
