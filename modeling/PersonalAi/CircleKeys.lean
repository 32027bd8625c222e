-- The keys of circles on the device (pai-sync crypto.rs): an entry of the keystore for each name,
-- and a file behind it where the keystore does not take the key. The law says when the key of one
-- circle is nobody else's.
import Mathlib.Data.List.Basic
import PersonalAi.Core
import PersonalAi.Lib.Chars
import PersonalAi.Lib.Runs
import PersonalAi.Lib.Table

open pai_core runs table text

namespace pai_sync.circles

/-! ## Names -/

section Names
variable (is_alphanumeric : Char → Bool)

/-- The characters that `validate_name` takes, and that a file name keeps. -/
def kept (c : Char) : Bool := is_alphanumeric c || c == '-' || c == '_'

/-- Names of circles that are made here; a name in a grant is not checked. -/
def validate_name (name : String) : Except Error Unit :=
  if name = "" || decide (name.utf8ByteSize > 64) || !name.toList.all (kept is_alphanumeric) then
    .error (.InvalidInput "circle name must be 1-64 alphanumeric/-/_ chars")
  else .ok ()

/-- `vault` is the hash of the data directory. -/
def circle_ks_name (vault name : String) : String := "circle:" ++ name ++ ":" ++ vault

/-- In the data directory. -/
def circle_key_file (name : String) : String :=
  "circle-" ++ String.ofList (name.toList.map fun c => if kept is_alphanumeric c then c else '_') ++
    ".key"

/-- No character of the name is an underscore, or becomes one in its file name. -/
def Plain (name : String) : Prop := ∀ c ∈ name.toList, kept is_alphanumeric c = true ∧ c ≠ '_'

end Names

/-! ## Keys -/

abbrev Key := { bytes : Bytes // bytes.length = 32 }

/-- The keystore, and the files of the data directory. -/
structure State where
  keystore : Table String Bytes
  files : Table String Bytes

/-- Which operations of the keystore work during a call. -/
structure Call where
  loads : Bool
  stores : Bool
  deletes : Bool

def as_key (corrupt : String) (bytes : Bytes) : Except Error Key :=
  if h : bytes.length = 32 then .ok ⟨bytes, h⟩ else .error (.Sync corrupt)

section Keys
variable (is_alphanumeric : Char → Bool) (vault : String) (c : Call) (s : State) (name : String)

def store_circle (key : Key) : State :=
  if c.stores then { s with keystore := s.keystore.insert (circle_ks_name vault name) key }
  else { s with files := s.files.insert (circle_key_file is_alphanumeric name) key }

def load_key : Option Bytes :=
  if c.loads then s.keystore.lookup (circle_ks_name vault name) else none

/-- The key of this name, if it is there. A key out of a file goes to the keystore. -/
def circle_key : Except Error (Option Key) × State :=
  match load_key vault c s name with
  | some bytes => ((as_key ("corrupt circle:" ++ name ++ " key") bytes).map some, s)
  | none =>
    match s.files.lookup (circle_key_file is_alphanumeric name) with
    | some bytes =>
      match as_key ("corrupt circle-" ++ name ++ ".key") bytes with
      | .ok raw => (.ok (some raw), store_circle is_alphanumeric vault c s name raw)
      | .error e => (.error e, s)
    | none => (.ok none, s)

/-- `fresh` is what the generator gives. -/
def circle_key_or_generate (fresh : Key) : Except Error Key × State :=
  match circle_key is_alphanumeric vault c s name with
  | (.ok (some key), s) => (.ok key, s)
  | (.ok none, s) => (.ok fresh, store_circle is_alphanumeric vault c s name fresh)
  | (.error e, s) => (.error e, s)

def create_circle (fresh : Key) : Except Error Key × State :=
  match validate_name is_alphanumeric name with
  | .ok () => circle_key_or_generate is_alphanumeric vault c s name fresh
  | .error e => (.error e, s)

/-- The key of a grant: the same key again is fine, another one is a conflict. -/
def adopt_circle_key (key : Key) : Except Error Unit × State :=
  match circle_key is_alphanumeric vault c s name with
  | (.ok (some existing), s) =>
    if existing = key then (.ok (), s)
    else (.error (.Sync ("circle '" ++ name ++ "' key conflict — leave the circle before re-joining")), s)
  | (.ok none, s) => (.ok (), store_circle is_alphanumeric vault c s name key)
  | (.error e, s) => (.error e, s)

def drop_circle_key : State :=
  { keystore := if c.deletes then s.keystore.erase (circle_ks_name vault name) else s.keystore
    files := s.files.erase (circle_key_file is_alphanumeric name) }

end Keys

/-! ## Runs -/

inductive Act
  | create (name : String) (fresh : Key) (c : Call)
  | adopt (name : String) (key : Key) (c : Call)
  | drop (name : String) (c : Call)
  | read (name : String) (c : Call)

def Act.name : Act → String
  | .create name _ _ => name
  | .adopt name _ _ => name
  | .drop name _ => name
  | .read name _ => name

/-- The keys, and the names that a key was created or adopted for, which no code keeps. -/
structure World where
  state : State
  made : List String

def World.new : World := { state := { keystore := ∅, files := ∅ }, made := [] }

section Runs
variable (is_alphanumeric : Char → Bool) (vault : String)

/-- A name for which a call has succeeded. -/
def noted {α : Type} (name : String) (made : List String) (r : Except Error α × State) : World :=
  { state := r.2, made := if r.1.isOk then name :: made else made }

def step (w : World) : Act → World
  | .create name fresh c =>
    noted name w.made (create_circle is_alphanumeric vault c w.state name fresh)
  | .adopt name key c => noted name w.made (adopt_circle_key is_alphanumeric vault c w.state name key)
  | .drop name c => { w with state := drop_circle_key is_alphanumeric vault c w.state name }
  | .read name c => { w with state := (circle_key is_alphanumeric vault c w.state name).2 }

/-! ## What is wanted -/

/-- The key that the device holds for a name, as a call finds it. -/
def held (s : State) (c : Call) (name : String) : Except Error (Option Key) :=
  (circle_key is_alphanumeric vault c s name).1

/-- The call changes the key of no other name, and a name that no key was made for has none. -/
def Independent (w : World) (act : Act) : Prop :=
  (∀ c other, other ≠ act.name →
    held is_alphanumeric vault (step is_alphanumeric vault w act).state c other =
      held is_alphanumeric vault w.state c other) ∧
    ∀ c name, name ∉ (step is_alphanumeric vault w act).made →
      held is_alphanumeric vault (step is_alphanumeric vault w act).state c name = .ok none

/-! ## When it holds -/

/-- The call puts a new key into a file: the keystore does not take it. -/
def Writes (w : World) : Act → Prop
  | .create name _ c => validate_name is_alphanumeric name = .ok () ∧ c.stores = false ∧
    held is_alphanumeric vault w.state c name = .ok none
  | .adopt name _ c => c.stores = false ∧ held is_alphanumeric vault w.state c name = .ok none
  | _ => False

def Clear (w : World) (act : Act) : Prop :=
  Writes is_alphanumeric vault w act → Plain is_alphanumeric act.name

end Runs

/-! ## Names apart -/

section Names
variable {is_alphanumeric : Char → Bool} {vault name other : String}

theorem ks_name_inj (h : circle_ks_name vault name = circle_ks_name vault other) : name = other := by
  have htext := congrArg String.toList h
  simp only [circle_ks_name, String.toList_append] at htext
  have hname := List.append_cancel_left (List.append_cancel_right (List.append_cancel_right htext))
  exact String.toList_injective hname

/-- Characters that are kept stay as they are. -/
theorem map_kept {chars : List Char} (h : ∀ c ∈ chars, kept is_alphanumeric c = true) :
    chars.map (fun c => if kept is_alphanumeric c then c else '_') = chars := by
  calc chars.map (fun c => if kept is_alphanumeric c then c else '_')
      = chars.map id := List.map_congr_left fun c hc => if_pos (h c hc)
    _ = chars := List.map_id chars

/-- A plain name has its file for itself. -/
theorem plain_file (hplain : Plain is_alphanumeric name)
    (h : circle_key_file is_alphanumeric other = circle_key_file is_alphanumeric name) :
    other = name := by
  have htext := congrArg String.toList h
  simp only [circle_key_file, String.toList_append, String.toList_ofList] at htext
  have hchars := List.append_cancel_left (List.append_cancel_right htext)
  rw [map_kept fun c hc => (hplain c hc).1] at hchars
  apply String.toList_injective
  rw [← hchars]
  refine (map_kept fun c hc => ?_).symm
  by_cases hkept : kept is_alphanumeric c = true
  · exact hkept
  · have hmem := List.mem_map_of_mem (f := fun c => if kept is_alphanumeric c then c else '_') hc
    rw [hchars, if_neg hkept] at hmem
    exact ((hplain '_' hmem).2 rfl).elim

end Names

/-! ## One call -/

section Calls
variable {is_alphanumeric : Char → Bool} {vault name other : String} {c : Call} {s s' : State}
  {made : List String}

/-- Nothing but what is of this name has changed. -/
structure Local (is_alphanumeric : Char → Bool) (vault name : String) (s s' : State) : Prop where
  keystore : ∀ k, k ≠ circle_ks_name vault name → s'.keystore.lookup k = s.keystore.lookup k
  files : ∀ f, f ≠ circle_key_file is_alphanumeric name → s'.files.lookup f = s.files.lookup f

/-- Every key is of a name that one was made for, and every file of a plain one. -/
structure Owned (is_alphanumeric : Char → Bool) (vault : String) (made : List String) (s : State) :
    Prop where
  keystore : ∀ k bytes, s.keystore.lookup k = some bytes →
    ∃ n ∈ made, k = circle_ks_name vault n
  files : ∀ f bytes, s.files.lookup f = some bytes →
    ∃ n ∈ made, Plain is_alphanumeric n ∧ f = circle_key_file is_alphanumeric n

theorem Local.refl (name : String) (s : State) : Local is_alphanumeric vault name s s :=
  ⟨fun _ _ => rfl, fun _ _ => rfl⟩

theorem Local.trans {s'' : State} (h : Local is_alphanumeric vault name s s')
    (h' : Local is_alphanumeric vault name s' s'') : Local is_alphanumeric vault name s s'' :=
  ⟨fun k hk => (h'.keystore k hk).trans (h.keystore k hk),
    fun f hf => (h'.files f hf).trans (h.files f hf)⟩

theorem Owned.mono {made' : List String} (h : Owned is_alphanumeric vault made s)
    (hsub : made ⊆ made') : Owned is_alphanumeric vault made' s := by
  refine ⟨fun k bytes hk => ?_, fun f bytes hf => ?_⟩
  · obtain ⟨n, hn, heq⟩ := h.keystore k bytes hk
    exact ⟨n, hsub hn, heq⟩
  · obtain ⟨n, hn, hplain, heq⟩ := h.files f bytes hf
    exact ⟨n, hsub hn, hplain, heq⟩

/-- A file under the name of `name` is its own, and the name is plain. -/
theorem Owned.file_of (h : Owned is_alphanumeric vault made s) {bytes : Bytes}
    (hfile : s.files.lookup (circle_key_file is_alphanumeric name) = some bytes) :
    name ∈ made ∧ Plain is_alphanumeric name := by
  obtain ⟨n, hn, hplain, heq⟩ := h.files _ bytes hfile
  obtain rfl := plain_file hplain heq
  exact ⟨hn, hplain⟩

theorem store_circle_local (key : Key) :
    Local is_alphanumeric vault name s (store_circle is_alphanumeric vault c s name key) := by
  unfold store_circle
  split
  · refine ⟨fun k hk => ?_, fun _ _ => rfl⟩
    rw [lookup_insert_if, if_neg hk]
  · refine ⟨fun _ _ => rfl, fun f hf => ?_⟩
    rw [lookup_insert_if, if_neg hf]

theorem Owned.store_circle (h : Owned is_alphanumeric vault made s) (hname : name ∈ made)
    (hplace : c.stores = false → Plain is_alphanumeric name) (key : Key) :
    Owned is_alphanumeric vault made (store_circle is_alphanumeric vault c s name key) := by
  unfold circles.store_circle
  split
  · refine ⟨fun k bytes hk => ?_, h.files⟩
    rw [lookup_insert_if] at hk
    split at hk
    · exact ⟨name, hname, ‹_›⟩
    · exact h.keystore k bytes hk
  · rename_i hstores
    refine ⟨h.keystore, fun f bytes hf => ?_⟩
    rw [lookup_insert_if] at hf
    split at hf
    · exact ⟨name, hname, hplace (by simpa using hstores), ‹_›⟩
    · exact h.files f bytes hf

/-- What a read does: nothing, or it moves a key of its own name. -/
theorem circle_key_state (h : Owned is_alphanumeric vault made s) :
    Local is_alphanumeric vault name s (circle_key is_alphanumeric vault c s name).2 ∧
      Owned is_alphanumeric vault made (circle_key is_alphanumeric vault c s name).2 := by
  unfold circle_key
  split
  · exact ⟨.refl name s, h⟩
  · split
    · rename_i bytes hfile
      obtain ⟨hname, hplain⟩ := h.file_of hfile
      split
      · exact ⟨store_circle_local _, h.store_circle hname (fun _ => hplain) _⟩
      · exact ⟨.refl name s, h⟩
    · exact ⟨.refl name s, h⟩

/-- A name without a key: nothing is there, and nothing was moved. -/
theorem circle_key_none (h : (circle_key is_alphanumeric vault c s name).1 = .ok none) :
    circle_key is_alphanumeric vault c s name = (.ok none, s) := by
  unfold circle_key at h ⊢
  split
  · rename_i bytes hload
    rw [hload] at h
    dsimp only at h
    cases hkey : as_key ("corrupt circle:" ++ name ++ " key") bytes <;> rw [hkey] at h <;> cases h
  · rename_i hload
    rw [hload] at h
    dsimp only at h
    split
    · rename_i bytes hfile
      rw [hfile] at h
      dsimp only at h
      split at h
      · cases h
      · cases h
    · rfl

/-- A name that no key was made for has none. -/
theorem Owned.held_none (h : Owned is_alphanumeric vault made s) (c : Call) (hname : name ∉ made) :
    held is_alphanumeric vault s c name = .ok none := by
  have hload : load_key vault c s name = none := by
    unfold load_key
    split
    · rcases hkey : s.keystore.lookup (circle_ks_name vault name) with _ | bytes
      · rfl
      · obtain ⟨n, hn, heq⟩ := h.keystore _ bytes hkey
        rw [ks_name_inj heq] at hname
        exact (hname hn).elim
    · rfl
  have hfile : s.files.lookup (circle_key_file is_alphanumeric name) = none := by
    rcases hkey : s.files.lookup (circle_key_file is_alphanumeric name) with _ | bytes
    · rfl
    · exact (hname (h.file_of hkey).1).elim
  unfold held circle_key
  rw [hload, hfile]

/-- What is held for a name depends on its own entry and file. -/
theorem held_congr (c : Call)
    (hkey : s'.keystore.lookup (circle_ks_name vault name) =
      s.keystore.lookup (circle_ks_name vault name))
    (hfile : s'.files.lookup (circle_key_file is_alphanumeric name) =
      s.files.lookup (circle_key_file is_alphanumeric name)) :
    held is_alphanumeric vault s' c name = held is_alphanumeric vault s c name := by
  unfold held circle_key load_key
  rw [hkey, hfile]
  split
  · rfl
  · split
    · split <;> rfl
    · rfl

/-- A change of one name is none of the others, where the files are owned before and behind it. -/
theorem Local.held {made' : List String} (h : Local is_alphanumeric vault name s s')
    (hbefore : Owned is_alphanumeric vault made s) (hbehind : Owned is_alphanumeric vault made' s')
    (c : Call) (hother : other ≠ name) :
    held is_alphanumeric vault s' c other = held is_alphanumeric vault s c other := by
  have hkey := h.keystore (circle_ks_name vault other) fun heq => hother (ks_name_inj heq)
  refine held_congr c hkey ?_
  by_cases hsame : circle_key_file is_alphanumeric other = circle_key_file is_alphanumeric name
  · have hnone {t : State} {names : List String} (ht : Owned is_alphanumeric vault names t) :
        t.files.lookup (circle_key_file is_alphanumeric other) = none := by
      rcases hfile : t.files.lookup (circle_key_file is_alphanumeric other) with _ | bytes
      · rfl
      · have hplain := (ht.file_of hfile).2
        exact (hother (plain_file hplain hsame.symm).symm).elim
    rw [hnone hbefore, hnone hbehind]
  · exact h.files _ hsame

end Calls

/-! ## One step -/

section Steps
variable {is_alphanumeric : Char → Bool} {vault name : String} {c : Call} {s : State}
  {made : List String} {w : World}

/-- What a call may leave: a change of its own name, and every key owned. -/
def Leaves (is_alphanumeric : Char → Bool) (vault name : String) (s : State) (w : World) : Prop :=
  Local is_alphanumeric vault name s w.state ∧ Owned is_alphanumeric vault w.made w.state

/-- A call that has failed, or found what it wanted. -/
theorem leaves_found {α : Type} (h : Owned is_alphanumeric vault made s) {s' : State}
    (hread : (circle_key is_alphanumeric vault c s name).2 = s') (r : Except Error α) :
    Leaves is_alphanumeric vault name s (noted name made (r, s')) := by
  obtain ⟨hlocal, howned⟩ := @circle_key_state is_alphanumeric vault name c s made h
  rw [hread] at hlocal howned
  refine ⟨hlocal, howned.mono ?_⟩
  unfold noted
  dsimp only
  split
  · exact List.subset_cons_self name made
  · exact List.Subset.refl made

/-- A call that has stored a new key. -/
theorem leaves_stored {α : Type} (h : Owned is_alphanumeric vault made s)
    (hplace : c.stores = false → Plain is_alphanumeric name) (key : Key) (a : α) :
    Leaves is_alphanumeric vault name s
      (noted name made (.ok a, store_circle is_alphanumeric vault c s name key)) :=
  ⟨store_circle_local key,
    (h.mono (List.subset_cons_self name made)).store_circle List.mem_cons_self hplace key⟩

theorem leaves_generate (h : Owned is_alphanumeric vault made s) (fresh : Key)
    (hplace : c.stores = false → held is_alphanumeric vault s c name = .ok none →
      Plain is_alphanumeric name) :
    Leaves is_alphanumeric vault name s
      (noted name made (circle_key_or_generate is_alphanumeric vault c s name fresh)) := by
  unfold circle_key_or_generate
  split
  · exact leaves_found h (congrArg Prod.snd ‹_›) _
  · rename_i hread
    have hnone : held is_alphanumeric vault s c name = .ok none := by simp [held, hread]
    have hstay := (circle_key_none hnone).symm.trans hread
    cases hstay
    exact leaves_stored h (fun hstores => hplace hstores hnone) fresh fresh
  · exact leaves_found h (congrArg Prod.snd ‹_›) _

theorem leaves_create (h : Owned is_alphanumeric vault made s) (fresh : Key)
    (hplace : validate_name is_alphanumeric name = .ok () → c.stores = false →
      held is_alphanumeric vault s c name = .ok none → Plain is_alphanumeric name) :
    Leaves is_alphanumeric vault name s
      (noted name made (create_circle is_alphanumeric vault c s name fresh)) := by
  unfold create_circle
  split
  · rename_i hvalid
    exact leaves_generate h fresh (hplace hvalid)
  · exact ⟨.refl name s, h⟩

theorem leaves_adopt (h : Owned is_alphanumeric vault made s) (key : Key)
    (hplace : c.stores = false → held is_alphanumeric vault s c name = .ok none →
      Plain is_alphanumeric name) :
    Leaves is_alphanumeric vault name s
      (noted name made (adopt_circle_key is_alphanumeric vault c s name key)) := by
  unfold adopt_circle_key
  split
  · split
    · exact leaves_found h (congrArg Prod.snd ‹_›) _
    · exact leaves_found h (congrArg Prod.snd ‹_›) _
  · rename_i hread
    have hnone : held is_alphanumeric vault s c name = .ok none := by simp [held, hread]
    have hstay := (circle_key_none hnone).symm.trans hread
    cases hstay
    exact leaves_stored h (fun hstores => hplace hstores hnone) key ()
  · exact leaves_found h (congrArg Prod.snd ‹_›) _

theorem leaves_drop (h : Owned is_alphanumeric vault made s) (c : Call) (name : String) :
    Leaves is_alphanumeric vault name s
      { state := drop_circle_key is_alphanumeric vault c s name, made } := by
  refine ⟨⟨fun k hk => ?_, fun f hf => ?_⟩, ⟨fun k bytes hk => ?_, fun f bytes hf => ?_⟩⟩
  · unfold drop_circle_key
    dsimp only
    split
    · rw [lookup_erase_if, if_neg hk]
    · rfl
  · rw [drop_circle_key, lookup_erase_if, if_neg hf]
  · unfold drop_circle_key at hk
    dsimp only at hk
    split at hk
    · rw [lookup_erase_if] at hk
      split at hk
      · cases hk
      · exact h.keystore k bytes hk
    · exact h.keystore k bytes hk
  · rw [drop_circle_key, lookup_erase_if] at hf
    split at hf
    · cases hf
    · exact h.files f bytes hf

theorem clear_step_leaves {act : Act} (h : Owned is_alphanumeric vault w.made w.state)
    (hclear : Clear is_alphanumeric vault w act) :
    Leaves is_alphanumeric vault act.name w.state (step is_alphanumeric vault w act) := by
  cases act with
  | create name fresh c =>
    exact leaves_create h fresh fun hvalid hstores hnone => hclear ⟨hvalid, hstores, hnone⟩
  | adopt name key c => exact leaves_adopt h key fun hstores hnone => hclear ⟨hstores, hnone⟩
  | drop name c => exact leaves_drop h c name
  | read name c => exact @circle_key_state is_alphanumeric vault name c w.state w.made h

theorem clear_step_independent {act : Act} (h : Owned is_alphanumeric vault w.made w.state)
    (hclear : Clear is_alphanumeric vault w act) :
    Independent is_alphanumeric vault w act := by
  obtain ⟨hlocal, howned⟩ := clear_step_leaves h hclear
  exact ⟨fun c other hother => hlocal.held h howned c hother,
    fun c name hname => howned.held_none c hname⟩

/-- In every run in which a name that is not plain gets a new key only where the keystore takes it:
no call changes the key of another circle, and a name without a key has none. -/
theorem clear_runs_are_independent (is_alphanumeric : Char → Bool) (vault : String)
    {acts : List Act}
    (hclear : Along (step is_alphanumeric vault) (Clear is_alphanumeric vault) World.new acts) :
    Along (step is_alphanumeric vault) (Independent is_alphanumeric vault) World.new acts := by
  have hstart : Owned is_alphanumeric vault World.new.made World.new.state :=
    ⟨fun k bytes hk => by simp [World.new] at hk, fun f bytes hf => by simp [World.new] at hf⟩
  refine @along_of_invariant _ _ _ (fun w => Owned is_alphanumeric vault w.made w.state) _ _ ?_ ?_ _
    hstart _ hclear
  · exact fun w act howned h => (clear_step_leaves howned h).2
  · exact fun w act howned h => clear_step_independent howned h

end Steps

/-! ## Two names with one file -/

theorem key_length (b : UInt8) : (List.replicate 32 b).length = 32 := List.length_replicate

def key_of (b : UInt8) : Key := ⟨List.replicate 32 b, key_length b⟩

def offline : Call := { loads := false, stores := false, deletes := false }

def online : Call := { loads := true, stores := true, deletes := true }

/-- A family circle without a keystore, a work circle with one, and both keys go. -/
theorem plain_names_without_a_keystore :
    Along (step Char.isAlphanum "0011") (Independent Char.isAlphanum "0011") World.new
      [.create "family" (key_of 1) offline, .create "work_team" (key_of 2) online,
        .drop "family" online, .drop "work_team" online] :=
  clear_runs_are_independent Char.isAlphanum "0011" (by
    refine ⟨fun _ => ?_, fun h => ?_, fun h => h.elim, fun h => h.elim, trivial⟩
    · have hall : "family".toList.all (fun c => kept Char.isAlphanum c && c != '_') = true := by decide
      intro c hc
      simpa using List.all_eq_true.mp hall c hc
    · exact absurd h.2.1 (by decide))

/-- A grant without a keystore: another circle has its key, which was never made, and to leave that
circle drops the key of this one. -/
theorem two_names_have_one_file :
    ¬ (∀ acts, Along (step Char.isAlphanum "0011") (Independent Char.isAlphanum "0011") World.new
      acts) ∧
      held Char.isAlphanum "0011" (run (step Char.isAlphanum "0011") World.new
        [.adopt "our home" (key_of 1) offline]).state online "our_home" = .ok (some (key_of 1)) ∧
      held Char.isAlphanum "0011" (run (step Char.isAlphanum "0011") World.new
        [.adopt "our home" (key_of 1) offline, .drop "our_home" offline]).state offline "our home" =
          .ok none := by
  have hread : held Char.isAlphanum "0011" (run (step Char.isAlphanum "0011") World.new
      [.adopt "our home" (key_of 1) offline]).state online "our_home" = .ok (some (key_of 1)) := by
    decide +kernel
  refine ⟨fun h => ?_, hread, by decide +kernel⟩
  have hnone := (h [.adopt "our home" (key_of 1) offline]).1.2 online "our_home" (by decide +kernel)
  exact absurd (hnone.symm.trans hread) (by decide)

end pai_sync.circles
