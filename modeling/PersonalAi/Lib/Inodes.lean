-- A directory of files with inodes: an open file goes on under its inode, whatever becomes of the
-- name. A file is truncated, written in parts at an offset, renamed over another one, and removed.
import Mathlib.Logic.Function.Basic
import PersonalAi.Lib.Chars
import PersonalAi.Lib.Table

namespace inodes

open table text

variable {ν : Type} [DecidableEq ν]

/-- The names with their inodes, of which each has one name at most. -/
structure Dir (ν : Type) [DecidableEq ν] where
  names : Table ν Nat
  bytes : Nat → Bytes
  next : Nat
  below : ∀ n i, names.lookup n = some i → i < next
  apart : ∀ n m i, names.lookup n = some i → names.lookup m = some i → n = m

namespace Dir

theorem empty_below (n : ν) (i : Nat) (h : (∅ : Table ν Nat).lookup n = some i) : i < 0 := by
  cases h

theorem empty_apart (n m : ν) (i : Nat) (h : (∅ : Table ν Nat).lookup n = some i)
    (_ : (∅ : Table ν Nat).lookup m = some i) : n = m := by
  cases h

def empty : Dir ν :=
  { names := ∅, bytes := fun _ => [], next := 0, below := empty_below, apart := empty_apart }

def exists_ (d : Dir ν) (n : ν) : Bool := (d.names.lookup n).isSome

def read (d : Dir ν) (n : ν) : Option Bytes := (d.names.lookup n).map d.bytes

def list (d : Dir ν) : List ν := d.names.keys

theorem insert_below (d : Dir ν) (n : ν) (m : ν) (i : Nat)
    (h : (d.names.insert n d.next).lookup m = some i) : i < d.next + 1 := by
  rw [lookup_insert_if] at h
  split at h
  · cases h
    exact Nat.lt_succ_self _
  · exact Nat.lt_succ_of_lt (d.below m i h)

theorem insert_apart (d : Dir ν) (n : ν) (m l : ν) (i : Nat)
    (hm : (d.names.insert n d.next).lookup m = some i)
    (hl : (d.names.insert n d.next).lookup l = some i) : m = l := by
  rw [lookup_insert_if] at hm hl
  split at hm <;> split at hl
  · rename_i hm' hl'
    exact hm'.trans hl'.symm
  · cases hm
    exact absurd (d.below l _ hl) (Nat.lt_irrefl _)
  · cases hl
    exact absurd (d.below m _ hm) (Nat.lt_irrefl _)
  · exact d.apart m l i hm hl

/-- Opened for writing from the start: the file of that name is truncated, or a new one. -/
def create (d : Dir ν) (n : ν) : Nat × Dir ν :=
  match d.names.lookup n with
  | some i => (i, { d with bytes := Function.update d.bytes i [] })
  | none =>
    (d.next, { names := d.names.insert n d.next, bytes := Function.update d.bytes d.next []
               next := d.next + 1, below := insert_below d n, apart := insert_apart d n })

/-- Bytes in the place of others, with zeros where the file is too short. -/
def splice (old : Bytes) (offset : Nat) (chunk : Bytes) : Bytes :=
  (old ++ List.replicate (offset - old.length) 0).take offset ++ chunk ++
    old.drop (offset + chunk.length)

def write_at (d : Dir ν) (inode offset : Nat) (chunk : Bytes) : Dir ν :=
  { d with bytes := Function.update d.bytes inode (splice (d.bytes inode) offset chunk) }

theorem erase_below (d : Dir ν) (n : ν) (m : ν) (i : Nat)
    (h : (d.names.erase n).lookup m = some i) : i < d.next := by
  rw [lookup_erase_if] at h
  split at h
  · cases h
  · exact d.below m i h

theorem erase_apart (d : Dir ν) (n : ν) (m l : ν) (i : Nat)
    (hm : (d.names.erase n).lookup m = some i) (hl : (d.names.erase n).lookup l = some i) :
    m = l := by
  rw [lookup_erase_if] at hm hl
  split at hm
  · cases hm
  · split at hl
    · cases hl
    · exact d.apart m l i hm hl

def remove (d : Dir ν) (n : ν) : Option (Dir ν) :=
  if d.exists_ n then
    some { d with names := d.names.erase n, below := erase_below d n, apart := erase_apart d n }
  else none

theorem move_below (d : Dir ν) {a b : ν} {i : Nat} (hi : d.names.lookup a = some i) (m : ν) (j : Nat)
    (h : ((d.names.erase a).insert b i).lookup m = some j) : j < d.next := by
  rw [lookup_insert_if] at h
  split at h
  · cases h
    exact d.below a _ hi
  · exact erase_below d a m j h

theorem move_apart (d : Dir ν) {a b : ν} {i : Nat} (hi : d.names.lookup a = some i) (m l : ν) (j : Nat)
    (hm : ((d.names.erase a).insert b i).lookup m = some j)
    (hl : ((d.names.erase a).insert b i).lookup l = some j) : m = l := by
  have hother : ∀ k, (d.names.erase a).lookup k ≠ some i := by
    intro k hk
    rw [lookup_erase_if] at hk
    split at hk
    · cases hk
    · rename_i hne
      exact hne (d.apart k a i hk hi)
  rw [lookup_insert_if] at hm hl
  split at hm <;> split at hl
  · rename_i hm' hl'
    exact hm'.trans hl'.symm
  · cases hm
    exact absurd hl (hother l)
  · cases hl
    exact absurd hm (hother m)
  · exact erase_apart d a m l j hm hl

/-- The file `a` stands at `b` now, in the place of what was there. -/
def rename (d : Dir ν) (a b : ν) : Option (Dir ν) :=
  match h : d.names.lookup a with
  | none => none
  | some i =>
    some { d with
      names := (d.names.erase a).insert b i, below := move_below d h, apart := move_apart d h }

/-! ## What is read -/

variable {d d' : Dir ν} {n m a b : ν} {i offset : Nat} {chunk : Bytes}

@[simp] theorem mem_list : n ∈ d.list ↔ d.exists_ n = true := by
  unfold list exists_
  rw [AList.lookup_isSome]
  exact AList.mem_keys.symm

theorem exists_iff : d.exists_ n = (d.read n).isSome := by
  unfold exists_ read
  exact Option.isSome_map.symm

@[simp] theorem read_empty : (empty : Dir ν).read n = none := rfl

theorem create_inode : (d.create n).2.names.lookup n = some (d.create n).1 := by
  unfold create
  split
  · assumption
  · exact (lookup_insert_if ..).trans (if_pos rfl)

theorem create_names (h : m ≠ n) : (d.create n).2.names.lookup m = d.names.lookup m := by
  unfold create
  split
  · rfl
  · exact (lookup_insert_if ..).trans (if_neg h)

/-- The file that is opened is empty, and that of no other name. -/
theorem create_bytes : (d.create n).2.bytes (d.create n).1 = [] := by
  unfold create
  split <;> exact Function.update_self ..

theorem create_other (h : m ≠ n) (hm : d.names.lookup m = some i) :
    (d.create n).2.bytes i = d.bytes i := by
  unfold create
  split
  · rename_i j hj
    refine Function.update_of_ne (fun heq => h ?_) ..
    exact d.apart m n i hm (heq ▸ hj)
  · refine Function.update_of_ne (fun heq => ?_) ..
    exact Nat.lt_irrefl _ (heq ▸ d.below m i hm)

theorem read_create (h : m ≠ n) : (d.create n).2.read m = d.read m := by
  unfold read
  rw [create_names h]
  rcases hm : d.names.lookup m with _ | i
  · rfl
  · exact congrArg some (create_other h hm)

theorem write_at_bytes :
    (d.write_at i offset chunk).bytes i = splice (d.bytes i) offset chunk :=
  Function.update_self ..

theorem write_at_other {j : Nat} (h : j ≠ i) : (d.write_at i offset chunk).bytes j = d.bytes j :=
  Function.update_of_ne h ..

/-- What is written to an inode is read under its name only. -/
theorem read_write_at (hn : d.names.lookup n = some i) (h : m ≠ n) :
    (d.write_at i offset chunk).read m = d.read m := by
  unfold read
  change (d.names.lookup m).map _ = _
  rcases hm : d.names.lookup m with _ | j
  · rfl
  · refine congrArg some (write_at_other fun heq => h ?_)
    exact d.apart m n i (heq ▸ hm) hn

/-- At the end of the file the bytes are appended. -/
theorem splice_end (old chunk : Bytes) : splice old old.length chunk = old ++ chunk := by
  unfold splice
  rw [Nat.sub_self, List.replicate_zero, List.append_nil, List.take_length,
    List.drop_eq_nil_of_le (Nat.le_add_right _ _), List.append_nil]

theorem remove_names (h : d.remove n = some d') :
    (∀ m, d'.names.lookup m = if m = n then none else d.names.lookup m) ∧ d'.bytes = d.bytes := by
  unfold remove at h
  split at h
  · cases h
    exact ⟨fun m => lookup_erase_if .., rfl⟩
  · cases h

theorem read_remove (h : d.remove n = some d') :
    d'.read m = if m = n then none else d.read m := by
  obtain ⟨hnames, hbytes⟩ := remove_names h
  unfold read
  rw [hnames, hbytes]
  split <;> rfl

theorem remove_eq_none : d.remove n = none ↔ d.read n = none := by
  unfold remove
  rw [exists_iff]
  rcases d.read n with _ | b <;> simp

theorem rename_names (h : d.rename a b = some d') (hab : a ≠ b) :
    (∀ m, d'.names.lookup m =
      if m = b then d.names.lookup a else if m = a then none else d.names.lookup m) ∧
      d'.bytes = d.bytes := by
  unfold rename at h
  split at h
  · cases h
  · rename_i i hi
    cases h
    refine ⟨fun m => ?_, rfl⟩
    dsimp only
    rw [lookup_insert_if, lookup_erase_if, hi]

theorem read_rename (h : d.rename a b = some d') (hab : a ≠ b) :
    d'.read m = if m = b then d.read a else if m = a then none else d.read m := by
  obtain ⟨hnames, hbytes⟩ := rename_names h hab
  unfold read
  rw [hnames, hbytes]
  split
  · rfl
  · split <;> rfl

theorem rename_eq_none : d.rename a b = none ↔ d.read a = none := by
  unfold rename read
  split <;> simp [*]

end Dir

end inodes
