-- The blobs of the store (pai-storage): a file for each content, named by its hash and written in
-- place. The law says when a blob is what its id says.
import PersonalAi.Core
import PersonalAi.Lib.Chars
import PersonalAi.Lib.Runs
import PersonalAi.Lib.Table

open pai_core runs table text

namespace pai_storage.blobs

/-! ## The calls -/

/-- The files of the blob directory. -/
abbrev Blobs := Table String Bytes

/-- Where a write is cut off: before the file is made, or behind so many bytes. -/
inductive Cut
  | unmade
  | behind (bytes : Nat)
deriving DecidableEq

section Calls
variable (sha256 : Bytes → String)

/-- `fs::write`: all of it, or what came before the cut. -/
def write (s : Blobs) (path : String) (bytes : Bytes) : Option Cut → Except Error Unit × Blobs
  | none => (.ok (), s.insert path bytes)
  | some .unmade => (.error (.Storage "write"), s)
  | some (.behind n) => (.error (.Storage "write"), s.insert path (bytes.take n))

/-- A file that exists is not written again. -/
def put_blob (s : Blobs) (bytes : Bytes) (cut : Option Cut) : Except Error String × Blobs :=
  let id := sha256 bytes
  if (s.lookup id).isSome then (.ok id, s)
  else
    match write s id bytes cut with
    | (.ok (), s) => (.ok id, s)
    | (.error e, s) => (.error e, s)

def get_blob (s : Blobs) (id : String) : Except Error Bytes :=
  match s.lookup id with
  | some bytes => .ok bytes
  | none => .error (.NotFound ("blob " ++ id))

/-! ## Runs -/

/-- A call that comes to its end, or the process ends where the write is cut off. -/
inductive Act
  | put_blob (bytes : Bytes) (cut : Option Cut)
  | crash (bytes : Bytes) (cut : Cut)

/-- The blobs, and the ids that calls have returned, which no code keeps. -/
structure World where
  blobs : Blobs
  returned : List String

def World.new : World := { blobs := ∅, returned := [] }

def step (w : World) : Act → World
  | .put_blob bytes cut =>
    match blobs.put_blob sha256 w.blobs bytes cut with
    | (.ok id, blobs) => { blobs, returned := id :: w.returned }
    | (.error _, blobs) => { w with blobs }
  | .crash bytes cut => { w with blobs := (blobs.put_blob sha256 w.blobs bytes (some cut)).2 }

/-! ## What is wanted -/

/-- Every blob that is read under a returned id has that hash. -/
def Genuine (w : World) : Prop :=
  ∀ id ∈ w.returned, ∀ bytes, get_blob w.blobs id = .ok bytes → sha256 bytes = id

def Keeps (w : World) (act : Act) : Prop := Genuine sha256 (step sha256 w act)

/-! ## When it holds -/

/-- A file of another content stands under the id of these bytes. -/
def Torn (s : Blobs) (bytes : Bytes) : Prop :=
  ∃ other, s.lookup (sha256 bytes) = some other ∧ sha256 other ≠ sha256 bytes

/-- No call that returns is made of bytes whose file is torn. -/
def Clear (w : World) : Act → Prop
  | .put_blob bytes _ => ¬ Torn sha256 w.blobs bytes
  | .crash _ _ => True

end Calls

/-! ## One call -/

section Laws
variable {sha256 : Bytes → String} {s : Blobs} {bytes other : Bytes} {cut : Option Cut} {id : String}
  {w : World}

theorem get_blob_ok : get_blob s id = .ok bytes ↔ s.lookup id = some bytes := by
  unfold get_blob
  cases s.lookup id <;> simp

/-- Where the file exists, nothing is written. -/
theorem put_blob_old (h : s.lookup (sha256 bytes) = some other) :
    put_blob sha256 s bytes cut = (.ok (sha256 bytes), s) := by
  simp [put_blob, h]

/-- Where it does not, what is written is the file, and a cut leaves no id. -/
theorem put_blob_new (h : s.lookup (sha256 bytes) = none) :
    put_blob sha256 s bytes cut =
      match cut with
      | none => (.ok (sha256 bytes), s.insert (sha256 bytes) bytes)
      | some .unmade => (.error (.Storage "write"), s)
      | some (.behind n) => (.error (.Storage "write"), s.insert (sha256 bytes) (bytes.take n)) := by
  rcases cut with _ | cut
  · simp [put_blob, write, h]
  · cases cut with
    | unmade => simp [put_blob, write, h]
    | behind n => simp [put_blob, write, h]

/-- A file that is there stays as it is. -/
theorem put_blob_keeps (h : s.lookup id = some other) :
    (put_blob sha256 s bytes cut).2.lookup id = some other := by
  rcases hfile : s.lookup (sha256 bytes) with _ | old
  · have hne : id ≠ sha256 bytes := by
      rintro rfl
      rw [hfile] at h
      cases h
    rw [put_blob_new hfile]
    rcases cut with _ | cut
    · rw [lookup_insert_if, if_neg hne, h]
    · cases cut with
      | unmade => exact h
      | behind n => rw [lookup_insert_if, if_neg hne, h]
  · rw [put_blob_old hfile]
    exact h

/-- A call that returns gives the hash, and its file is there: the bytes, or what was there. -/
theorem put_blob_ok (h : (put_blob sha256 s bytes cut).1 = .ok id) :
    id = sha256 bytes ∧ ∃ content, (put_blob sha256 s bytes cut).2.lookup id = some content ∧
      (content = bytes ∨ s.lookup (sha256 bytes) = some content) := by
  rcases hfile : s.lookup (sha256 bytes) with _ | old
  · rw [put_blob_new hfile] at h ⊢
    rcases cut with _ | cut
    · cases h
      exact ⟨rfl, bytes, by simp, .inl rfl⟩
    · cases cut <;> cases h
  · rw [put_blob_old hfile] at h ⊢
    cases h
    exact ⟨rfl, old, hfile, .inr rfl⟩

/-! ## Every run -/

/-- Each returned id has a file, of the content that it names. -/
def Sound (sha256 : Bytes → String) (w : World) : Prop :=
  ∀ id ∈ w.returned, ∃ bytes, w.blobs.lookup id = some bytes ∧ sha256 bytes = id

theorem Sound.genuine (h : Sound sha256 w) : Genuine sha256 w := by
  intro id hid bytes hbytes
  obtain ⟨found, hfound, hhash⟩ := h id hid
  rw [get_blob_ok, hfound, Option.some.injEq] at hbytes
  rw [← hbytes]
  exact hhash

theorem Sound.keeps (h : Sound sha256 w) (bytes : Bytes) (cut : Option Cut) :
    Sound sha256 { w with blobs := (put_blob sha256 w.blobs bytes cut).2 } := by
  intro id hid
  obtain ⟨found, hfound, hhash⟩ := h id hid
  exact ⟨found, put_blob_keeps hfound, hhash⟩

theorem Sound.step (h : Sound sha256 w) {act : Act} (hclear : Clear sha256 w act) :
    Sound sha256 (step sha256 w act) := by
  cases act with
  | crash bytes cut => exact h.keeps bytes (some cut)
  | put_blob bytes cut =>
    have hkeeps := h.keeps bytes cut
    unfold blobs.step
    dsimp only
    split
    · rename_i id blobs hrun
      rw [hrun] at hkeeps
      obtain ⟨rfl, content, hcontent, hwhich⟩ := put_blob_ok (congrArg Prod.fst hrun)
      rw [hrun] at hcontent
      refine List.forall_mem_cons.mpr ⟨⟨content, hcontent, ?_⟩, hkeeps⟩
      rcases hwhich with rfl | hstood
      · rfl
      · by_contra hother
        exact hclear ⟨content, hstood, hother⟩
    · rename_i hrun
      rw [hrun] at hkeeps
      exact hkeeps

/-- A call on a torn file gives an id that the file does not have. -/
theorem clear_of_keeps {act : Act} (h : Keeps sha256 w act) : Clear sha256 w act := by
  cases act with
  | crash bytes cut => trivial
  | put_blob bytes cut =>
    rintro ⟨other, hother, hne⟩
    have hrun := @put_blob_old sha256 w.blobs bytes other cut hother
    have hstep : step sha256 w (.put_blob bytes cut) =
        { w with returned := sha256 bytes :: w.returned } := by simp [step, hrun]
    unfold Keeps at h
    rw [hstep] at h
    exact hne (h (sha256 bytes) List.mem_cons_self other (get_blob_ok.mpr hother))

/-- Whatever is put, and wherever calls are cut off: the blobs are what their ids say in every state
of a run exactly if no call is made on a torn file. -/
theorem blobs_are_genuine_iff (sha256 : Bytes → String) (acts : List Act) :
    Along (step sha256) (Keeps sha256) World.new acts ↔
      Along (step sha256) (Clear sha256) World.new acts := by
  refine ⟨along_mono fun w act _ h => clear_of_keeps h, fun h => ?_⟩
  have hstart : Sound sha256 World.new := fun id hid => (List.not_mem_nil hid).elim
  exact along_of_invariant (fun w act hsound hclear => hsound.step hclear)
    (fun w act hsound hclear => (hsound.step hclear).genuine) hstart h

/-- A hash that gives each content a name of its own. -/
def spelled (bytes : Bytes) : String := String.ofList (bytes.map fun x => Char.ofNat x.toNat)

/-- A write that is cut off behind its first byte, and the same content again: the second call gives
the id, and the blob is the first byte. -/
theorem a_torn_blob_stays :
    ¬ (∀ acts, Along (step spelled) (Keeps spelled) World.new acts) ∧
      get_blob (run (step spelled) World.new
        [.crash [72, 105] (.behind 1), .put_blob [72, 105] none]).blobs "Hi" = .ok [72] := by
  have hread : get_blob (run (step spelled) World.new
      [.crash [72, 105] (.behind 1), .put_blob [72, 105] none]).blobs "Hi" = .ok [72] := by
    decide +kernel
  refine ⟨fun h => ?_, hread⟩
  obtain ⟨-, hkeeps, -⟩ := h [.crash [72, 105] (.behind 1), .put_blob [72, 105] none]
  have hhash := hkeeps "Hi" (by decide +kernel) [72] hread
  exact absurd hhash (by decide +kernel)

end Laws

end pai_storage.blobs
