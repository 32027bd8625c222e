-- The jobs of the media worker (pai-media's jobs.rs): a row is written before the work, and again
-- behind it. The law says when the row of a call that has returned tells how it went.
import PersonalAi.BlobStore
import PersonalAi.Lib.Json
import PersonalAi.Lib.Runs

open json pai_core runs table text
open pai_storage.blobs (Blobs Cut get_blob get_blob_ok put_blob put_blob_keeps put_blob_new put_blob_ok put_blob_old)

namespace pai_media.jobs

/-! ## Rows -/

inductive MediaJobKind
  | TextToImage
  | ImageEdit
  | Upscale
  | TextToVideo
  | TextToAudio
deriving DecidableEq

inductive JobState
  | Queued
  | Running
  | Done
  | Failed
  | Cancelled
deriving DecidableEq

def kind_str : MediaJobKind → String
  | .TextToImage => "text_to_image"
  | .ImageEdit => "image_edit"
  | .Upscale => "upscale"
  | .TextToVideo => "text_to_video"
  | .TextToAudio => "text_to_audio"

def state_str : JobState → String
  | .Queued => "queued"
  | .Running => "running"
  | .Done => "done"
  | .Failed => "failed"
  | .Cancelled => "cancelled"

/-- A job. Its id and its times are their texts. -/
structure MediaJob where
  id : String
  kind : MediaJobKind
  prompt : String
  placement_device : Option DeviceId
  state : JobState
  created_at : String
  result_blob : Option String

structure Row where
  kind : String
  prompt : String
  params_json : Option String
  state : String
  requester : Option String
  worker : Option String
  result_blob : Option String
  error : Option String
  created_at : String
  updated_at : String

/-- What of the store the jobs use: their table, by the id, and the blobs. -/
structure Store where
  jobs : Table String Row
  blobs : Blobs

/-- A new row, or the state and the result of one that is there. -/
def record (s : Store) (now : String) (job : MediaJob) (params_json : Option String)
    (requester : Option DeviceId) (err : Option String) : Store :=
  let fresh : Row :=
    { kind := kind_str job.kind, prompt := job.prompt, params_json := params_json,
      state := state_str job.state, requester := requester.map DeviceId.to_string,
      worker := job.placement_device.map DeviceId.to_string, result_blob := job.result_blob,
      error := err, created_at := job.created_at, updated_at := now }
  let row :=
    match s.jobs.lookup job.id with
    | none => fresh
    | some old =>
      { old with
        state := fresh.state
        worker := fresh.worker
        result_blob := fresh.result_blob
        error := fresh.error
        updated_at := now }
  { s with jobs := s.jobs.insert job.id row }

def new_job (id now : String) (kind : MediaJobKind) (prompt : String) : MediaJob :=
  { id := id, kind := kind, prompt := prompt, placement_device := none, state := .Queued,
    created_at := now, result_blob := none }

/-! ## The worker -/

def kind_from_str (s : String) : Except Error MediaJobKind :=
  if s = "text_to_audio" ∨ s = "audio" then .ok .TextToAudio
  else if s = "text_to_image" ∨ s = "image" then .ok .TextToImage
  else if s = "image_edit" then .ok .ImageEdit
  else if s = "upscale" then .ok .Upscale
  else if s = "text_to_video" ∨ s = "video" then .ok .TextToVideo
  else .error (.InvalidInput ("media-run: unknown kind '" ++ s ++ "'"))

structure Req where
  prompt : String
  kind : Option String
  duration_seconds : Option UInt32
  width : Option UInt32
  height : Option UInt32
  input_b64 : Option String
  input_mime : Option String

/-- What stands outside: the readers of JSON and base64, the servers that generate, and the hash. -/
structure Host where
  from_slice : Bytes → Except String Req
  decode : String → Except String Bytes
  encode : Bytes → String
  detect_for_kind : MediaJobKind → Except Error Unit
  generate : MediaJobKind → String → Nat → Nat × Nat → Option (Bytes × String) →
    Except Error (Bytes × String)
  sha256 : Bytes → String

/-- One call: the id that it draws, the times that it reads, and where the write of its blob is cut
off, if it is. -/
structure Call where
  id : String
  worker : DeviceId
  created : String
  started : String
  ended : String
  cut : Option Cut

/-- What a request asks for. -/
structure Work where
  kind : MediaJobKind
  prompt : String
  secs : Nat
  size : Nat × Nat
  input : Option (Bytes × String)

section Worker
variable (host : Host)

def read_input (req : Req) : Except Error (Option (Bytes × String)) :=
  match req.input_b64 with
  | none => .ok none
  | some b64 =>
    match host.decode b64 with
    | .error e => .error (.InvalidInput ("media-run input_b64: " ++ e))
    | .ok bytes => .ok (some (bytes, req.input_mime.getD "image/png"))

/-- The part of `media_run_op` in front of the first row. -/
def prepare (payload : Bytes) : Except Error Work := do
  let req ←
    match host.from_slice payload with
    | .ok req => pure req
    | .error e => throw (.InvalidInput ("media-run payload JSON: " ++ e))
  if trim req.prompt.toList = [] then throw (.InvalidInput "media-run: empty prompt")
  let kind ←
    match req.kind with
    | some s => kind_from_str s
    | none => pure .TextToAudio
  let secs := min (max (req.duration_seconds.getD 10).toNat 1) 300
  let size := ((req.width.getD 512).toNat, (req.height.getD 512).toNat)
  let input ← read_input host req
  host.detect_for_kind kind
  pure { kind := kind, prompt := req.prompt, secs := secs, size := size, input := input }

def Work.params (work : Work) : String :=
  (Value.object
    [("duration_seconds", .number (.PosInt work.secs)), ("has_input", .bool work.input.isSome),
      ("kind", .string (kind_str work.kind)),
      ("size", .array [.number (.PosInt work.size.1), .number (.PosInt work.size.2)])]).to_string

/-- The answer to a request. Sound stands under its first name, too. -/
def reply (call : Call) (work : Work) (bytes : Bytes) (mime blob : String) : Bytes :=
  let result := Value.string (host.encode bytes)
  utf8 (Value.object
    ((if work.kind = .TextToAudio then [("audio_b64", result)] else []) ++
      [("blob", .string blob), ("bytes", .number (.PosInt bytes.length)),
        ("job_id", .string call.id), ("mime", .string mime), ("result_b64", result)])).to_string

/-- The part of `media_run_op` from the first row on. -/
def run_job (call : Call) (s : Store) (work : Work) : Except Error Bytes × Store :=
  let job :=
    { new_job call.id call.created work.kind work.prompt with
      state := .Running
      placement_device := some call.worker }
  let s := record s call.started job (some work.params) none none
  match host.generate work.kind work.prompt work.secs work.size work.input with
  | .ok (bytes, mime) =>
    match put_blob host.sha256 s.blobs bytes call.cut with
    | (.error e, blobs) => (.error e, { s with blobs := blobs })
    | (.ok blob, blobs) =>
      let job := { job with state := .Done, result_blob := some blob }
      (.ok (reply host call work bytes mime blob),
        record { s with blobs := blobs } call.ended job (some work.params) none none)
  | .error e =>
    let job := { job with state := .Failed }
    (.error e, record s call.ended job (some work.params) none (some e.to_string))

def media_run_op (call : Call) (s : Store) (payload : Bytes) : Except Error Bytes × Store :=
  match prepare host payload with
  | .error e => (.error e, s)
  | .ok work => run_job host call s work

end Worker

/-! ## What is wanted -/

/-- The row of a job that has ended tells how: with a blob that is there, or with the error. -/
def Settled (s : Store) (id : String) (result : Except Error Bytes) : Prop :=
  ∃ row, s.jobs.lookup id = some row ∧
    match result with
    | .ok _ => row.state = state_str .Done ∧
        ∃ blob content, row.result_blob = some blob ∧ get_blob s.blobs blob = .ok content
    | .error _ => row.state = state_str .Failed ∧ row.error.isSome = true

/-! ## When it holds -/

/-- A result that is generated is stored: its blob is there already, or its write is not cut off. -/
def Stores (host : Host) (call : Call) (s : Store) (work : Work) : Prop :=
  ∀ bytes mime, host.generate work.kind work.prompt work.secs work.size work.input = .ok (bytes, mime) →
    s.blobs.lookup (host.sha256 bytes) = none → call.cut = none

/-! ## One record -/

section Laws
variable {host : Host} {call : Call} {s : Store} {job : MediaJob} {now : String}
  {params err : Option String} {requester : Option DeviceId} {work : Work} {id : String}

/-- Behind a record, the row has the state and the result of the job. -/
theorem record_row : ∃ row, (record s now job params requester err).jobs.lookup job.id = some row ∧
    row.state = state_str job.state ∧ row.result_blob = job.result_blob ∧ row.error = err := by
  refine ⟨_, AList.lookup_insert _, ?_⟩
  cases s.jobs.lookup job.id with
  | none => exact ⟨rfl, rfl, rfl⟩
  | some old => exact ⟨rfl, rfl, rfl⟩

/-- No other row changes. -/
theorem record_other (h : id ≠ job.id) :
    (record s now job params requester err).jobs.lookup id = s.jobs.lookup id :=
  AList.lookup_insert_ne h

theorem record_blobs : (record s now job params requester err).blobs = s.blobs := rfl

/-! ## One call -/

/-- Where nothing is generated, the row says why. -/
theorem run_job_failed {e : Error}
    (h : host.generate work.kind work.prompt work.secs work.size work.input = .error e) :
    Settled (run_job host call s work).2 call.id (run_job host call s work).1 := by
  unfold run_job
  dsimp only
  rw [h]
  obtain ⟨row, hrow, hstate, -, herr⟩ := record_row
  refine ⟨row, hrow, hstate, ?_⟩
  rw [herr]
  rfl

/-- Where the result is stored, the row has its blob. -/
theorem run_job_stored {bytes : Bytes} {mime blob : String} {blobs : Blobs}
    (h : host.generate work.kind work.prompt work.secs work.size work.input = .ok (bytes, mime))
    (hput : put_blob host.sha256 s.blobs bytes call.cut = (.ok blob, blobs)) :
    Settled (run_job host call s work).2 call.id (run_job host call s work).1 := by
  obtain ⟨-, content, hcontent, -⟩ := put_blob_ok (congrArg Prod.fst hput)
  rw [hput] at hcontent
  unfold run_job
  dsimp only
  rw [h]
  dsimp only
  rw [record_blobs, hput]
  dsimp only
  obtain ⟨row, hrow, hstate, hblob, -⟩ := record_row
  exact ⟨row, hrow, hstate, blob, content, hblob, get_blob_ok.mpr hcontent⟩

/-- Where it is not, the row is left as it was in front of the work. -/
theorem run_job_unstored {bytes : Bytes} {mime : String} {e : Error} {blobs : Blobs}
    (h : host.generate work.kind work.prompt work.secs work.size work.input = .ok (bytes, mime))
    (hput : put_blob host.sha256 s.blobs bytes call.cut = (.error e, blobs)) :
    (run_job host call s work).1 = .error e ∧ ∃ row,
      (run_job host call s work).2.jobs.lookup call.id = some row ∧ row.state = state_str .Running := by
  unfold run_job
  dsimp only
  rw [h]
  dsimp only
  rw [record_blobs, hput]
  dsimp only
  obtain ⟨row, hrow, hstate, -, -⟩ := record_row
  exact ⟨rfl, row, hrow, hstate⟩

/-- A write that is cut off gives an error. -/
theorem put_blob_cut {bytes : Bytes} (hnew : s.blobs.lookup (host.sha256 bytes) = none)
    (hcut : call.cut ≠ none) : ∃ e blobs, put_blob host.sha256 s.blobs bytes call.cut = (.error e, blobs) := by
  rw [put_blob_new hnew]
  rcases hwrite : call.cut with _ | cut
  · exact (hcut hwrite).elim
  · cases cut with
    | unmade => exact ⟨_, _, rfl⟩
    | behind n => exact ⟨_, _, rfl⟩

theorem put_blob_stores {bytes : Bytes}
    (h : s.blobs.lookup (host.sha256 bytes) = none → call.cut = none) :
    ∃ blob blobs, put_blob host.sha256 s.blobs bytes call.cut = (.ok blob, blobs) := by
  rcases hfile : s.blobs.lookup (host.sha256 bytes) with _ | old
  · rw [put_blob_new hfile, h hfile]
    exact ⟨_, _, rfl⟩
  · rw [put_blob_old hfile]
    exact ⟨_, _, rfl⟩

/-- A payload that is refused leaves no row. -/
theorem refused_unchanged {payload : Bytes} {e : Error} (h : prepare host payload = .error e) :
    media_run_op host call s payload = (.error e, s) := by
  rw [media_run_op, h]

theorem run_job_settled (h : Stores host call s work) :
    Settled (run_job host call s work).2 call.id (run_job host call s work).1 := by
  cases hgenerate : host.generate work.kind work.prompt work.secs work.size work.input with
  | error e => exact run_job_failed hgenerate
  | ok result =>
    obtain ⟨bytes, mime⟩ := result
    obtain ⟨blob, blobs, hput⟩ := put_blob_stores (h bytes mime hgenerate)
    exact run_job_stored hgenerate hput

theorem stores_of_settled
    (h : Settled (run_job host call s work).2 call.id (run_job host call s work).1) :
    Stores host call s work := by
  intro bytes mime hgenerate hnew
  by_contra hcut
  obtain ⟨e, blobs, hput⟩ := put_blob_cut hnew hcut
  obtain ⟨hresult, row, hrow, hstate⟩ := run_job_unstored hgenerate hput
  obtain ⟨found, hfound, htells⟩ := h
  rw [hresult] at htells
  obtain rfl : row = found := Option.some.inj (hrow.symm.trans hfound)
  exact absurd (hstate.symm.trans htells.1) (by decide)

/-! ## Every call -/

/-- Of every call that has got to its first row: the row tells how the call went exactly if a
generated result could be stored. -/
theorem job_is_settled_iff {payload : Bytes} (h : prepare host payload = .ok work) :
    Settled (media_run_op host call s payload).2 call.id (media_run_op host call s payload).1 ↔
      Stores host call s work := by
  rw [media_run_op, h]
  exact ⟨stores_of_settled, run_job_settled⟩

end Laws

/-! ## A disk that is full -/

def studio : Host where
  from_slice _ := .ok
    { prompt := "rain on a roof", kind := none, duration_seconds := some 4, width := none,
      height := none, input_b64 := none, input_mime := none }
  decode _ := .ok []
  encode _ := ""
  detect_for_kind _ := .ok ()
  generate _ _ _ _ _ := .ok ([82, 73, 70, 70], "audio/wav")
  sha256 bytes := String.ofList (bytes.map fun x => Char.ofNat x.toNat)

def rain : Work :=
  { kind := .TextToAudio, prompt := "rain on a roof", secs := 4, size := (512, 512), input := none }

def call_with (cut : Option Cut) : Call :=
  { id := "j1", worker := ⟨"desk"⟩, created := "10:00", started := "10:00", ended := "10:01",
    cut := cut }

def Store.new : Store := { jobs := ∅, blobs := ∅ }

theorem a_stored_result_is_told :
    Settled (media_run_op studio (call_with none) Store.new []).2 "j1"
      (media_run_op studio (call_with none) Store.new []).1 :=
  (@job_is_settled_iff studio (call_with none) Store.new rain [] rfl).mpr fun _ _ _ _ => rfl

/-- The result cannot be written: the caller gets an error, and the job runs for ever. -/
theorem a_full_disk_hangs_a_job :
    ¬ ∀ call s payload work, prepare studio payload = .ok work →
      Settled (media_run_op studio call s payload).2 call.id (media_run_op studio call s payload).1 := by
  intro hall
  obtain ⟨row, hrow, htells⟩ := hall (call_with (some .unmade)) Store.new [] rain rfl
  obtain ⟨hresult, found, hfound, hstate⟩ :=
    @run_job_unstored studio (call_with (some .unmade)) Store.new rain [82, 73, 70, 70] "audio/wav"
      (.Storage "write") ∅ rfl rfl
  obtain rfl : row = found := Option.some.inj (hrow.symm.trans hfound)
  change (media_run_op studio (call_with (some .unmade)) Store.new []).1 = _ at hresult
  rw [hresult] at htells
  exact absurd (hstate.symm.trans htells.1) (by decide)

/-! ## Every run -/

section Runs
variable {host : Host} {call : Call} {s : Store} {work : Work} {id : String}

/-- A row that tells how its job went. -/
def Tells (blobs : Blobs) (row : Row) : Prop :=
  (row.state = state_str .Done ∧
    ∃ blob content, row.result_blob = some blob ∧ get_blob blobs blob = .ok content) ∨
  (row.state = state_str .Failed ∧ row.error.isSome = true)

/-- No job hangs: every row tells how its job went. -/
def NoneHangs (s : Store) : Prop := ∀ id row, s.jobs.lookup id = some row → Tells s.blobs row

theorem Settled.tells {result : Except Error Bytes} (h : Settled s id result) {row : Row}
    (hrow : s.jobs.lookup id = some row) : Tells s.blobs row := by
  obtain ⟨found, hfound, htells⟩ := h
  obtain rfl : row = found := Option.some.inj (hrow.symm.trans hfound)
  cases result with
  | ok reply => exact .inl htells
  | error e => exact .inr htells

/-- A call changes no other row, and takes no blob away. -/
theorem run_job_frame :
    (∀ id ≠ call.id, (run_job host call s work).2.jobs.lookup id = s.jobs.lookup id) ∧
      ∀ blob content, s.blobs.lookup blob = some content →
        (run_job host call s work).2.blobs.lookup blob = some content := by
  unfold run_job
  dsimp only
  split
  · rename_i bytes mime hgenerate
    rw [record_blobs]
    have hkeeps : ∀ blob content, s.blobs.lookup blob = some content →
        (put_blob host.sha256 s.blobs bytes call.cut).2.lookup blob = some content :=
      fun blob content h => put_blob_keeps h
    split
    · rename_i e blobs hput
      rw [hput] at hkeeps
      exact ⟨fun id hid => record_other hid, hkeeps⟩
    · rename_i blob blobs hput
      rw [hput] at hkeeps
      exact ⟨fun id hid => (record_other hid).trans (record_other hid), hkeeps⟩
  · exact ⟨fun id hid => (record_other hid).trans (record_other hid), fun blob content h => h⟩

theorem Tells.later {blobs : Blobs} {row : Row} (h : Tells s.blobs row)
    (hkeeps : ∀ blob content, s.blobs.lookup blob = some content → blobs.lookup blob = some content) :
    Tells blobs row := by
  rcases h with ⟨hstate, blob, content, hblob, hcontent⟩ | hfailed
  · exact .inl ⟨hstate, blob, content, hblob, get_blob_ok.mpr (hkeeps _ _ (get_blob_ok.mp hcontent))⟩
  · exact .inr hfailed

theorem run_job_none_hangs (h : NoneHangs s) (hstores : Stores host call s work) :
    NoneHangs (run_job host call s work).2 := by
  obtain ⟨hother, hkeeps⟩ := @run_job_frame host call s work
  intro id row hrow
  by_cases hid : id = call.id
  · exact (run_job_settled hstores).tells (hid ▸ hrow)
  · rw [hother id hid] at hrow
    exact (h id row hrow).later hkeeps

end Runs

/-- The calls of a worker, each with its payload, one after the other. -/
def step (host : Host) (s : Store) (act : Call × Bytes) : Store := (media_run_op host act.1 s act.2).2

/-- The result of a call that gets to its work can be stored. -/
def Clear (host : Host) (s : Store) (act : Call × Bytes) : Prop :=
  ∀ work, prepare host act.2 = .ok work → Stores host act.1 s work

/-- In every run in which results can be stored, no job hangs. -/
theorem no_job_hangs (host : Host) {acts : List (Call × Bytes)}
    (hclear : Along (step host) (Clear host) Store.new acts) :
    NoneHangs (run (step host) Store.new acts) := by
  refine invariant ?_ (fun id row hrow => by cases hrow) hclear
  intro s act hnone hstores
  unfold step media_run_op
  split
  · exact hnone
  · rename_i work hwork
    exact run_job_none_hangs hnone (hstores work hwork)

end pai_media.jobs
