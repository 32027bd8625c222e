-- The text of documents (pai-documents): how a text is cut into sections, at its paragraphs, and
-- what each format gives for one.
import PersonalAi.Core
import PersonalAi.Lib.Framing
import PersonalAi.Lib.Search

open pai_core text framing

namespace pai_documents

abbrev Text := List Char

def byte_len (s : Text) : Nat := (encode s).length

@[simp] theorem byte_len_nil : byte_len [] = 0 := rfl

@[simp] theorem byte_len_append (a b : Text) : byte_len (a ++ b) = byte_len a + byte_len b := by
  simp [byte_len]

/-! ## Paragraphs -/

def blank : Text := ['\n', '\n']

/-- `text.split("\n\n")`. -/
def split_paragraphs : Text → List Text
  | '\n' :: '\n' :: rest => [] :: split_paragraphs rest
  | c :: rest =>
    match split_paragraphs rest with
    | para :: paras => (c :: para) :: paras
    | [] => [[c]]
  | [] => [[]]

/-- Paragraphs, each with a blank line behind it. -/
def render (paras : List Text) : Text := paras.flatMap fun para => para ++ blank

@[simp] theorem render_nil : render [] = [] := rfl

@[simp] theorem render_append (a b : List Text) : render (a ++ b) = render a ++ render b :=
  List.flatMap_append

theorem render_singleton (para : Text) : render [para] = para ++ blank := by
  simp [render]

theorem render_eq_nil {paras : List Text} : render paras = [] ↔ paras = [] := by
  cases paras with
  | nil => simp
  | cons para paras => simp [render, blank]

theorem split_paragraphs_ne_nil (text : Text) : split_paragraphs text ≠ [] := by
  fun_cases split_paragraphs text <;> simp

/-- The paragraphs are the text but for the blank lines between them. -/
theorem join_paragraphs (text : Text) : render (split_paragraphs text) = text ++ blank := by
  fun_induction split_paragraphs text with
  | case1 rest ih => simp_all [render, blank]
  | case2 c rest hc para paras h ih => simp_all [render]
  | case3 c rest hc h ih => exact absurd h (split_paragraphs_ne_nil rest)
  | case4 => rfl

/-- The first paragraph begins as the text does. -/
theorem head_paragraph {text para : Text} {paras : List Text}
    (h : split_paragraphs text = para :: paras) {c : Char} {rest : Text} (hpara : para = c :: rest) :
    ∃ more, text = c :: more := by
  have hjoin := join_paragraphs text
  rw [h, hpara] at hjoin
  rcases text with _ | ⟨d, more⟩
  · cases h
    cases hpara
  · have hhead := congrArg List.head? hjoin
    cases hhead
    exact ⟨more, rfl⟩

/-- No paragraph has a blank line in it. -/
theorem no_blank_line (text : Text) : ∀ para ∈ split_paragraphs text, ¬ blank <:+: para := by
  have hnil : ¬ blank <:+: [] := by simp [blank]
  fun_induction split_paragraphs text with
  | case1 rest ih => exact List.forall_mem_cons.mpr ⟨hnil, ih⟩
  | case2 c rest hc para paras h ih =>
    rw [h] at ih
    obtain ⟨hpara, hparas⟩ := List.forall_mem_cons.mp ih
    refine List.forall_mem_cons.mpr ⟨fun hin => ?_, hparas⟩
    rcases List.infix_cons_iff.mp hin with hhere | hthere
    · obtain ⟨hnewline, hnext⟩ := List.cons_prefix_cons.mp hhere
      obtain ⟨more, hmore⟩ := hnext
      obtain ⟨tail, htail⟩ := head_paragraph h hmore.symm
      exact hc tail hnewline.symm htail
    · exact hpara hthere
  | case3 c rest hc h ih => exact absurd h (split_paragraphs_ne_nil rest)
  | case4 => exact List.forall_mem_cons.mpr ⟨hnil, by simp⟩

/-! ## Chunks -/

/-- The loop of `chunk`: the chunks, and what has been gathered for the next one. -/
def chunk_step (size : Nat) (s : List Text × Text) (para : Text) : List Text × Text :=
  let (chunks, cur) :=
    if byte_len s.2 + byte_len para > size && !s.2.isEmpty then (s.1 ++ [s.2], []) else s
  (chunks, cur ++ para ++ blank)

def chunk (text : Text) (size : Nat) : List Text :=
  let (chunks, cur) := (split_paragraphs text).foldl (chunk_step size) ([], [])
  if (trim cur).isEmpty then chunks else chunks ++ [cur]

/-- A chunk of more than the size and its blank line is one paragraph. -/
def Fits (size : Nat) (group : List Text) : Prop :=
  size + 2 < byte_len (render group) → ∃ para, group = [para] ∧ para ≠ []

/-- The loop has put the paragraphs into groups, of which the last is gathered. -/
structure Gathered (size : Nat) (paras : List Text) (groups : List (List Text)) (last : List Text)
    (s : List Text × Text) : Prop where
  all : groups.flatten ++ last = paras
  chunks : s.1 = groups.map render
  cur : s.2 = render last
  full : ∀ g ∈ groups, g ≠ []
  fits : ∀ g ∈ groups, Fits size g
  last_fits : Fits size last

theorem fits_one (size : Nat) (para : Text) : Fits size [para] := by
  intro hlong
  refine ⟨para, rfl, ?_⟩
  rintro rfl
  rw [render_singleton, List.nil_append] at hlong
  have : byte_len blank = 2 := by decide
  omega

theorem chunk_step_gathered {size : Nat} {paras : List Text} {groups : List (List Text)}
    {last : List Text} {s : List Text × Text} (h : Gathered size paras groups last s) (para : Text) :
    ∃ groups' last', Gathered size (paras ++ [para]) groups' last' (chunk_step size s para) := by
  obtain ⟨hall, hchunks, hcur, hfull, hfits, hlast⟩ := h
  unfold chunk_step
  by_cases hempty : last = []
  · -- nothing is gathered, and the paragraph begins the next chunk
    subst hempty
    rw [render_nil] at hcur
    refine ⟨groups, [para], ?_⟩
    rw [hcur]
    simp only [List.isEmpty_nil, Bool.not_true, Bool.and_false, Bool.false_eq_true, if_false]
    refine ⟨?_, hchunks, ?_, hfull, hfits, fits_one size para⟩
    · simpa using congrArg (· ++ [para]) hall
    · rw [hcur, render_singleton, List.nil_append]
  · have hne : s.2 ≠ [] := by
      rw [hcur]
      exact fun h => hempty (render_eq_nil.mp h)
    have hisEmpty : (!s.2.isEmpty) = true := by simpa using hne
    rw [hisEmpty, Bool.and_true]
    by_cases hlong : byte_len s.2 + byte_len para > size
    · rw [decide_eq_true hlong]
      refine ⟨groups ++ [last], [para], ?_⟩
      refine ⟨?_, ?_, ?_, ?_, ?_, fits_one size para⟩
      · simp [hall]
      · simp [hchunks, hcur]
      · simp [render_singleton]
      · intro g hg
        rcases List.mem_append.mp hg with hg | hg
        · exact hfull g hg
        · rw [List.mem_singleton.mp hg]
          exact hempty
      · intro g hg
        rcases List.mem_append.mp hg with hg | hg
        · exact hfits g hg
        · rw [List.mem_singleton.mp hg]
          exact hlast
    · rw [decide_eq_false hlong]
      refine ⟨groups, last ++ [para], ?_⟩
      refine ⟨?_, hchunks, ?_, hfull, hfits, ?_⟩
      · rw [← hall, List.append_assoc]
      · simp [hcur, render_singleton]
      · intro hover
        rw [render_append, render_singleton, byte_len_append, byte_len_append, ← hcur] at hover
        have : byte_len blank = 2 := by decide
        omega

theorem chunk_loop_gathered (size : Nat) (paras : List Text) :
    ∃ groups last, Gathered size paras groups last (paras.foldl (chunk_step size) ([], [])) := by
  induction paras using List.reverseRecOn with
  | nil => exact ⟨[], [], rfl, rfl, rfl, by simp, by simp, by simp [Fits]⟩
  | append_singleton paras para ih =>
    obtain ⟨groups, last, h⟩ := ih
    rw [List.foldl_append]
    exact chunk_step_gathered h para

/-- The chunks are the paragraphs in order, in groups, each with a blank line behind it, but for a
last group of whitespace; and a long chunk is one paragraph. -/
theorem chunk_lossless (text : Text) (size : Nat) :
    ∃ (groups : List (List Text)) (dropped : List Text), groups.flatten ++ dropped = split_paragraphs text ∧
      chunk text size = groups.map render ∧
      (chunk text size).flatten ++ render dropped = render (split_paragraphs text) ∧
      trim (render dropped) = [] ∧
      ∀ g ∈ groups, g ≠ [] ∧
        (size + 2 < byte_len (render g) → ∃ para, g = [para] ∧ para ≠ []) := by
  obtain ⟨groups, last, hall, hchunks, hcur, hfull, hfits, hlast⟩ :=
    chunk_loop_gathered size (split_paragraphs text)
  have hflat : ∀ gs : List (List Text), (gs.map render).flatten = render gs.flatten := by
    intro gs
    induction gs with
    | nil => rfl
    | cons g gs ih => rw [List.map_cons, List.flatten_cons, List.flatten_cons, render_append, ih]
  unfold chunk
  dsimp only
  rw [hchunks, hcur]
  split
  · rename_i hspace
    refine ⟨groups, last, hall, rfl, ?_, List.isEmpty_iff.mp hspace,
      fun g hg => ⟨hfull g hg, hfits g hg⟩⟩
    rw [hflat, ← render_append, hall]
  · rename_i htext
    have hne : last ≠ [] := by
      rintro rfl
      exact htext rfl
    refine ⟨groups ++ [last], [], ?_, ?_, ?_, rfl, ?_⟩
    · simpa using hall
    · simp
    · rw [← hall]
      simp [hflat]
    · intro g hg
      rcases List.mem_append.mp hg with hg | hg
      · exact ⟨hfull g hg, hfits g hg⟩
      · rw [List.mem_singleton.mp hg]
        exact ⟨hne, hlast⟩

/-! ## Formats -/

structure Section where
  index : UInt32
  heading : Option String
  text : Text
  page : Option UInt32
deriving DecidableEq

/-- An event of an XML reader, with the bytes of a name, or a text that can be decoded. -/
inductive Event
  | Start (name : Bytes)
  | End (name : Bytes)
  | Empty (name : Bytes)
  | Text (decoded : Option Text)
  | Other

/-- The libraries for formats: the pages of a PDF, the members of a ZIP archive as texts, and the
events of an XML text up to its end or to an error. -/
structure Formats where
  extract_text_by_pages : Bytes → Except String (List Text)
  zip_archive : Bytes → Except String (Text → Except String Text)
  read_events : Text → List Event

def from_utf8_lossy_text (bytes : Bytes) : Text := (from_utf8 (from_utf8_lossy bytes)).getD []

/-- The chunks of a text behind the sections that there are. -/
def push_chunks (page : Option UInt32) (sections : List Section) (text : Text) : List Section :=
  (chunk text 1500).foldl (fun sections t =>
    sections ++ [{ index := UInt32.ofNat sections.length, heading := none, text := t, page }]) sections

def TextExtractor.extract (bytes : Bytes) : Except Error (List Section) :=
  .ok (push_chunks none [] (from_utf8_lossy_text bytes))

section Extractors
variable (formats : Formats)

def PdfExtractor.extract (bytes : Bytes) : Except Error (List Section) :=
  match formats.extract_text_by_pages bytes with
  | .error e => .error (.InvalidInput ("pdf: " ++ e))
  | .ok pages =>
    .ok (pages.zipIdx.foldl (fun sections p => push_chunks (some (UInt32.ofNat p.2 + 1)) sections p.1) [])

/-- A member of an archive. -/
def zip_text (archive : Text → Except String Text) (name : Text) : Except Error Text :=
  match archive name with
  | .ok s => .ok s
  | .error e => .error (.InvalidInput (String.ofList name ++ ": " ++ e))

def attr_value (xml : Text) (attr : String) : Option Text :=
  (split_once_str ((" " ++ attr ++ "=\"").toList) xml).bind fun p => (split_once '"' p.2).map Prod.fst

/-- The tags that begin with a text, up to their bracket. -/
def tags (start : Text) (hstart : start ≠ []) (rest : Text) : List Text :=
  match _h : split_once_str start rest with
  | some (_, behind) =>
    (start ++ behind.takeWhile (· ≠ '>')) :: tags start hstart (behind.dropWhile (· ≠ '>'))
  | none => []
termination_by rest.length
decreasing_by
  obtain ⟨-, hall⟩ := split_once_str_append _h []
  have hdrop := List.length_dropWhile_le (· ≠ '>') behind
  have hpos := List.length_pos_iff.mpr hstart
  rw [hall]
  simp only [List.length_append]
  omega

theorem item_tag : "<item ".toList ≠ [] := by decide

theorem itemref_tag : "<itemref ".toList ≠ [] := by decide

/-- The last item of an id counts. -/
def manifest_hrefs (opf : Text) : List (Text × Text) :=
  ((tags "<item ".toList item_tag opf).filterMap fun tag =>
    match attr_value tag "id", attr_value tag "href" with
    | some id, some href => some (id, href)
    | _, _ => none).reverse

def spine_idrefs (opf : Text) : List Text :=
  (tags "<itemref ".toList itemref_tag opf).filterMap fun tag => attr_value tag "idref"

/-- A name without its namespace. -/
def local_name (q : Bytes) : Bytes :=
  match q.dropWhile (· ≠ 0x3A) with
  | _ :: rest => rest
  | [] => q

def named (names : List String) (name : Bytes) : Bool := names.any fun n => utf8 n == local_name name

def xhtml_event (s : Text × Nat) : Event → Text × Nat
  | .Start name =>
    if named ["script", "style", "head"] name then (s.1, s.2 + 1)
    else if named ["p", "div", "section", "article", "h1", "h2", "h3", "h4", "h5", "h6", "li", "tr",
      "blockquote"] name then (s.1 ++ blank, s.2)
    else if named ["br"] name then (s.1 ++ ['\n'], s.2)
    else s
  | .End name =>
    if named ["script", "style", "head"] name then (s.1, s.2 - 1)
    else if named ["p", "div", "li", "tr", "blockquote"] name then (s.1 ++ blank, s.2)
    else s
  | .Empty name => if named ["br"] name then (s.1 ++ ['\n'], s.2) else s
  | .Text (some t) => if s.2 = 0 then (s.1 ++ t, s.2) else s
  | _ => s

def xhtml_to_text (xhtml : Text) : Text := ((formats.read_events xhtml).foldl xhtml_event ([], 0)).1

def docx_event (s : Text × Bool) : Event → Text × Bool
  | .Start name | .Empty name =>
    if named ["p"] name then
      if !s.1.isEmpty && !blank.isSuffixOf s.1 then (s.1 ++ blank, s.2) else s
    else if named ["t"] name then (s.1, true)
    else if named ["tab"] name then (s.1 ++ ['\t'], s.2)
    else if named ["br", "cr"] name then (s.1 ++ ['\n'], s.2)
    else s
  | .End name => if named ["t"] name then (s.1, false) else s
  | .Text (some t) => if s.2 then (s.1 ++ t, s.2) else s
  | _ => s

def docx_text (xml : Text) : Text := ((formats.read_events xml).foldl docx_event ([], false)).1

/-- A chapter of the spine that cannot be read is left out. -/
def EpubExtractor.chapter (archive : Text → Except String Text) (opf base : Text)
    (sections : List Section) (id : Text) : List Section :=
  match (manifest_hrefs opf).lookup id with
  | none => sections
  | some href =>
    match zip_text archive (if base = [] then href else base ++ '/' :: href) with
    | .error _ => sections
    | .ok xhtml => push_chunks none sections (xhtml_to_text formats xhtml)

def EpubExtractor.extract (bytes : Bytes) : Except Error (List Section) :=
  match formats.zip_archive bytes with
  | .error e => .error (.InvalidInput ("epub: " ++ e))
  | .ok archive =>
    match zip_text archive "META-INF/container.xml".toList with
    | .error e => .error e
    | .ok container =>
      match attr_value container "full-path" with
      | none => .error (.InvalidInput "epub: no rootfile")
      | some opf_path =>
        match zip_text archive opf_path with
        | .error e => .error e
        | .ok opf =>
          let base := ((rsplit_once '/' opf_path).map Prod.fst).getD []
          .ok ((spine_idrefs opf).foldl (EpubExtractor.chapter formats archive opf base) [])

def DocxExtractor.extract (bytes : Bytes) : Except Error (List Section) :=
  match formats.zip_archive bytes with
  | .error e => .error (.InvalidInput ("docx: " ++ e))
  | .ok archive =>
    match zip_text archive "word/document.xml".toList with
    | .error e => .error e
    | .ok xml => .ok (push_chunks none [] (docx_text formats xml))

/-- What stands outside of the tags. -/
def strip_html (s : Text) : Text :=
  (s.foldl (fun (acc : Text × Bool) c =>
    if c = '<' then (acc.1, true)
    else if c = '>' then (acc.1, false)
    else if acc.2 then acc
    else (acc.1 ++ [c], acc.2)) ([], false)).1

/-- The sections of a document, by its MIME type. An unknown type has none. -/
def extract (mime : String) (bytes : Bytes) : Except Error (List Section) :=
  match mime with
  | "text/plain" | "text/markdown" => TextExtractor.extract bytes
  | "text/html" => TextExtractor.extract (encode (strip_html (from_utf8_lossy_text bytes)))
  | "application/pdf" => PdfExtractor.extract formats bytes
  | "application/epub+zip" => EpubExtractor.extract formats bytes
  | "application/vnd.openxmlformats-officedocument.wordprocessingml.document" =>
    DocxExtractor.extract formats bytes
  | _ => .ok []

end Extractors

end pai_documents
