-- What the gateway puts into the pages of an app (pai-apps serve.rs): the base tag is set to the
-- mount of the app, and a link to the manifest and a script for the worker are added where they miss.
import PersonalAi.AppRegistry
import PersonalAi.CgiEnvelope
import PersonalAi.Lib.Json
import PersonalAi.Lib.Search
import PersonalAi.PlacementGates

open text
open pai_cli (ServeRequest)

namespace pai_apps.serve

/-! ## The source -/

/-- Where the gateway mounts an app: at the root of a host of its own, or below the path of its id. -/
def mount (named : Bool) (id : String) : String := if named then "" else "/apps/" ++ id

def BASE_TAGS : List String := ["<base href=\"/\">", "<base href='/'>"]

def base_tag (base : String) : String := "<base href=\"" ++ base ++ "/\">"

/-- The first of the two tags that the page has is replaced wherever it stands. -/
def rebase (base : String) (html : List Char) : List Char × Bool :=
  if base = "" then (html, false)
  else
    match BASE_TAGS.find? fun pat => contains_str pat.toList html with
    | none => (html, false)
    | some pat => (replace_from pat.toList (base_tag base).toList 0 html, true)

def esc_attr (s : String) : String :=
  replace (replace (replace (replace s "&" "&amp;") "\"" "&quot;") "<" "&lt;") ">" "&gt;"

def manifest_link (base : String) : String :=
  "<link rel=\"manifest\" href=\"" ++ esc_attr base ++ "/manifest.webmanifest\">"

def REGISTER : String := "serviceWorker.register"

/-- The script before the URL of the worker. -/
def script_head : List String :=
  ["addEventListener('load',()=>\x7bif(!('serviceWorker'in navigator))return;", "navigator."]

/-- The script behind it. -/
def script_tail : List String :=
  [");", "const seed=()=>\x7bconst dom=[...document.",
    "querySelectorAll('link[href],script[src],img[src]')].map(e=>e.href||e.src);",
    "const net=(performance.getEntriesByType('resource')||[]).map(e=>e.name);",
    "const u=[...new Set([...dom,...net])].filter(u=>!u.includes('/api/'));",
    "navigator.serviceWorker.ready.then(r=>r.active&&r.active.postMessage(",
    "\x7btype:'pai-precache',urls:u\x7d));\x7d;", "seed();setTimeout(seed,5000);\x7d);"]

def worker_script (base : String) : List Char :=
  "<script>".toList ++ script_head.flatMap String.toList ++ REGISTER.toList ++ ['('] ++
    (json.quote (base ++ "/sw.js")).toList ++ script_tail.flatMap String.toList ++ "</script>".toList

def has_manifest (html : List Char) : Bool :=
  contains_str "rel=\"manifest\"".toList html || contains_str "rel='manifest'".toList html

def snippet (base : String) (html : List Char) : List Char :=
  (if has_manifest html then [] else (manifest_link base).toList) ++
    if contains_str REGISTER.toList html then [] else worker_script base

/-- Before the end of the head, else before that of the body, else at the end. -/
def insert_snippet (html snippet : List Char) : List Char :=
  match split_once_str "</head>".toList html with
  | some (a, b) => a ++ snippet ++ "</head>".toList ++ b
  | none =>
    match split_once_str "</body>".toList html with
    | some (a, b) => a ++ snippet ++ "</body>".toList ++ b
    | none => html ++ snippet

/-- The text of `inject_pwa`, and whether it has changed. -/
def inject_text (base : String) (html : List Char) : List Char × Bool :=
  let (html, changed) := rebase base html
  let added := snippet base html
  if added = [] then (html, changed) else (insert_snippet html added, true)

/-- Only pages are touched: a body of a 200 that is called HTML. -/
def is_page (resp : ServeResponse) : Bool :=
  resp.status = 200 && resp.body ≠ [] && resp.headers.any fun h =>
    eq_ignore_ascii_case h.1.toList "content-type".toList && contains_str "text/html".toList h.2.toList

def inject_pwa (resp : ServeResponse) (req : ServeRequest) : ServeResponse × Bool :=
  if is_page resp then
    match from_utf8 resp.body with
    | none => (resp, false)
    | some html =>
      let (html, changed) := inject_text req.base html
      (if changed then { resp with body := encode html } else resp, changed)
  else (resp, false)

/-! ## Where a tag begins -/

/-- What of a tag stands behind its first character. -/
def behind (tag : String) : List Char := tag.toList.tail

theorem base_tags : ∀ pat ∈ BASE_TAGS, pat.toList = '<' :: behind pat ∧ '<' ∉ behind pat := by
  decide

theorem escape_mark {c : Char} (h : '<' ∈ json.escape_char c) : c = '<' := by
  have hdigit : ∀ n, '<' ≠ json.hex_digit n := by
    intro n
    have hall : ∀ k < 16, '<' ≠ Nat.digitChar k := by decide
    exact hall (n % 16) (Nat.mod_lt _ (by decide))
  unfold json.escape_char at h
  split_ifs at h
  all_goals simp [hdigit] at h
  exact h.symm

theorem quote_free {s : String} (h : '<' ∉ s.toList) : '<' ∉ (json.quote s).toList := by
  unfold json.quote
  simp only [String.toList_append, String.toList_ofList, List.mem_append, List.mem_flatMap, not_or]
  refine ⟨⟨by decide, ?_⟩, by decide⟩
  rintro ⟨c, hc, hmark⟩
  exact h (escape_mark hmark ▸ hc)

theorem replace_char_free {s : String} {d : Char} {n : String} (hs : '<' ∉ s.toList)
    (hn : '<' ∉ n.toList) : '<' ∉ (replace s (String.singleton d) n).toList := by
  unfold replace
  rw [String.toList_ofList, String.toList_singleton, replace_from_char, List.mem_flatMap]
  rintro ⟨c, hc, hmark⟩
  split at hmark
  · exact hn hmark
  · exact hs (List.mem_singleton.mp hmark ▸ hc)

theorem esc_attr_free {s : String} (h : '<' ∉ s.toList) : '<' ∉ (esc_attr s).toList := by
  unfold esc_attr
  have hamp : '<' ∉ (replace s "&" "&amp;").toList := replace_char_free (d := '&') h (by decide)
  have hquot := replace_char_free (d := '"') (n := "&quot;") hamp (by decide)
  have hlt := replace_char_free (d := '<') (n := "&lt;") hquot (by decide)
  exact replace_char_free (d := '>') hlt (by decide)

/-- A mount is a text without marks and quotes. -/
structure Clean (base : String) : Prop where
  mark : '<' ∉ base.toList
  quote : '"' ∉ base.toList

theorem mount_clean {id : String} (hid : check_app_id id = .ok ()) (named : Bool) :
    Clean (mount named id) := by
  have hchar : ∀ c ∈ id.toList, c ≠ '<' ∧ c ≠ '"' := by
    intro c hc
    unfold check_app_id at hid
    split at hid
    · cases hid
    · rename_i hnot
      have hall : ∀ c ∈ id.toList, app_id_char c = true := by
        simpa using (not_or.mp hnot).2
      have happ := hall c hc
      constructor
      · rintro rfl
        exact absurd happ (by decide)
      · rintro rfl
        exact absurd happ (by decide)
  have hempty : '<' ∉ "".toList ∧ '"' ∉ "".toList := by decide
  cases named with
  | true => exact ⟨hempty.1, hempty.2⟩
  | false =>
    constructor
    · rw [mount, if_neg Bool.false_ne_true, String.toList_append, List.mem_append, not_or]
      exact ⟨by decide, fun h => (hchar _ h).1 rfl⟩
    · rw [mount, if_neg Bool.false_ne_true, String.toList_append, List.mem_append, not_or]
      exact ⟨by decide, fun h => (hchar _ h).2 rfl⟩

/-- The script has no marks but those of its two tags. -/
theorem script_lines_free : ∀ l ∈ script_head ++ script_tail, '<' ∉ l.toList := by
  decide +kernel

theorem not_begins {pat : String} (hpat : pat ∈ BASE_TAGS) {d : Char} (hd : d ≠ 'b')
    (x : List Char) : ¬ '<' :: behind pat <+: '<' :: d :: x := by
  have hhead : ∀ pat ∈ BASE_TAGS, (behind pat).head? = some 'b' := by decide
  have hb := hhead pat hpat
  intro h
  rw [List.cons_prefix_cons] at h
  cases hbehind : behind pat with
  | nil => simp [hbehind] at hb
  | cons e rest =>
    rw [hbehind] at hb h
    rw [List.cons_prefix_cons] at h
    exact hd (h.2.1.symm.trans (Option.some.inj hb))

/-- A tag begins behind another element, whose text has no marks. -/
theorem behind_element {pat : String} (hpat : pat ∈ BASE_TAGS) {d : Char} (hd : d ≠ 'b')
    {t x : List Char} (ht : '<' ∉ d :: t) (h : pat.toList <:+: '<' :: d :: t ++ x) :
    pat.toList <:+: x := by
  rw [(base_tags pat hpat).1] at h ⊢
  rw [List.cons_append, List.infix_cons_iff] at h
  rcases h with hhere | hlater
  · exact absurd hhere (not_begins hpat hd _)
  · exact infix_append_free ht hlater

section Snippet
variable {base : String} {html x : List Char}

theorem manifest_link_shape (hbase : Clean base) :
    ∃ t, (manifest_link base).toList = '<' :: 'l' :: t ∧ '<' ∉ 'l' :: t := by
  refine ⟨"ink rel=\"manifest\" href=\"".toList ++ (esc_attr base).toList ++
    "/manifest.webmanifest\">".toList, ?_, ?_⟩
  · unfold manifest_link
    rw [String.toList_append, String.toList_append]
    rfl
  · simp only [List.mem_cons, List.mem_append, not_or]
    exact ⟨by decide, ⟨by decide, esc_attr_free hbase.mark⟩, by decide⟩

theorem worker_script_shape (hbase : Clean base) :
    ∃ t, worker_script base = '<' :: 's' :: t ++ "</script>".toList ∧ '<' ∉ 's' :: t := by
  have hurl : '<' ∉ (base ++ "/sw.js").toList := by
    rw [String.toList_append, List.mem_append, not_or]
    exact ⟨hbase.mark, by decide⟩
  have hlines : ∀ ls : List String, (∀ l ∈ ls, l ∈ script_head ++ script_tail) →
      '<' ∉ ls.flatMap String.toList := by
    intro ls hls hmark
    obtain ⟨l, hl, hmark⟩ := List.mem_flatMap.mp hmark
    exact script_lines_free l (hls l hl) hmark
  refine ⟨"cript>".toList ++ script_head.flatMap String.toList ++ REGISTER.toList ++ ['('] ++
    (json.quote (base ++ "/sw.js")).toList ++ script_tail.flatMap String.toList, rfl, ?_⟩
  simp only [List.mem_cons, List.mem_append, not_or]
  exact ⟨by decide, ⟨⟨⟨⟨by decide, hlines _ fun l hl => List.mem_append_left _ hl⟩, by decide⟩,
    by decide, List.not_mem_nil⟩, quote_free hurl⟩, hlines _ fun l hl => List.mem_append_right _ hl⟩

theorem worker_script_registers (base : String) : REGISTER.toList <:+: worker_script base := by
  have hgroup : ∀ a b c d e f g : List Char,
      a ++ b ++ c ++ (d ++ e ++ f ++ g) = a ++ b ++ c ++ d ++ e ++ f ++ g := by
    intro a b c d e f g
    simp only [List.append_assoc]
  exact ⟨"<script>".toList ++ script_head.flatMap String.toList, ['('] ++
    (json.quote (base ++ "/sw.js")).toList ++ script_tail.flatMap String.toList ++
    "</script>".toList, hgroup ..⟩

/-- What is added has no base tag. -/
theorem snippet_has_no_tag (hbase : Clean base) {pat : String} (hpat : pat ∈ BASE_TAGS)
    (h : pat.toList <:+: snippet base html ++ x) : pat.toList <:+: x := by
  have hscript : pat.toList <:+: worker_script base ++ x → pat.toList <:+: x := by
    obtain ⟨t, ht, hfree⟩ := worker_script_shape hbase
    intro hin
    rw [ht, List.append_assoc] at hin
    have hend := behind_element hpat (by decide) hfree hin
    exact @behind_element pat hpat '/' (by decide) "script>".toList x (by decide) hend
  have hlink : ∀ y, pat.toList <:+: (manifest_link base).toList ++ y → pat.toList <:+: y := by
    obtain ⟨t, ht, hfree⟩ := manifest_link_shape hbase
    intro y hin
    rw [ht] at hin
    exact behind_element hpat (by decide) hfree hin
  unfold snippet at h
  rw [List.append_assoc] at h
  have hrest : pat.toList <:+: (if contains_str REGISTER.toList html then [] else worker_script base) ++ x := by
    split at h
    · exact h
    · exact hlink _ h
  split at hrest
  · exact hrest
  · exact hscript hrest

theorem snippet_begins (hbase : Clean base) :
    snippet base html = [] ∨ (snippet base html).head? = some '<' := by
  obtain ⟨t, ht, -⟩ := manifest_link_shape hbase
  obtain ⟨t', ht', -⟩ := worker_script_shape hbase
  unfold snippet
  rw [ht, ht']
  split <;> split <;> simp

/-- The text goes on behind what is added with a tag, if at all. -/
theorem insert_snippet_spec (html added : List Char) :
    ∃ a b, html = a ++ b ∧ insert_snippet html added = a ++ (added ++ b) ∧
      (b = [] ∨ "</head>".toList <+: b ∨ "</body>".toList <+: b) := by
  unfold insert_snippet
  split
  · rename_i a b hhead
    obtain ⟨-, hsplit⟩ := split_once_str_append hhead []
    exact ⟨a, "</head>".toList ++ b, hsplit.trans (List.append_assoc ..), by simp,
      .inr (.inl (List.prefix_append _ _))⟩
  · split
    · rename_i a b hbody
      obtain ⟨-, hsplit⟩ := split_once_str_append hbody []
      exact ⟨a, "</body>".toList ++ b, hsplit.trans (List.append_assoc ..), by simp,
        .inr (.inr (List.prefix_append _ _))⟩
    · exact ⟨html, [], (List.append_nil _).symm, by simp, .inl rfl⟩

theorem head_of_tag {b : List Char}
    (h : b = [] ∨ "</head>".toList <+: b ∨ "</body>".toList <+: b) :
    b = [] ∨ b.head? = some '<' := by
  rcases h with h | ⟨t, rfl⟩ | ⟨t, rfl⟩
  · exact .inl h
  · exact .inr rfl
  · exact .inr rfl

/-- A text with no mark behind its start is found where it was. -/
theorem kept_by_insert {q added : List Char} (hq : '<' ∉ q.tail) (h : q <:+: html) :
    q <:+: insert_snippet html added := by
  obtain ⟨a, b, hsplit, hinsert, hb⟩ := insert_snippet_spec html added
  rw [hinsert]
  rw [hsplit] at h
  rcases infix_append_split hq (head_of_tag hb) h with ha | hb
  · exact ha.trans (List.prefix_append a _).isInfix
  · exact hb.trans ((List.suffix_append added b).trans (List.suffix_append a _)).isInfix

theorem tag_of_insert (hbase : Clean base) {pat : String} (hpat : pat ∈ BASE_TAGS)
    (h : pat.toList <:+: insert_snippet html (snippet base x)) : pat.toList <:+: html := by
  obtain ⟨a, b, hsplit, hinsert, hb⟩ := insert_snippet_spec html (snippet base x)
  have htail : '<' ∉ pat.toList.tail := (base_tags pat hpat).2
  have hbegins : snippet base x ++ b = [] ∨ (snippet base x ++ b).head? = some '<' := by
    rcases @snippet_begins base x hbase with hnil | hhead
    · rw [hnil]
      exact head_of_tag hb
    · rw [List.head?_append, hhead]
      exact .inr rfl
  rw [hinsert] at h
  rw [hsplit]
  rcases infix_append_split htail hbegins h with ha | hrest
  · exact ha.trans (List.prefix_append a _).isInfix
  · exact (snippet_has_no_tag hbase hpat hrest).trans (List.suffix_append a b).isInfix

theorem added_infix (html added : List Char) : added <:+: insert_snippet html added := by
  obtain ⟨a, b, -, hinsert, -⟩ := insert_snippet_spec html added
  rw [hinsert]
  exact ⟨a, b, by simp⟩

theorem has_manifest_iff : has_manifest html = true ↔
    "rel=\"manifest\"".toList <:+: html ∨ "rel='manifest'".toList <:+: html := by
  unfold has_manifest
  rw [Bool.or_eq_true, contains_str_iff, contains_str_iff]

/-- With what is added the page declares a manifest and registers a worker. -/
theorem insert_declares :
    has_manifest (insert_snippet html (snippet base html)) = true ∧
      contains_str REGISTER.toList (insert_snippet html (snippet base html)) = true := by
  constructor
  · by_cases hmanifest : has_manifest html = true
    · rw [has_manifest_iff] at hmanifest ⊢
      exact hmanifest.imp (kept_by_insert (by decide)) (kept_by_insert (by decide))
    · rw [has_manifest_iff]
      refine .inl (List.IsInfix.trans ?_ ( added_infix html _))
      unfold snippet
      rw [if_neg hmanifest]
      refine List.IsInfix.trans ?_ (List.prefix_append _ _).isInfix
      refine ⟨"<link ".toList, " href=\"".toList ++ (esc_attr base).toList ++
        "/manifest.webmanifest\">".toList, ?_⟩
      unfold manifest_link
      rw [String.toList_append, String.toList_append]
      rfl
  · rw [contains_str_iff]
    by_cases hregister : contains_str REGISTER.toList html = true
    · exact kept_by_insert (by decide) (contains_str_iff.mp hregister)
    · refine List.IsInfix.trans ?_ ( added_infix html _)
      unfold snippet
      rw [if_neg hregister]
      refine List.IsInfix.trans ?_ (List.suffix_append _ _).isInfix
      exact worker_script_registers base

/-- Nothing is added exactly where nothing misses. -/
theorem snippet_nil_iff (hbase : Clean base) : snippet base html = [] ↔
    has_manifest html = true ∧ contains_str REGISTER.toList html = true := by
  obtain ⟨t, ht, -⟩ := manifest_link_shape hbase
  obtain ⟨t', ht', -⟩ := worker_script_shape hbase
  unfold snippet
  rw [ht, ht']
  split <;> split <;> simp [*]

end Snippet

/-! ## The base tag -/

section Rebase
variable {base : String}

/-- A base tag is not one of the two that are replaced. -/
theorem not_base_tag (hbase : Clean base) (hne : base ≠ "") {pat : String} (hpat : pat ∈ BASE_TAGS)
    (x : List Char) : ¬ pat.toList <+: (base_tag base).toList ++ x := by
  have hshape : (base_tag base).toList ++ x =
      "<base href=".toList ++ ('"' :: (base.toList ++ ('/' :: '"' :: '>' :: x))) := by
    unfold base_tag
    simp [String.toList_append]
  obtain ⟨c, rest, hchars⟩ := List.exists_cons_of_ne_nil
    (fun hnil => hne (String.toList_inj.mp hnil) : base.toList ≠ [])
  have hquote := hbase.quote
  rw [hchars] at hquote
  rw [hshape, hchars]
  intro h
  simp only [BASE_TAGS, List.mem_cons, List.not_mem_nil, or_false] at hpat
  rcases hpat with rfl | rfl
  · change "<base href=".toList ++ ['"', '/', '"', '>'] <+: _ at h
    rw [List.prefix_append_right_inj, List.cons_prefix_cons, List.cons_append,
      List.cons_prefix_cons] at h
    obtain ⟨-, rfl, hover⟩ := h
    cases rest with
    | nil => exact absurd (List.cons_prefix_cons.mp hover).1 (by decide)
    | cons d rest =>
      obtain rfl := (List.cons_prefix_cons.mp hover).1
      exact hquote (by simp)
  · change "<base href=".toList ++ ['\'', '/', '\'', '>'] <+: _ at h
    rw [List.prefix_append_right_inj, List.cons_prefix_cons] at h
    exact absurd h.1 (by decide)

theorem tags_differ {q pat : String} (hq : q ∈ BASE_TAGS) (hpat : pat ∈ BASE_TAGS) (hne : q ≠ pat)
    (x : List Char) : ¬ q.toList <+: pat.toList ++ x := by
  have hlength : ∀ q ∈ BASE_TAGS, q.toList.length = 15 := by decide
  intro h
  have hself := List.prefix_of_prefix_length_le h (List.prefix_append _ _)
    (by rw [hlength q hq, hlength pat hpat])
  exact hne (String.toList_inj.mp (hself.eq_of_length (by rw [hlength q hq, hlength pat hpat])))

theorem base_tag_shape (hbase : Clean base) :
    (base_tag base).toList = '<' :: behind (base_tag base) ∧ '<' ∉ behind (base_tag base) := by
  have hshape : (base_tag base).toList =
      '<' :: ("base href=\"".toList ++ base.toList ++ "/\">".toList) := by
    unfold base_tag
    rw [String.toList_append, String.toList_append]
    rfl
  unfold behind
  rw [hshape]
  refine ⟨rfl, ?_⟩
  simp only [List.tail_cons, List.mem_append, not_or]
  exact ⟨⟨by decide, hbase.mark⟩, by decide⟩

/-- A replaced tag is gone, and the other one is where it was. -/
theorem replaced_tag (hbase : Clean base) (hne : base ≠ "") {q pat : String} (hq : q ∈ BASE_TAGS)
    (hpat : pat ∈ BASE_TAGS) (html : List Char) :
    q.toList <:+: replace_from pat.toList (base_tag base).toList 0 html ↔
      q ≠ pat ∧ q.toList <:+: html := by
  obtain ⟨hshape, hfree⟩ := base_tag_shape hbase
  obtain ⟨hpshape, hpfree⟩ := base_tags pat hpat
  obtain ⟨hqshape, hqfree⟩ := base_tags q hq
  have hnew : ∀ x, ¬ '<' :: behind q <+: '<' :: (behind (base_tag base) ++ x) := by
    intro x
    have h := not_base_tag hbase hne hq x
    rwa [hshape, hqshape, List.cons_append] at h
  by_cases hsame : q = pat
  · subst hsame
    rw [hshape, hqshape]
    exact iff_of_false (not_infix_replaced hqfree hfree hnew html) (fun h => h.1 rfl)
  · have hother : ∀ x, ¬ '<' :: behind q <+: '<' :: (behind pat ++ x) := by
      intro x
      have h := tags_differ hq hpat hsame x
      rwa [hpshape, hqshape, List.cons_append] at h
    rw [hshape, hpshape, hqshape, infix_replace_marked hpfree hfree hqfree hother hnew]
    exact (and_iff_right hsame).symm

/-- The page has both tags, of which only one is replaced. -/
def TwoTags (html : List Char) : Prop := ∀ pat ∈ BASE_TAGS, pat.toList <:+: html

/-- A tag is left exactly where there were both. -/
theorem tag_left_iff (hbase : Clean base) (hne : base ≠ "") (html : List Char) :
    (∃ pat ∈ BASE_TAGS, pat.toList <:+: (rebase base html).1) ↔ TwoTags html := by
  unfold rebase
  rw [if_neg hne]
  rcases hfind : BASE_TAGS.find? fun pat => contains_str pat.toList html with _ | pat
  · have hnone : ∀ pat ∈ BASE_TAGS, ¬ pat.toList <:+: html := by
      intro pat hpat hin
      exact List.find?_eq_none.mp hfind pat hpat (contains_str_iff.mpr hin)
    rw [hfind]
    refine iff_of_false ?_ (fun h => hnone _ List.mem_cons_self (h _ List.mem_cons_self))
    rintro ⟨pat, hpat, hin⟩
    exact hnone pat hpat hin
  · have hpat : pat ∈ BASE_TAGS := List.mem_of_find?_eq_some hfind
    have hfound : contains_str pat.toList html = true := by
      have h := List.find?_some hfind
      exact h
    have hin := contains_str_iff.mp hfound
    rw [hfind]
    dsimp only
    have hother : ∀ q ∈ BASE_TAGS, ∀ q' ∈ BASE_TAGS, q ≠ pat → q' ≠ pat → q = q' := by
      have hall : ∀ p ∈ BASE_TAGS, ∀ q ∈ BASE_TAGS, ∀ q' ∈ BASE_TAGS, q ≠ p → q' ≠ p → q = q' := by
        decide
      exact hall pat hpat
    have hexists : ∃ q ∈ BASE_TAGS, q ≠ pat := by
      have hall : ∀ p ∈ BASE_TAGS, ∃ q ∈ BASE_TAGS, q ≠ p := by decide
      exact hall pat hpat
    constructor
    · rintro ⟨q, hq, hleft⟩
      obtain ⟨hqne, hqin⟩ := (replaced_tag hbase hne hq hpat html).mp hleft
      intro q' hq'
      by_cases hsame : q' = pat
      · exact hsame ▸ hin
      · exact hother q hq q' hq' hqne hsame ▸ hqin
    · intro h
      obtain ⟨q, hq, hqne⟩ := hexists
      exact ⟨q, hq, (replaced_tag hbase hne hq hpat html).mpr ⟨hqne, h q hq⟩⟩

end Rebase

/-! ## One pass and another -/

section Passes
variable {base : String} {html : List Char}

theorem rebase_same (h : (rebase base html).2 = false) : (rebase base html).1 = html := by
  unfold rebase at h ⊢
  split
  · rfl
  · rename_i hne
    rw [if_neg hne] at h
    split
    · rfl
    · rename_i hfind
      rw [hfind] at h
      cases h

theorem rebase_changed_iff : (rebase base html).2 = true ↔
    base ≠ "" ∧ ∃ pat ∈ BASE_TAGS, pat.toList <:+: html := by
  unfold rebase
  by_cases hne : base = ""
  · rw [if_pos hne]
    exact iff_of_false Bool.false_ne_true (fun h => h.1 hne)
  · rw [if_neg hne, and_iff_right hne]
    rcases hfind : BASE_TAGS.find? fun pat => contains_str pat.toList html with _ | pat
    · rw [hfind]
      refine iff_of_false Bool.false_ne_true ?_
      rintro ⟨pat, hpat, hin⟩
      exact List.find?_eq_none.mp hfind pat hpat (contains_str_iff.mpr hin)
    · have hfound : contains_str pat.toList html = true := by
        have h := List.find?_some hfind
        exact h
      rw [hfind]
      exact iff_of_true rfl ⟨pat, List.mem_of_find?_eq_some hfind, contains_str_iff.mp hfound⟩

/-- The text of one pass: that of the page with its tag set, and what missed in one place of it. -/
theorem inject_text_parts (hbase : Clean base) (html : List Char) :
    ∃ a b, (rebase base html).1 = a ++ b ∧
      (inject_text base html).1 = a ++ (snippet base (a ++ b) ++ b) ∧
      (b = [] ∨ "</head>".toList <+: b ∨ "</body>".toList <+: b) ∧
      has_manifest (inject_text base html).1 = true ∧
      contains_str REGISTER.toList (inject_text base html).1 = true := by
  unfold inject_text
  dsimp only
  split
  · rename_i hnil
    refine ⟨(rebase base html).1, [], (List.append_nil _).symm, ?_, .inl rfl,
      (snippet_nil_iff hbase).mp hnil⟩
    rw [List.append_nil, List.append_nil, hnil, List.append_nil]
  · obtain ⟨a, b, hsplit, hinsert, hb⟩ :=
      insert_snippet_spec (rebase base html).1 (snippet base (rebase base html).1)
    refine ⟨a, b, hsplit, ?_, hb, insert_declares⟩
    rw [← hsplit]
    exact hinsert

theorem inject_text_same (h : (inject_text base html).2 = false) :
    (inject_text base html).1 = html := by
  unfold inject_text at h ⊢
  dsimp only at h ⊢
  split at h
  · rename_i hnil
    rw [if_pos hnil]
    exact rebase_same h
  · cases h

/-- The tags that are left behind one pass are those that setting one has left. -/
theorem tag_behind_pass (hbase : Clean base) {pat : String} (hpat : pat ∈ BASE_TAGS) :
    pat.toList <:+: (inject_text base html).1 ↔ pat.toList <:+: (rebase base html).1 := by
  unfold inject_text
  dsimp only
  split
  · exact Iff.rfl
  · exact ⟨tag_of_insert hbase hpat, kept_by_insert (base_tags pat hpat).2⟩

/-- Another pass has something to do exactly where there were both tags. -/
theorem second_pass_iff (hbase : Clean base) (html : List Char) :
    inject_text base (inject_text base html).1 = ((inject_text base html).1, false) ↔
      ¬ (base ≠ "" ∧ TwoTags html) := by
  obtain ⟨-, -, -, -, -, hdeclares⟩ := inject_text_parts hbase html
  have hleft : (rebase base (inject_text base html).1).2 = true ↔ base ≠ "" ∧ TwoTags html := by
    rw [rebase_changed_iff]
    refine and_congr_right fun hne => ?_
    rw [← tag_left_iff hbase hne html]
    exact exists_congr fun pat => and_congr_right fun hpat => tag_behind_pass hbase hpat
  rw [← hleft, Bool.not_eq_true]
  constructor
  · intro hsecond
    have hflag := congrArg Prod.snd hsecond
    generalize (inject_text base html).1 = page at hflag ⊢
    unfold inject_text at hflag
    dsimp only at hflag
    split at hflag
    · exact hflag
    · cases hflag
  · intro hunchanged
    have hsame := rebase_same hunchanged
    have hnil := (snippet_nil_iff hbase).mpr hdeclares
    rw [← hsame] at hnil
    generalize (inject_text base html).1 = page at hunchanged hsame hnil
    unfold inject_text
    dsimp only
    rw [if_pos hnil, hsame, hunchanged]

end Passes

/-! ## The law -/

section Law
variable {resp : ServeResponse} {req : ServeRequest} {html : List Char}

theorem encode_not_nil {html : List Char} (h : has_manifest html = true) : encode html ≠ [] := by
  intro hnil
  rw [encode_eq_nil.mp hnil] at h
  exact absurd h (by decide)

/-- A page stays one, with the text of the pass. -/
theorem inject_pwa_page (hbase : Clean req.base) (hpage : is_page resp = true)
    (hhtml : from_utf8 resp.body = some html) :
    is_page (inject_pwa resp req).1 = true ∧
      from_utf8 (inject_pwa resp req).1.body = some (inject_text req.base html).1 := by
  obtain ⟨-, -, -, -, -, hmanifest, -⟩ := inject_text_parts hbase html
  unfold inject_pwa
  rw [if_pos hpage, hhtml]
  dsimp only
  by_cases hchanged : (inject_text req.base html).2 = true
  · rw [if_pos hchanged]
    refine ⟨?_, from_utf8_encode _⟩
    unfold is_page at hpage ⊢
    simp only [Bool.and_eq_true, decide_eq_true_eq] at hpage ⊢
    exact ⟨⟨hpage.1.1, encode_not_nil hmanifest⟩, hpage.2⟩
  · rw [if_neg hchanged]
    rw [inject_text_same (Bool.eq_false_iff.mpr hchanged)]
    exact ⟨hpage, hhtml⟩

end Law

/-- Injecting once more changes nothing, unless the page is mounted below a path and has the base tag
in both spellings. -/
theorem a_page_needs_one_pass_iff (named : Bool) {id : String} (hid : check_app_id id = .ok ())
    (resp : ServeResponse) (req : ServeRequest) (hreq : req.base = mount named id) :
    inject_pwa (inject_pwa resp req).1 req = ((inject_pwa resp req).1, false) ↔
      ¬ (named = false ∧ is_page resp = true ∧ ∃ html, from_utf8 resp.body = some html ∧
        TwoTags html) := by
  have hbase : Clean req.base := hreq ▸ mount_clean hid named
  have hmount : req.base ≠ "" ↔ named = false := by
    rw [hreq]
    cases named with
    | true => exact iff_of_false (fun h => h rfl) Bool.noConfusion
    | false =>
      refine iff_of_true (fun h => ?_) rfl
      have hlength := congrArg String.length h
      rw [mount, if_neg Bool.false_ne_true, String.length_append] at hlength
      exact absurd hlength (by simp)
  have hother : inject_pwa resp req = (resp, false) →
      inject_pwa (inject_pwa resp req).1 req = ((inject_pwa resp req).1, false) := by
    intro h
    rw [h, h]
  by_cases hpage : is_page resp = true
  · rcases hhtml : from_utf8 resp.body with _ | html
    · have hsame : inject_pwa resp req = (resp, false) := by
        unfold inject_pwa
        rw [if_pos hpage, hhtml]
      exact iff_of_true (hother hsame) (by simp)
    · obtain ⟨hpage', hhtml'⟩ := inject_pwa_page hbase hpage hhtml
      have hsecond := second_pass_iff hbase html
      rw [hmount] at hsecond
      generalize (inject_pwa resp req).1 = resp' at hpage' hhtml' ⊢
      generalize (inject_text req.base html).1 = html' at hhtml' hsecond
      have hiff : inject_pwa resp' req = (resp', false) ↔
          inject_text req.base html' = (html', false) := by
        unfold inject_pwa
        rw [if_pos hpage', hhtml']
        dsimp only
        constructor
        · intro h
          have hflag : (inject_text req.base html').2 = false := congrArg Prod.snd h
          exact Prod.ext (inject_text_same hflag) hflag
        · intro h
          rw [h]
          rfl
      rw [hiff, hsecond]
      simp [hpage]
  · have hsame : inject_pwa resp req = (resp, false) := by
      unfold inject_pwa
      rw [if_neg hpage]
    exact iff_of_true (hother hsame) (fun h => hpage h.2.1)

def notes_page : ServeResponse :=
  { status := 200, headers := [("Content-Type", "text/html; charset=utf-8")]
    body := encode "<base href=\"/\"><p>".toList }

def notes_request : ServeRequest :=
  { method := "GET", path := "/", query := "", headers := [], body_b64 := "", base := "/apps/notes" }

theorem the_notes_need_one_pass :
    inject_pwa (inject_pwa notes_page notes_request).1 notes_request =
        ((inject_pwa notes_page notes_request).1, false) ↔
      ¬ (false = false ∧ is_page notes_page = true ∧ ∃ html, from_utf8 notes_page.body = some html ∧
        TwoTags html) :=
  @a_page_needs_one_pass_iff false "notes" rfl notes_page notes_request rfl

end pai_apps.serve
