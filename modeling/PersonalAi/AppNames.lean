-- The name layer of the gateway (the command line's util.rs and serve.rs): an app as a host,
-- `<app>.<user>.devices`, and back. The law says for which ids the way back leads to the app.
import PersonalAi.AppRegistry
import PersonalAi.Lib.Lower

open text pai_apps

namespace pai_cli.util

/-! ## The source -/

/-- One turn of the loop of `name_slug`, with the output and whether it ends in a dash. -/
def slug_char (s : List Char × Bool) (c : Char) : List Char × Bool :=
  if is_ascii_alphanumeric c then (s.1 ++ [c], false)
  else if !s.2 && !s.1.isEmpty then (s.1 ++ ['-'], true)
  else s

/-- A display name as the label of a host. -/
def name_slug (s : String) : String :=
  String.ofList (((s.toList.flatMap lower_char).foldl slug_char ([], false)).1.rdropWhile (· == '-'))

section Word
variable (word_final : List Char → List Char → Bool)

/-- The app that a host names, for the user of this device. -/
def parse_app_name (host user_slug : String) : Option String :=
  let host := to_lowercase word_final ((first_part ':' host).toList.rdropWhile (· == '.'))
  let labels := host.splitOn '.'
  if labels.length < 3 ∨ labels.getLast? ≠ some "devices".toList then none
  else if labels[labels.length - 2]? ≠ some user_slug.toList then none
  else
    let app := ['.'].intercalate (labels.take (labels.length - 2))
    if app = [] then none else some (String.ofList app)

/-- Where the gateway sends a request. -/
inductive Route
  | bridge
  | index
  | not_found
  | app (id sub query base : String)

/-- The first header that is called `host`. -/
def host_header (headers : List (String × String)) : Option String :=
  (headers.find? fun h => eq_ignore_ascii_case h.1.toList "host".toList).map Prod.snd

def split_query (url : String) : String × String :=
  match split_once '?' url.toList with
  | some (a, b) => (String.ofList a, String.ofList b)
  | none => (url, "")

/-- What the gateway does with a path, behind the name layer. -/
def route_path (path query : String) (named : Bool) : Route :=
  if path = "/" ∨ path = "/apps" ∨ path = "/apps/" then .index
  else
    match strip_prefix "/apps/" path with
    | none => .not_found
    | some rest =>
      let (id, sub) :=
        match split_once '/' rest.toList with
        | some (a, b) => (String.ofList a, "/" ++ String.ofList b)
        | none => (rest, "/")
      if id = "" then .not_found
      else .app id sub query (if named then "" else "/apps/" ++ id)

/-- The routes of the gateway: the bridge, then the name layer, then the paths. -/
def gateway_route (url : String) (headers : List (String × String)) (user_slug : String) : Route :=
  let (path, query) := split_query url
  if path = "/api/bridge" then .bridge
  else
    match (host_header headers).bind fun host => parse_app_name word_final host user_slug with
    | some app => route_path ("/apps/" ++ app ++ path) query true
    | none => route_path path query false

/-- The name of an app, as `apps names` prints it. -/
def app_name (id user_slug : String) : String := id ++ "." ++ user_slug ++ ".devices"

/-- A name as a browser sends it: with the port, or without one. -/
def host_of (name : String) : Option UInt16 → String
  | none => name
  | some port => name ++ ":" ++ toString port.toNat

/-! ## What is wanted -/

/-- The names of these apps work: each one leads to its own app, no two of them to the same one, and
the gateway follows. -/
structure NamesWork (user_slug : String) (ids : List String) : Prop where
  parsed : ∀ id ∈ ids, ∀ port,
    parse_app_name word_final (host_of (app_name id user_slug) port) user_slug = some id
  apart : ∀ id ∈ ids, ∀ other ∈ ids, ∀ port port', other ≠ id →
    parse_app_name word_final (host_of (app_name other user_slug) port') user_slug ≠
      parse_app_name word_final (host_of (app_name id user_slug) port) user_slug
  routed : ∀ id ∈ ids, ∀ port headers rest, '?' ∉ rest → '/' :: rest ≠ "/api/bridge".toList →
    host_header headers = some (host_of (app_name id user_slug) port) →
    gateway_route word_final (String.ofList ('/' :: rest)) headers user_slug =
      .app id (String.ofList ('/' :: rest)) "" ""

end Word

/-! ## Labels -/

/-- The characters of a label that lower-casing and splitting leave alone. -/
def LabelChar (c : Char) : Prop := c.toNat < 128 ∧ c.toLower = c ∧ c ≠ '.' ∧ c ≠ ':'

theorem alphanumeric_ascii {c : Char} (h : is_ascii_alphanumeric c = true) :
    c.toNat < 128 ∧ c ≠ '.' ∧ c ≠ ':' ∧ c ≠ '/' := by
  refine ⟨?_, ?_, ?_, ?_⟩
  · simp only [is_ascii_alphanumeric, Char.isAlphanum, Char.isAlpha, Char.isUpper, Char.isLower,
      Char.isDigit, ge_iff_le, Bool.or_eq_true, Bool.and_eq_true, decide_eq_true_eq,
      UInt32.le_iff_toNat_le] at h
    have hc : c.val.toNat = c.toNat := rfl
    rcases h with (⟨-, h⟩ | ⟨-, h⟩) | ⟨-, h⟩ <;> exact Nat.lt_of_le_of_lt h (by decide)
  all_goals
    rintro rfl
    exact absurd h (by decide)

theorem slug_char_label {s : List Char × Bool} {c : Char} (hs : ∀ d ∈ s.1, LabelChar d)
    (hc : c.toLower = c) : ∀ d ∈ (slug_char s c).1, LabelChar d := by
  unfold slug_char
  split
  · rename_i halnum
    obtain ⟨hascii, hdot, hcolon, -⟩ := alphanumeric_ascii halnum
    intro d hd
    rcases List.mem_append.mp hd with hd | hd
    · exact hs d hd
    · obtain rfl := List.mem_singleton.mp hd
      exact ⟨hascii, hc, hdot, hcolon⟩
  · split
    · intro d hd
      rcases List.mem_append.mp hd with hd | hd
      · exact hs d hd
      · obtain rfl := List.mem_singleton.mp hd
        exact ⟨by decide, by decide, by decide, by decide⟩
    · exact hs

theorem slug_chars_label {cs : List Char} (hcs : ∀ c ∈ cs, c.toLower = c) {s : List Char × Bool}
    (hs : ∀ d ∈ s.1, LabelChar d) : ∀ d ∈ (cs.foldl slug_char s).1, LabelChar d := by
  induction cs generalizing s with
  | nil => exact hs
  | cons c cs ih =>
    exact ih (fun d hd => hcs d (List.mem_cons_of_mem _ hd))
      (slug_char_label hs (hcs c List.mem_cons_self))

/-- A slug is one label, in lower case. -/
theorem name_slug_label (s : String) : ∀ c ∈ (name_slug s).toList, LabelChar c := by
  intro c hc
  rw [name_slug, String.toList_ofList] at hc
  refine slug_chars_label ?_ (by simp) c ((List.rdropWhile_prefix _ _).subset hc)
  intro d hd
  obtain ⟨e, -, he⟩ := List.mem_flatMap.mp hd
  exact toLower_eq_self.mpr (lower_char_small he)

/-! ## A name and back -/

/-- What an id has to be. -/
theorem check_app_id_ok {id : String} (h : check_app_id id = .ok ()) :
    id.toList ≠ [] ∧ ∀ c ∈ id.toList, c.toNat < 128 ∧ c ≠ ':' ∧ c ≠ '/' := by
  unfold check_app_id at h
  split at h
  · cases h
  · rename_i hid
    obtain ⟨hne, hall⟩ := not_or.mp hid
    refine ⟨fun hnil => hne (String.toList_inj.mp hnil), fun c hc => ?_⟩
    have hchar : app_id_char c = true := by
      exact List.all_eq_true.mp (by simpa using hall) c hc
    simp only [app_id_char, Bool.or_eq_true, beq_iff_eq] at hchar
    rcases hchar with ((halnum | rfl) | rfl) | rfl
    · obtain ⟨hascii, -, hcolon, hslash⟩ := alphanumeric_ascii halnum
      exact ⟨hascii, hcolon, hslash⟩
    all_goals exact ⟨by decide, by decide, by decide⟩

section Names
variable {id user_slug : String} (port : Option UInt16)

/-- The port is not part of the name. -/
theorem first_part_host {name : String} (h : ':' ∉ name.toList) :
    (first_part ':' (host_of name port)).toList = name.toList := by
  have hall : ∀ c ∈ name.toList, (decide (c ≠ ':')) = true := by
    intro c hc
    exact decide_eq_true fun heq => h (heq ▸ hc)
  rw [first_part, String.toList_ofList]
  cases port with
  | none => exact List.takeWhile_eq_self_iff.mpr hall
  | some port =>
    rw [host_of, String.toList_append, String.toList_append, List.append_assoc,
      List.takeWhile_append_of_pos hall]
    exact (congrArg (name.toList ++ ·) rfl).trans (List.append_nil _)

theorem splitOn_label {label : List Char} (h : '.' ∉ label) : label.splitOn '.' = [label] :=
  List.splitOn_eq_singleton h

/-- The labels of a name: those of the id, then two. -/
theorem name_labels (id : List Char) {slug : List Char} (h : '.' ∉ slug) :
    (id ++ '.' :: slug ++ '.' :: "devices".toList).splitOn '.' =
      id.splitOn '.' ++ [slug, "devices".toList] := by
  have hlast : "devices".toList.splitOn '.' = ["devices".toList] := splitOn_label (by decide)
  rw [List.splitOn_append_cons_self, List.splitOn_append_cons_self, splitOn_label h, hlast,
    List.append_assoc]
  rfl

theorem app_name_chars (id user_slug : String) : (app_name id user_slug).toList =
    id.toList ++ '.' :: user_slug.toList ++ '.' :: "devices".toList := by
  simp [app_name]

/-- A name is ASCII, without a colon. -/
theorem app_name_ascii (hid : check_app_id id = .ok ())
    (hslug : ∀ c ∈ user_slug.toList, LabelChar c) :
    ∀ c ∈ (app_name id user_slug).toList, c.toNat < 128 ∧ c ≠ ':' := by
  have hend : ("devices".toList).all (fun c => decide (c.toNat < 128 ∧ c ≠ ':')) = true := by decide
  intro c hc
  rw [app_name_chars, List.mem_append, List.mem_append, List.mem_cons, List.mem_cons] at hc
  rcases hc with (hc | rfl | hc) | rfl | hc
  · have hchar := (check_app_id_ok hid).2 c hc
    exact ⟨hchar.1, hchar.2.1⟩
  · decide
  · exact ⟨(hslug c hc).1, (hslug c hc).2.2.2⟩
  · decide
  · exact of_decide_eq_true (List.all_eq_true.mp hend c hc)

theorem app_name_end (id user_slug : String) :
    (app_name id user_slug).toList.rdropWhile (· == '.') = (app_name id user_slug).toList := by
  have hlast : (app_name id user_slug).toList =
      (id.toList ++ '.' :: user_slug.toList ++ '.' :: "device".toList) ++ ['s'] := by
    rw [app_name_chars, List.append_assoc _ _ ['s']]
    rfl
  rw [hlast, List.rdropWhile_concat_neg _ _ _ (by decide)]

theorem lower_app_name (word_final : List Char → List Char → Bool) (hid : check_app_id id = .ok ())
    (hslug : ∀ c ∈ user_slug.toList, LabelChar c) :
    to_lowercase word_final (app_name id user_slug).toList =
      id.toList.map Char.toLower ++ '.' :: user_slug.toList ++ '.' :: "devices".toList := by
  have hlabel : user_slug.toList.map Char.toLower = user_slug.toList :=
    (List.map_congr_left fun c hc => (hslug c hc).2.1).trans (List.map_id _)
  rw [to_lowercase_ascii word_final fun c hc => (app_name_ascii hid hslug c hc).1, app_name_chars,
    List.map_append, List.map_append, List.map_cons, List.map_cons, hlabel]
  rfl

/-- The way back leads to the id in lower case. -/
theorem parse_app_name_name (word_final : List Char → List Char → Bool)
    (hid : check_app_id id = .ok ()) (hslug : ∀ c ∈ user_slug.toList, LabelChar c) :
    parse_app_name word_final (host_of (app_name id user_slug) port) user_slug =
      some (String.ofList (id.toList.map Char.toLower)) := by
  have hcolon : ':' ∉ (app_name id user_slug).toList :=
    fun hin => (app_name_ascii hid hslug _ hin).2 rfl
  have hdot : '.' ∉ user_slug.toList := fun hin => (hslug _ hin).2.2.1 rfl
  have hlower : id.toList.map Char.toLower ≠ [] := by
    simpa using (check_app_id_ok hid).1
  have hids : 1 ≤ ((id.toList.map Char.toLower).splitOn '.').length :=
    List.length_pos_iff.mpr (List.splitOn_ne_nil _ _)
  have hcount : ((id.toList.map Char.toLower).splitOn '.' ++
      [user_slug.toList, "devices".toList]).length =
        ((id.toList.map Char.toLower).splitOn '.').length + 2 := List.length_append
  have happ : ['.'].intercalate (((id.toList.map Char.toLower).splitOn '.' ++
      [user_slug.toList, "devices".toList]).take (((id.toList.map Char.toLower).splitOn '.' ++
        [user_slug.toList, "devices".toList]).length - 2)) = id.toList.map Char.toLower := by
    rw [hcount, Nat.add_sub_cancel, List.take_left, List.intercalate_splitOn]
  unfold parse_app_name
  rw [first_part_host port hcolon, app_name_end, lower_app_name word_final hid hslug]
  dsimp only
  rw [name_labels _ hdot, happ, if_neg, if_neg, if_neg hlower]
  · rw [hcount]
    simp
  · rintro (hfew | hlast)
    · omega
    · exact hlast (by simp)

end Names

/-! ## The gateway -/

theorem split_query_plain {path : List Char} (h : '?' ∉ path) :
    split_query (String.ofList path) = (String.ofList path, "") := by
  have hnone : split_once '?' path = none := by
    induction path with
    | nil => rfl
    | cons c path ih =>
      rw [List.mem_cons, not_or] at h
      rw [split_once, if_neg (Ne.symm h.1), ih h.2]
      rfl
  rw [split_query, String.toList_ofList, hnone]

/-- Behind the prefix, the name up to the next slash is the app. -/
theorem route_path_app {app : String} (hne : app ≠ "") (hslash : '/' ∉ app.toList)
    (rest : List Char) (query : String) :
    route_path ("/apps/" ++ app ++ String.ofList ('/' :: rest)) query true =
      .app app (String.ofList ('/' :: rest)) query "" := by
  have hlong : 7 ≤ ("/apps/" ++ app ++ String.ofList ('/' :: rest)).toList.length := by
    simp only [String.toList_append, List.length_append, String.toList_ofList, List.length_cons]
    have hfirst : "/apps/".toList.length = 6 := by decide
    omega
  have hshort : ∀ s : String, s.toList.length < 7 →
      "/apps/" ++ app ++ String.ofList ('/' :: rest) ≠ s := by
    rintro s hs rfl
    omega
  have hsub : "/" ++ String.ofList rest = String.ofList ('/' :: rest) := by
    simp [← String.toList_inj]
  unfold route_path
  rw [if_neg, String.append_assoc, strip_prefix_append]
  · have hsplit : split_once '/' (app ++ String.ofList ('/' :: rest)).toList =
        some (app.toList, rest) := by
      rw [String.toList_append, String.toList_ofList]
      exact split_once_append '/' _ _ hslash
    simp only [hsplit, String.ofList_toList, if_neg hne, if_true, hsub]
  · rintro (h | h | h)
    · exact hshort "/" (by decide) h
    · exact hshort "/apps" (by decide) h
    · exact hshort "/apps/" (by decide) h

/-- A host that names an app sends every path to it, but for that of the bridge. -/
theorem gateway_route_named {word_final : List Char → List Char → Bool} {user_slug host app : String}
    {headers : List (String × String)} {rest : List Char} (hquery : '?' ∉ rest)
    (hbridge : '/' :: rest ≠ "/api/bridge".toList) (hhost : host_header headers = some host)
    (happ : parse_app_name word_final host user_slug = some app) (hne : app ≠ "")
    (hslash : '/' ∉ app.toList) :
    gateway_route word_final (String.ofList ('/' :: rest)) headers user_slug =
      .app app (String.ofList ('/' :: rest)) "" "" := by
  have hplain : '?' ∉ '/' :: rest := by
    rw [List.mem_cons, not_or]
    exact ⟨by decide, hquery⟩
  have hother : String.ofList ('/' :: rest) ≠ "/api/bridge" := by
    intro heq
    rw [← heq, String.toList_ofList] at hbridge
    exact hbridge rfl
  unfold gateway_route
  rw [split_query_plain hplain]
  dsimp only
  rw [if_neg hother, hhost, Option.bind_some, happ]
  exact route_path_app hne hslash rest ""

/-! ## All apps -/

theorem lower_eq_self {id : String} : String.ofList (id.toList.map Char.toLower) = id ↔
    ∀ c ∈ id.toList, c.isUpper = false := by
  have hself : id.toList.map Char.toLower = id.toList ↔
      id.toList.map Char.toLower = id.toList.map (fun c => c) := by rw [List.map_id']
  rw [← String.toList_inj, String.toList_ofList, hself, List.map_inj_left]
  exact forall₂_congr fun c _ => toLower_eq_self

/-- The names of all apps of a device work exactly if no id has a letter in upper case. -/
theorem names_work_iff (word_final : List Char → List Char → Bool) (display : String)
    {ids : List String} (hids : ∀ id ∈ ids, check_app_id id = .ok ()) :
    NamesWork word_final (name_slug display) ids ↔ ∀ id ∈ ids, ∀ c ∈ id.toList, c.isUpper = false := by
  have hback : ∀ id ∈ ids, ∀ port, parse_app_name word_final
      (host_of (app_name id (name_slug display)) port) (name_slug display) =
        some (String.ofList (id.toList.map Char.toLower)) :=
    fun id hid port => parse_app_name_name port word_final (hids id hid) (name_slug_label display)
  constructor
  · intro hwork id hid
    have hparsed := hwork.parsed id hid none
    rwa [hback id hid, Option.some.injEq, lower_eq_self] at hparsed
  · intro hlower
    have hparsed : ∀ id ∈ ids, ∀ port, parse_app_name word_final
        (host_of (app_name id (name_slug display)) port) (name_slug display) = some id := by
      intro id hid port
      rw [hback id hid port, Option.some.injEq, lower_eq_self]
      exact hlower id hid
    refine ⟨hparsed, ?_, ?_⟩
    · intro id hid other hother port port' hne
      rw [hparsed id hid, hparsed other hother]
      exact fun heq => hne (Option.some.inj heq)
    · intro id hid port headers rest hquery hbridge hhost
      obtain ⟨hne, hchars⟩ := check_app_id_ok (hids id hid)
      exact gateway_route_named hquery hbridge hhost (hparsed id hid port)
        (fun hempty => hne (by rw [hempty]; rfl)) fun hin => (hchars _ hin).2.2 rfl

theorem a_dotted_id_works : NamesWork (fun _ _ => false) (name_slug "Alice's phone")
    ["com.example.app", "notes"] := by
  have hids : ∀ id ∈ ["com.example.app", "notes"], check_app_id id = .ok () := by
    intro id hid
    rcases List.mem_cons.mp hid with rfl | hid
    · rfl
    · obtain rfl := List.mem_singleton.mp hid
      rfl
  refine (names_work_iff (fun _ _ => false) "Alice's phone" hids).mpr ?_
  have hsmall : ["com.example.app", "notes"].all (fun id => id.toList.all fun c => !c.isUpper) = true := by
    decide
  intro id hid c hc
  simpa using List.all_eq_true.mp (List.all_eq_true.mp hsmall id hid) c hc

/-- The gateway looks for an app that is not installed, or sends the request to another one. -/
theorem a_large_letter_is_lost : ¬ NamesWork (fun _ _ => false) (name_slug "Alice") ["Notes"] := by
  intro hwork
  have hparsed := hwork.parsed "Notes" List.mem_cons_self none
  rw [parse_app_name_name none _ rfl (name_slug_label "Alice"), Option.some.injEq] at hparsed
  exact absurd hparsed (by decide)

end pai_cli.util
