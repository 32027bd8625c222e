-- The intents of the fast path (pai-agent, fastpath.rs): what `classify` reads off a text. It looks
-- for verbs in the lower-cased text and cuts the text itself at the same distance from the end.
import PersonalAi.FastPath
import PersonalAi.FinalStream
import PersonalAi.Lib.Lower

open text

namespace pai_agent.fastpath

/-! ## The words of the source -/

def LANG_WORDS : List (List String × String) :=
  [(["python", "py"], "python"), (["rust"], "rust"), (["javascript", "node", "js"], "javascript"),
    (["typescript", "ts"], "typescript"), (["powershell"], "powershell"),
    (["bash", "shell script", "sh "], "bash"), (["html", "web page", "webpage"], "html"),
    (["css"], "css"), (["ruby"], "ruby"), (["golang", "go "], "go"), (["lua"], "lua"),
    (["php"], "php"), (["perl"], "perl"), (["java"], "java"), (["kotlin"], "kotlin"),
    (["swift"], "swift"), (["sql"], "sql"), (["c++", "cpp"], "cpp"), (["c "], "c")]

def CODE_NOUNS : List String :=
  ["script", "program", "code", "function", "class", "module", "app", "file", "page", "website",
    "bot", "game", "tool", "utility"]

def CODE_EXTS : List String :=
  ["py", "rs", "js", "ts", "sh", "ps1", "html", "css", "rb", "go", "c", "cpp", "h", "java", "kt",
    "lua", "sql", "php", "pl", "swift", "json", "toml", "yaml", "yml", "xml", "md", "txt", "csv",
    "ini", "env"]

def CAPABILITY_QUESTIONS : List String :=
  ["what can you do", "what are your capabilities", "what do you do", "can you write code",
    "can you code", "do you write code", "help"]

def DOC_SEARCHES : List String :=
  ["search my documents for ", "search documents for ", "search docs for ", "search my docs for ",
    "find in my documents ", "find in documents "]

def WRITE_VERBS : List String :=
  ["write ", "create ", "make ", "generate ", "scaffold ", "build ", "code "]

def RUN_AFTER : List String :=
  [" and run", " then run", " and execute", " run it", " and test", " then execute"]

def LISTINGS : List String :=
  ["list files", "list my files", "list the files", "show files", "show my files", "ls",
    "list workspace", "show workspace", "list my workspace", "show my workspace", "what files",
    "what's in my workspace", "what is in my workspace", "list directory", "list the directory"]

def RUN_VERBS : List String := ["run ", "execute "]

def READ_VERBS : List String :=
  ["read ", "show ", "cat ", "open ", "print ", "display ", "what's in ", "what is in "]

def DELETE_VERBS : List String := ["delete ", "remove ", "rm "]

/-! ## The functions of the source -/

def strip (p : String) (cs : List Char) : Option (List Char) :=
  if p.toList.isPrefixOf cs then some (cs.drop p.toList.length) else none

def strip_prefix_any (cs : List Char) (prefixes : List String) : Option (List Char) :=
  prefixes.findSome? (fun p => strip p cs)

def has (cs : List Char) (word : String) : Bool := contains_str word.toList cs

/-- `str::trim_matches`. -/
def trim_matches (p : Char → Bool) (cs : List Char) : List Char := (cs.dropWhile p).rdropWhile p

/-- `str::split_whitespace`. -/
def split_whitespace (cs : List Char) : List (List Char) :=
  (cs.splitOnP is_whitespace).filter (fun w => !w.isEmpty)

def trim_punctuation (cs : List Char) : List Char :=
  trim_matches (fun c => "\"'`.,;:()[]\x7b\x7d".toList.contains c) cs

/-- Whether a word looks like a path: it has a separator, or ends like a file name. -/
def path_like (tok : List Char) : Bool :=
  tok.contains '/' || tok.contains '\\' ||
    match rsplit_once '.' tok with
    | some (_, e) => !e.isEmpty && decide (byte_len e ≤ 5) && e.all Char.isAlphanum
    | none => false

/-- The last word that looks like a path, without the punctuation around it. -/
def extract_path (cs : List Char) : Option (List Char) :=
  ((split_whitespace cs).reverse.find? (fun t => path_like (trim_punctuation t))).map
    trim_punctuation

/-- A bare word behind "named", "called" or "as". -/
def named_word (lower : List Char) : Option (List Char) :=
  ["named ", "called ", " as "].findSome? (fun kw =>
    (split_once_str kw.toList lower).bind (fun p =>
      let word := p.2.takeWhile (fun c => c.isAlphanum || c == '_' || c == '-' || c == '.')
      if word = [] then none else some word))

def detect_lang (lower : List Char) : Option String :=
  (LANG_WORDS.find? (fun l => l.1.any (has lower))).map Prod.snd

section Classify
variable (windows : Bool) (word_final : List Char → List Char → Bool)

/-- A word of the text that is a file name with the extension of some code. -/
def code_filename (cs : List Char) : Option (List Char) :=
  (split_whitespace cs).findSome? (fun tok =>
    let t := trim_punctuation tok
    (rsplit_once '.' t).bind (fun p =>
      if p.1 ≠ [] ∧ p.1.all (fun c => c.isAlphanum || c == '_' || c == '-' || c == '/' || c == '\\') ∧
          String.ofList (to_lowercase word_final p.2) ∈ CODE_EXTS then
        some t
      else none))

def has_write_verb (lower : List Char) : Bool :=
  WRITE_VERBS.any (fun v =>
    v.toList.isPrefixOf lower || (contains_str (' ' :: trim_end v.toList) lower && has lower v))

def has_code_noun (lower : List Char) : Bool :=
  CODE_NOUNS.any (fun n => has lower (" " ++ n) || has lower (n ++ " ")) || has lower "script" ||
    has lower "code"

/-- A file name for a bare word. -/
def with_extension (lang : Option String) (w : List Char) : String :=
  if w.contains '.' then String.ofList w
  else String.ofList w ++ "." ++ ((lang.bind lang_row).map Lang.ext).getD "txt"

def write_code_intent (t lower : List Char) : Option FastIntent :=
  let filename := code_filename word_final t
  if has_write_verb lower ∧ (has_code_noun lower ∨ filename.isSome) then
    let lang := detect_lang lower
    let fname := (filename.map String.ofList).orElse (fun _ =>
      (named_word lower).map (with_extension lang))
    some (.WriteCode lang fname (String.ofList t) (RUN_AFTER.any (has lower)))
  else none

def list_files_intent (t lower : List Char) : Option FastIntent :=
  if LISTINGS.any (fun p => p.toList.isPrefixOf lower) then
    some (.ListFiles ((extract_path t).elim "." String.ofList))
  else none

def capabilities_intent (lower : List Char) : Option FastIntent :=
  if CAPABILITY_QUESTIONS.any (fun p =>
      lower.rdropWhile (fun c => c == '?' || c == '.' || c == '!') == p.toList) then
    some .Capabilities
  else none

/-- A branch of `classify`: it either decides at once, or cuts the text so that as many bytes are
left as the lower-cased text has behind the verb, and decides by what is left. -/
inductive Branch
  | ask (intent : Option FastIntent)
  | cut (rest : List Char) (intent : List Char → Option FastIntent)

/-- `&t[t.len() - n..]`: a character that lies across the cut is a panic, and so is a text that is
too short. -/
def last_bytes (n : Nat) : List Char → Option (List Char)
  | [] => if n = 0 then some [] else none
  | c :: rest => if byte_len (c :: rest) = n then some (c :: rest) else last_bytes n rest

/-- What comes of a branch: none is a panic. -/
def Branch.run (t : List Char) : Branch → Option (Option FastIntent)
  | .ask intent => some intent
  | .cut rest intent => (last_bytes (byte_len rest) t).map intent

def trim_dots (cs : List Char) : List Char := cs.rdropWhile (fun c => c == '.')

def remember_branch (lower : List Char) : Branch :=
  match strip_prefix_any lower ["remember that ", "remember "] with
  | none => .ask none
  | some rest =>
    if trim (trim_dots (trim rest)) = [] then .ask none
    else .cut rest (fun s => some (.Remember (String.ofList (trim_dots (trim s)))))

def doc_search_branch (lower : List Char) (p : String) : Branch :=
  match strip p lower with
  | none => .ask none
  | some rest =>
    if trim rest = [] then .ask none
    else .cut rest (fun s => some (.DocSearch (String.ofList (trim s))))

/-- A verb with a path behind it. -/
def path_branch (lower : List Char) (intent : String → Option FastIntent) (v : String) : Branch :=
  match strip v lower with
  | none => .ask none
  | some rest => .cut rest (fun s => (extract_path s).bind (fun p => intent (String.ofList p)))

def run_intent (p : String) : Option FastIntent :=
  if (runner_for windows p).isSome then some (.RunFile p) else none

/-- The branches of `classify`, in their order, for the trimmed text. -/
def branches (t : List Char) : List Branch :=
  if t = [] ∨ t.head? = some '/' then []
  else
    let lower := to_lowercase word_final t
    [.ask (capabilities_intent lower), remember_branch lower] ++
      DOC_SEARCHES.map (doc_search_branch lower) ++
      [.ask (write_code_intent word_final t lower), .ask (list_files_intent t lower)] ++
      RUN_VERBS.map (path_branch lower (run_intent windows)) ++
      READ_VERBS.map (path_branch lower (fun p => some (.ReadFile p))) ++
      DELETE_VERBS.map (path_branch lower (fun p => some (.DeleteFile p)))

/-- The first branch that decides. -/
def first_intent (t : List Char) : List Branch → Option (Option FastIntent)
  | [] => some none
  | b :: rest =>
    match b.run t with
    | none => none
    | some (some intent) => some (some intent)
    | some none => first_intent t rest

/-- `classify`: none is a panic. -/
def classify (input : String) : Option (Option FastIntent) :=
  first_intent (trim input.toList) (branches windows word_final (trim input.toList))

end Classify

/-! ## Parts of a text -/

theorem trim_matches_within (p : Char → Bool) (cs : List Char) : trim_matches p cs <:+: cs :=
  (List.rdropWhile_prefix p _).isInfix.trans (List.dropWhile_suffix p).isInfix

theorem trim_within (cs : List Char) : trim cs <:+: cs :=
  (List.dropWhile_suffix is_whitespace).isInfix.trans
    (List.rdropWhile_prefix is_whitespace cs).isInfix

theorem splitOnP_parts (p : Char → Bool) (cs : List Char) :
    (∀ w, (cs.splitOnP p).head? = some w → w <+: cs) ∧ ∀ w ∈ cs.splitOnP p, w <:+: cs := by
  induction cs with
  | nil =>
    refine ⟨?_, ?_⟩
    · intro w hw
      simp only [List.splitOnP_nil, List.head?_cons, Option.some.injEq] at hw
      subst hw
      exact List.prefix_refl _
    · intro w hw
      rw [List.splitOnP_nil, List.mem_singleton] at hw
      subst hw
      exact List.infix_rfl
  | cons c rest ih =>
    rw [List.splitOnP_cons_eq_if_modifyHead]
    by_cases hc : p c = true
    · rw [if_pos hc]
      refine ⟨?_, ?_⟩
      · intro w hw
        cases hw
        exact List.nil_prefix
      · intro w hw
        rcases List.mem_cons.mp hw with rfl | hw
        · exact List.nil_infix
        · exact (ih.2 w hw).trans (List.suffix_cons c rest).isInfix
    · rw [if_neg hc]
      rcases hparts : rest.splitOnP p with _ | ⟨w, ws⟩
      · exact (List.splitOnP_ne_nil p rest hparts).elim
      · rw [hparts] at ih
        have hw : c :: w <+: c :: rest := List.cons_prefix_cons.mpr ⟨rfl, ih.1 w rfl⟩
        refine ⟨?_, ?_⟩
        · intro w' hw'
          simp only [List.modifyHead_cons, List.head?_cons, Option.some.injEq] at hw'
          rw [← hw']
          exact hw
        · intro w' hw'
          rcases List.mem_cons.mp hw' with rfl | hw'
          · exact hw.isInfix
          · exact (ih.2 w' (List.mem_cons_of_mem _ hw')).trans (List.suffix_cons c rest).isInfix

theorem extract_path_within {cs p : List Char} (h : extract_path cs = some p) : p <:+: cs := by
  unfold extract_path at h
  obtain ⟨tok, hfound, rfl⟩ := Option.map_eq_some_iff.mp h
  have hmem := List.mem_of_find?_eq_some hfound
  rw [List.mem_reverse, split_whitespace, List.mem_filter] at hmem
  exact (trim_matches_within _ tok).trans ((splitOnP_parts is_whitespace cs).2 tok hmem.1)

@[simp] theorem byte_len_nil : byte_len [] = 0 := rfl

theorem byte_len_cons (c : Char) (cs : List Char) :
    byte_len (c :: cs) = (String.utf8EncodeChar c).length + byte_len cs := by
  simp [byte_len, encode]

theorem byte_len_suffix {a b : List Char} (h : a <:+ b) : byte_len a ≤ byte_len b := by
  obtain ⟨t, rfl⟩ := h
  simp [byte_len, encode]

/-- The cut is the end of the text with so many bytes, where there is one. -/
theorem last_bytes_eq_some {n : Nat} {t s : List Char} :
    last_bytes n t = some s ↔ s <:+ t ∧ byte_len s = n := by
  induction t with
  | nil =>
    rw [List.suffix_nil]
    unfold last_bytes
    by_cases hn : n = 0
    · rw [if_pos hn, Option.some.injEq]
      constructor
      · rintro rfl
        exact ⟨rfl, hn.symm⟩
      · rintro ⟨rfl, -⟩
        rfl
    · rw [if_neg hn]
      constructor
      · nofun
      · rintro ⟨rfl, hlen⟩
        exact (hn hlen.symm).elim
  | cons c rest ih =>
    unfold last_bytes
    have hpos : 0 < (String.utf8EncodeChar c).length := by simp [Char.utf8Size_pos]
    rw [List.suffix_cons_iff]
    by_cases hn : byte_len (c :: rest) = n
    · rw [if_pos hn, Option.some.injEq]
      constructor
      · rintro rfl
        exact ⟨.inl rfl, hn⟩
      · rintro ⟨rfl | hs, hlen⟩
        · rfl
        · have := byte_len_suffix hs
          rw [byte_len_cons] at hn
          omega
    · rw [if_neg hn, ih]
      constructor
      · rintro ⟨hs, hlen⟩
        exact ⟨.inr hs, hlen⟩
      · rintro ⟨rfl | hs, hlen⟩
        · exact (hn hlen).elim
        · exact ⟨hs, hlen⟩

/-! ## What the branches give -/

/-- What an intent holds is taken off the text as it stands. The path of a listing is the current
directory where the text names none. -/
def TakenOff (t : List Char) : FastIntent → Prop
  | .Remember content => content.toList <:+: t
  | .DocSearch query => query.toList <:+: t
  | .ReadFile path => path.toList <:+: t
  | .DeleteFile path => path.toList <:+: t
  | .RunFile path => path.toList <:+: t
  | .ListFiles path => path.toList <:+: t ∨ (path = "." ∧ extract_path t = none)
  | .WriteCode _ _ spec _ => spec.toList = t
  | .Capabilities => True

section Branches
variable {windows : Bool} {word_final : List Char → List Char → Bool} {t lower : List Char}

/-- A branch decides by what it takes off the text. -/
def Faithful (t : List Char) (b : Branch) : Prop :=
  ∀ i, b.run t = some (some i) → TakenOff t i

theorem faithful_ask {intent : Option FastIntent} (h : ∀ i, intent = some i → TakenOff t i) :
    Faithful t (.ask intent) := by
  intro i hi
  exact h i (Option.some.inj hi)

theorem faithful_cut {rest : List Char} {intent : List Char → Option FastIntent}
    (h : ∀ s, s <:+ t → ∀ i, intent s = some i → TakenOff t i) : Faithful t (.cut rest intent) := by
  intro i hi
  obtain ⟨s, hs, hintent⟩ := Option.map_eq_some_iff.mp hi
  exact h s (last_bytes_eq_some.mp hs).1 i hintent

theorem faithful_none : Faithful t (.ask none) := faithful_ask nofun

theorem faithful_path {intent : String → Option FastIntent}
    (h : ∀ p i, p.toList <:+: t → intent p = some i → TakenOff t i) (v : String) :
    Faithful t (path_branch lower intent v) := by
  unfold path_branch
  split
  · exact faithful_none
  · apply faithful_cut
    intro s hs i hi
    obtain ⟨p, hp, hi⟩ := Option.bind_eq_some_iff.mp hi
    apply h (String.ofList p) i _ hi
    rw [String.toList_ofList]
    exact (extract_path_within hp).trans hs.isInfix

theorem faithful_branches : ∀ b ∈ branches windows word_final t, Faithful t b := by
  intro b hb
  unfold branches at hb
  split at hb
  · cases hb
  simp only [List.mem_append, List.mem_cons, List.mem_map, List.not_mem_nil, or_false] at hb
  rcases hb with (((((rfl | rfl) | ⟨p, -, rfl⟩) | rfl | rfl) | ⟨v, -, rfl⟩) | ⟨v, -, rfl⟩) | ⟨v, -, rfl⟩
  · apply faithful_ask
    intro i hi
    unfold capabilities_intent at hi
    split at hi
    · cases hi
      trivial
    · cases hi
  · unfold remember_branch
    split
    · exact faithful_none
    · split
      · exact faithful_none
      · apply faithful_cut
        intro s hs i hi
        cases hi
        have hdots : trim_dots (trim s) <:+: s :=
          (List.rdropWhile_prefix _ _).isInfix.trans (trim_within s)
        simpa [TakenOff] using hdots.trans hs.isInfix
  · unfold doc_search_branch
    split
    · exact faithful_none
    · split
      · exact faithful_none
      · apply faithful_cut
        intro s hs i hi
        cases hi
        simpa [TakenOff] using (trim_within s).trans hs.isInfix
  · apply faithful_ask
    intro i hi
    unfold write_code_intent at hi
    dsimp only at hi
    split at hi
    · cases hi
      exact String.toList_ofList
    · cases hi
  · apply faithful_ask
    intro i hi
    unfold list_files_intent at hi
    split at hi
    · cases hi
      rcases hpath : extract_path t with _ | p
      · exact .inr ⟨rfl, hpath⟩
      · left
        simpa using extract_path_within hpath
    · cases hi
  · apply faithful_path
    intro p i hp hi
    unfold run_intent at hi
    split at hi
    · cases hi
      exact hp
    · cases hi
  · apply faithful_path
    intro p i hp hi
    cases hi
    exact hp
  · apply faithful_path
    intro p i hp hi
    cases hi
    exact hp

/-! ## Where the text is cut -/

/-- A panic is that of the first branch that does not let the text go on. -/
theorem first_intent_none {bs : List Branch} :
    first_intent t bs = none ↔
      ∃ before b after, bs = before ++ b :: after ∧ (∀ x ∈ before, x.run t = some none) ∧
        b.run t = none := by
  induction bs with
  | nil =>
    constructor
    · nofun
    · rintro ⟨before, b, after, h, -⟩
      simp at h
  | cons x bs ih =>
    unfold first_intent
    rcases hx : x.run t with _ | _ | i
    · constructor
      · intro _
        exact ⟨[], x, bs, rfl, by simp, hx⟩
      · intro _
        rfl
    · dsimp only
      rw [ih]
      constructor
      · rintro ⟨before, b, after, rfl, hbefore, hb⟩
        refine ⟨x :: before, b, after, rfl, ?_, hb⟩
        simpa [hx] using hbefore
      · rintro ⟨before, b, after, heq, hbefore, hb⟩
        cases before with
        | nil =>
          cases heq
          rw [hx] at hb
          cases hb
        | cons y before =>
          cases heq
          exact ⟨before, b, after, rfl, fun z hz => hbefore z (List.mem_cons_of_mem _ hz), hb⟩
    · constructor
      · nofun
      · rintro ⟨before, b, after, heq, hbefore, hb⟩
        cases before with
        | nil =>
          cases heq
          rw [hx] at hb
          cases hb
        | cons y before =>
          cases heq
          have := hbefore _ List.mem_cons_self
          rw [hx] at this
          cases this

/-- What is decided is decided by a branch. -/
theorem first_intent_some {bs : List Branch} {i : FastIntent}
    (h : first_intent t bs = some (some i)) : ∃ b ∈ bs, b.run t = some (some i) := by
  induction bs with
  | nil => cases h
  | cons x bs ih =>
    unfold first_intent at h
    rcases hx : x.run t with _ | _ | j
    · simp [hx] at h
    · simp only [hx] at h
      obtain ⟨b, hb, hrun⟩ := ih h
      exact ⟨b, List.mem_cons_of_mem _ hb, hrun⟩
    · simp only [hx] at h
      exact ⟨x, List.mem_cons_self, hx.trans h⟩

/-- A branch panics where no end of the text has as many bytes as stand behind the verb. -/
theorem run_none {b : Branch} :
    b.run t = none ↔ ∃ rest intent, b = .cut rest intent ∧
      ¬ ∃ s, s <:+ t ∧ byte_len s = byte_len rest := by
  cases b with
  | ask intent => simp [Branch.run]
  | cut rest intent =>
    have hrun : Branch.run t (.cut rest intent) = none ↔ last_bytes (byte_len rest) t = none := by
      simp [Branch.run]
    rw [hrun, Option.eq_none_iff_forall_ne_some]
    constructor
    · intro h
      refine ⟨rest, intent, rfl, ?_⟩
      rintro ⟨s, hs⟩
      exact h s (last_bytes_eq_some.mpr hs)
    · rintro ⟨_, _, heq, h⟩ s hs
      cases heq
      exact h ⟨s, last_bytes_eq_some.mp hs⟩

end Branches

/-! ## The law of the classifier -/

section Law
variable (windows : Bool) (word_final : List Char → List Char → Bool)

/-- `classify` returns, and what it decided on is taken off the trimmed text. -/
def Classifies (input : String) : Prop :=
  ∃ r, classify windows word_final input = some r ∧
    ∀ i, r = some i → TakenOff (trim input.toList) i

/-- Where `classify` comes to cut the text behind a verb, some end of the trimmed text has as many
bytes as the lower-cased text has behind that verb. -/
def CutsWhole (input : String) : Prop :=
  ∀ before rest intent after,
    branches windows word_final (trim input.toList) = before ++ .cut rest intent :: after →
    (∀ b ∈ before, b.run (trim input.toList) = some none) →
      ∃ s, s <:+ trim input.toList ∧ byte_len s = byte_len rest

/-- **The classifier returns exactly where it cuts between characters.** Then what it extracts is a
part of the trimmed text. -/
theorem classifies_iff_cuts_whole (input : String) :
    Classifies windows word_final input ↔ CutsWhole windows word_final input := by
  have hnone : classify windows word_final input = none ↔ ¬ CutsWhole windows word_final input := by
    unfold classify CutsWhole
    rw [first_intent_none]
    constructor
    · rintro ⟨before, b, after, heq, hbefore, hb⟩ hwhole
      obtain ⟨rest, intent, rfl, hno⟩ := run_none.mp hb
      exact hno (hwhole before rest intent after heq hbefore)
    · intro h
      push Not at h
      obtain ⟨before, rest, intent, after, heq, hbefore, hno⟩ := h
      refine ⟨before, _, after, heq, hbefore, run_none.mpr ⟨rest, intent, rfl, ?_⟩⟩
      rintro ⟨s, hs, hlen⟩
      exact hno s hs hlen
  constructor
  · rintro ⟨r, hr, -⟩
    by_contra hcut
    rw [hnone.mpr hcut] at hr
    cases hr
  · intro hcut
    rcases hr : classify windows word_final input with _ | r
    · exact (hnone.mp hr hcut).elim
    · refine ⟨r, hr, ?_⟩
      rintro i rfl
      obtain ⟨b, hb, hrun⟩ := first_intent_some hr
      exact faithful_branches b hb i hrun

/-! ## Texts that keep their length -/

/-- Each character has one small form, of as many bytes. -/
def KeepsLength (cs : List Char) : Prop :=
  ∀ c ∈ cs, ∃ d, lower_char c = [d] ∧ byte_len [d] = byte_len [c]

theorem lower_from_drop {cs : List Char} (h : KeepsLength cs) (behind : List Char) (n : Nat) :
    byte_len ((lower_from word_final behind cs).drop n) = byte_len (cs.drop n) := by
  induction cs generalizing behind n with
  | nil => rfl
  | cons c rest ih =>
    have hrest : KeepsLength rest := fun d hd => h d (List.mem_cons_of_mem _ hd)
    have hone : ∃ d, (if c.toNat = 0x3A3 ∧ word_final behind rest then [Char.ofNat 0x3C2]
        else lower_char c) = [d] ∧ byte_len [d] = byte_len [c] := by
      split
      · rename_i hsigma
        refine ⟨_, rfl, ?_⟩
        obtain rfl : c = Char.ofNat 0x3A3 := by rw [← hsigma.1, Char.ofNat_toNat]
        decide
      · exact h c List.mem_cons_self
    obtain ⟨d, hd, hlen⟩ := hone
    rw [lower_from, hd, List.singleton_append]
    cases n with
    | zero =>
      have hall := ih hrest (c :: behind) 0
      simp only [byte_len_cons, byte_len_nil] at hlen
      simp only [List.drop_zero] at hall ⊢
      rw [byte_len_cons, byte_len_cons, hall]
      omega
    | succ n => exact ih hrest (c :: behind) n

theorem strip_drop {p : String} {cs rest : List Char} (h : strip p cs = some rest) :
    ∃ n, rest = cs.drop n := by
  unfold strip at h
  split at h
  · exact ⟨_, (Option.some.inj h).symm⟩
  · cases h

/-- What stands behind a verb is an end of the lower-cased text. -/
theorem cut_drop {t rest : List Char} {intent : List Char → Option FastIntent}
    (h : Branch.cut rest intent ∈ branches windows word_final t) :
    ∃ n, rest = (to_lowercase word_final t).drop n := by
  have hpath : ∀ {f : String → Option FastIntent} {v : String} {lower : List Char},
      path_branch lower f v = .cut rest intent → ∃ n, rest = lower.drop n := by
    intro f v lower hv
    unfold path_branch at hv
    split at hv
    · cases hv
    · rename_i hstrip
      cases hv
      exact strip_drop hstrip
  unfold branches at h
  split at h
  · cases h
  simp only [List.mem_append, List.mem_cons, List.mem_map, List.not_mem_nil, or_false] at h
  rcases h with (((((h | h) | ⟨p, -, h⟩) | h | h) | ⟨v, -, h⟩) | ⟨v, -, h⟩) | ⟨v, -, h⟩
  · cases h
  · unfold remember_branch strip_prefix_any at h
    split at h
    · cases h
    · rename_i hstrip
      split at h
      · cases h
      · cases h
        obtain ⟨p, -, hp⟩ := List.exists_of_findSome?_eq_some hstrip
        exact strip_drop hp
  · unfold doc_search_branch at h
    split at h
    · cases h
    · rename_i hstrip
      split at h
      · cases h
      · cases h
        exact strip_drop hstrip
  · cases h
  · cases h
  · exact hpath h
  · exact hpath h
  · exact hpath h

/-- A text that keeps its length is classified: so is every ASCII text. -/
theorem classifies_of_keeps_length {input : String} (h : KeepsLength (trim input.toList)) :
    Classifies windows word_final input := by
  rw [classifies_iff_cuts_whole]
  intro before rest intent after heq _
  have hmem : Branch.cut rest intent ∈ branches windows word_final (trim input.toList) := by
    rw [heq]
    simp
  obtain ⟨n, rfl⟩ := cut_drop windows word_final hmem
  exact ⟨(trim input.toList).drop n, List.drop_suffix _ _,
    (lower_from_drop word_final h [] n).symm⟩

end Law

/-- A letter that takes three bytes and whose small form takes one. -/
def kelvin : Char := Char.ofNat 0x212A

theorem a_kelvin_sign_stops_the_classifier :
    ¬ ∀ windows word_final input, Classifies windows word_final input := by
  intro h
  obtain ⟨r, hr, -⟩ := h false (fun _ _ => false) (String.ofList ("remember ".toList ++ [kelvin]))
  have hpanic : classify false (fun _ _ => false)
      (String.ofList ("remember ".toList ++ [kelvin])) = none := by decide +kernel
  rw [hpanic] at hr
  cases hr

end pai_agent.fastpath
