-- Streamed answers against the answer: what the decoder emits of a text, and what
-- dispatch makes of the whole of it (pai-agent lib.rs, pai-inference lib.rs).
import PersonalAi.FinalStream

open json text

namespace pai_agent

deriving instance DecidableEq for ModelAction

/-! ## The answer -/

/-- A member of an object: its value, and the position where the value begins. -/
structure Member where
  key : String
  value : Value
  value_at : Nat

/-- `serde_json` on the text of an object: its members in their order, none for a
text that is no object. -/
structure Reader where
  members : List Char → Option (List Member)

/-- The value of a field that stands once: a derived struct refuses a second one. -/
def only (ms : List Member) (key : String) : Option Value :=
  match ms.filter (fun m => m.key = key) with
  | [m] => some m.value
  | _ => none

/-- `from_str::<ModelAction>`: the tag is `type`, and other fields are ignored. -/
def from_str_action (ms : List Member) : Option ModelAction :=
  match (only ms "type").bind Value.as_str with
  | some "tool_call" =>
    match only ms "name", only ms "arguments" with
    | some (.string name), some arguments => some (.ToolCall name arguments)
    | _, _ => none
  | some "final" =>
    match only ms "content" with
    | some (.string content) => some (.Final content)
    | _ => none
  | _ => none

/-- `Value::get`: of two members with one key, the later one stays. -/
def get (ms : List Member) (key : String) : Option Value :=
  (ms.reverse.find? (fun m => m.key = key)).map Member.value

def get_str (ms : List Member) (key : String) : Option String := (get ms key).bind Value.as_str

/-- The shapes that small models emit. -/
def bare_action (ms : List Member) : Option ModelAction :=
  let ty := get_str ms "type"
  let final :=
    (["content", "answer", "text", "response"].findSome? (get_str ms)).bind (fun content =>
      if ty ∈ [none, some "final", some "answer", some "final_answer", some "response"] then
        some (.Final content)
      else none)
  match ["name", "tool", "tool_name", "function"].findSome? (get_str ms) with
  | some name =>
    if ty = none ∨ ty = some "tool_call" then
      some (.ToolCall name
        ((["arguments", "args", "input", "parameters"].findSome? (get ms)).getD (.object [])))
    else final
  | none => final

/-- The loop that looks for the end of the object: how many characters it takes. -/
def object_end : Int → Bool → Bool → List Char → Option Nat
  | _, _, _, [] => none
  | depth, true, esc, c :: rest =>
    if esc then (object_end depth true false rest).map (· + 1)
    else if c = '\\' then (object_end depth true true rest).map (· + 1)
    else if c = '"' then (object_end depth false false rest).map (· + 1)
    else (object_end depth true false rest).map (· + 1)
  | depth, false, esc, c :: rest =>
    if c = '"' then (object_end depth true esc rest).map (· + 1)
    else if c = '\x7b' then (object_end (depth + 1) false esc rest).map (· + 1)
    else if c = '\x7d' then
      if depth - 1 = 0 then some 1 else (object_end (depth - 1) false esc rest).map (· + 1)
    else (object_end depth false esc rest).map (· + 1)

/-- The outermost object in a text. -/
def object_text (cs : List Char) : Option (List Char) :=
  let trimmed := trim cs
  (find ['\x7b'] trimmed).bind (fun start =>
    (object_end 0 false false (trimmed.drop start)).map (fun n => (trimmed.drop start).take n))

def parse_action (r : Reader) (cs : List Char) : Option ModelAction :=
  (object_text cs).bind (fun json =>
    (r.members json).bind (fun ms => (from_str_action ms).orElse (fun _ => bare_action ms)))

/-- The reading of texts and the decoder of streamed answers, for the model loop. -/
def Reader.model_text (r : Reader) (looks_like_tool_attempt : String → List ToolSpec → Bool) :
    ModelText :=
  { parse_action := fun s => parse_action r s.toList,
    looks_like_tool_attempt := looks_like_tool_attempt,
    push := fun seen d =>
      ((FinalStream.behind (seen.map String.toList)).push d.toList).2.map String.ofList }

/-! ## Agreement -/

/-- The output of the model, which comes in chunks. -/
def output (chunks : List String) : List Char := (chunks.map String.toList).flatten

/-- The deltas that are emitted, one after the other. -/
def streamed (chunks : List String) : List Char := emitted (chunks.map String.toList)

/-- The answer as the providers fill it in. -/
def answer (r : Reader) (chunks : List String) : GenerateResponse :=
  { text := String.ofList (output chunks), action := parse_action r (output chunks) }

/-- Nothing was emitted, or the text that dispatch takes for the final answer. -/
def Agrees (r : Reader) (looks_like_tool_attempt : String → List ToolSpec → Bool)
    (chunks : List String) : Prop :=
  match dispatch (r.model_text looks_like_tool_attempt) (answer r chunks) with
  | .Final content => streamed chunks = [] ∨ streamed chunks = content.toList
  | .ToolCall _ _ => streamed chunks = []

/-! ## The text of a string -/

/-- The number that four hexadecimal digits stand for. -/
def hex4 (a b c d : Char) : Option Nat :=
  (to_digit_16 a).bind (fun w => (to_digit_16 b).bind (fun x => (to_digit_16 c).bind (fun y =>
    (to_digit_16 d).map (fun z => ((w * 16 + x) * 16 + y) * 16 + z))))

/-- What stands between the quotes of a string in JSON, and the string it stands for;
so many of its characters are written as a pair of surrogates. -/
inductive Literal : Nat → List Char → List Char → Prop
  | nil : Literal 0 [] []
  | plain {n : Nat} {lit s : List Char} {c : Char} (hquote : c ≠ '"') (hslash : c ≠ '\\')
      (rest : Literal n lit s) : Literal n (c :: lit) (c :: s)
  | escape {n : Nat} {lit s : List Char} {c : Char}
      (hc : c ∈ ['"', '\\', '/', 'b', 'f', 'n', 'r', 't']) (rest : Literal n lit s) :
      Literal n ('\\' :: c :: lit) (unescape_char c :: s)
  | unicode {n code : Nat} {lit s : List Char} {a b c d ch : Char} (hcode : hex4 a b c d = some code)
      (hch : from_u32 code = some ch) (rest : Literal n lit s) :
      Literal n ('\\' :: 'u' :: a :: b :: c :: d :: lit) (ch :: s)
  | pair {n high low : Nat} {lit s : List Char} {a b c d e f g h : Char} (ch : Char)
      (hhigh : hex4 a b c d = some high) (hlow : hex4 e f g h = some low)
      (hhalf : from_u32 high = none) (hhalf' : from_u32 low = none) (rest : Literal n lit s) :
      Literal (n + 1)
        ('\\' :: 'u' :: a :: b :: c :: d :: '\\' :: 'u' :: e :: f :: g :: h :: lit) (ch :: s)

/-- `serde_json` reads a string off its literal. -/
def Reader.Reads (r : Reader) : Prop :=
  ∀ json ms m s, r.members json = some ms → m ∈ ms → m.value = .string s →
    ∃ n lit tail, json.drop m.value_at = '"' :: (lit ++ '"' :: tail) ∧ Literal n lit s.toList

/-- The quote in front of this position opens the literal of the final content. -/
def OpensAt (r : Reader) (cs : List Char) (q : Nat) (s : String) (n : Nat) : Prop :=
  parse_action r cs = some (.Final s) ∧
    ∃ start json ms m lit tail, find ['\x7b'] cs = some start ∧ object_text cs = some json ∧
      r.members json = some ms ∧ m ∈ ms ∧ m.value = .string s ∧ q = start + (m.value_at + 1) ∧
      json.drop m.value_at = '"' :: (lit ++ '"' :: tail) ∧ Literal n lit s.toList

/-- A text that streams as it is has no action in it. A text that streams from a quote
on has the content of its action there, and no pair of surrogates in it, or nothing
else. -/
def Streams (r : Reader) (chunks : List String) : Prop :=
  match verdict [] (chunks.map String.toList) with
  | .raw => parse_action r (output chunks) = none
  | .content q => ∃ s n, OpensAt r (output chunks) q s n ∧ (n = 0 ∨ s.length = n)
  | _ => True

/-! ## Decoding a literal -/

theorem decode_hex4 {a b c d : Char} {code : Nat} (h : hex4 a b c d = some code) (rest : List Char) :
    decode .InContent ('\\' :: 'u' :: a :: b :: c :: d :: rest) =
      (decode .InContent rest).emit (from_u32 code).toList := by
  unfold hex4 at h
  obtain ⟨w, hw, h⟩ := Option.bind_eq_some_iff.mp h
  obtain ⟨x, hx, h⟩ := Option.bind_eq_some_iff.mp h
  obtain ⟨y, hy, h⟩ := Option.bind_eq_some_iff.mp h
  obtain ⟨z, hz, rfl⟩ := Option.map_eq_some_iff.mp h
  rw [decode_backslash, decode_u, decode_digit hw (by decide), decode_digit hx (by decide),
    decode_digit hy (by decide), decode_last_digit hz]
  simp

/-- The decoder gives the string, but for the pairs of surrogates, which it drops. -/
theorem decode_literal {n : Nat} {lit s : List Char} (h : Literal n lit s) (tail : List Char) :
    (decode .InContent (lit ++ '"' :: tail)).out.length + n = s.length ∧
      (n = 0 → (decode .InContent (lit ++ '"' :: tail)).out = s) := by
  induction h with
  | nil => exact ⟨rfl, fun _ => rfl⟩
  | @plain n lit s c hquote hslash rest ih =>
    rw [List.cons_append, decode_plain hquote hslash]
    refine ⟨?_, fun hn => congrArg (c :: ·) (ih.2 hn)⟩
    have := ih.1
    simp only [Decoded.emit, List.length_append, List.length_cons, List.length_nil]
    omega
  | @escape n lit s c hc rest ih =>
    have hu : c ≠ 'u' := by
      rintro rfl
      revert hc
      decide
    rw [List.cons_append, List.cons_append, decode_backslash, decode_escape hu]
    refine ⟨?_, fun hn => congrArg (unescape_char c :: ·) (ih.2 hn)⟩
    have := ih.1
    simp only [Decoded.emit, List.length_append, List.length_cons, List.length_nil]
    omega
  | @unicode n code lit s a b c d ch hcode hch rest ih =>
    simp only [List.cons_append]
    rw [decode_hex4 hcode, hch]
    refine ⟨?_, fun hn => congrArg (ch :: ·) (ih.2 hn)⟩
    have := ih.1
    simp only [Decoded.emit, Option.toList_some, List.length_append, List.length_cons, List.length_nil]
    omega
  | @pair n high low lit s a b c d e f g h ch hhigh hlow hhalf hhalf' rest ih =>
    simp only [List.cons_append]
    rw [decode_hex4 hhigh, hhalf, decode_hex4 hlow, hhalf']
    refine ⟨?_, fun hn => by omega⟩
    have := ih.1
    simp only [Decoded.emit, Option.toList_none, List.nil_append, List.length_cons]
    omega

/-- A literal is as long as its string, or longer. -/
theorem literal_length {n : Nat} {lit s : List Char} (h : Literal n lit s) : s.length ≤ lit.length := by
  induction h with
  | nil => exact Nat.le_refl _
  | plain _ _ _ ih => simpa using ih
  | escape _ _ ih =>
    simp only [List.length_cons]
    omega
  | unicode _ _ _ ih =>
    simp only [List.length_cons]
    omega
  | pair _ _ _ _ _ _ ih =>
    simp only [List.length_cons]
    omega

/-! ## Where the object stands -/

theorem find_behind {c : Char} {a : List Char} (h : c ∉ a) (b : List Char) :
    find [c] (a ++ b) = (find [c] b).map (a.length + ·) := by
  induction a with
  | nil => simp
  | cons x rest ih =>
    have hx : x ≠ c := fun heq => h (heq ▸ List.mem_cons_self)
    have hrest := ih (fun hmem => h (List.mem_cons_of_mem _ hmem))
    have hstep : find [c] (x :: (rest ++ b)) = (find [c] (rest ++ b)).map (· + 1) := by
      unfold find
      rw [split_once_str, if_neg (by simpa using hx.symm), Option.map_map, Option.map_map]
      rfl
    rw [List.cons_append, hstep, hrest, Option.map_map]
    congr 1
    funext i
    simp
    omega

theorem trim_spec (cs : List Char) :
    ∃ a b, cs = a ++ (trim cs ++ b) ∧ ∀ c ∈ a, is_whitespace c = true := by
  refine ⟨(trim_end cs).takeWhile is_whitespace, cs.rtakeWhile is_whitespace, ?_, ?_⟩
  · have hend : trim_end cs ++ cs.rtakeWhile is_whitespace = cs :=
      List.rdropWhile_append_rtakeWhile ..
    unfold trim trim_start
    rw [← List.append_assoc, List.takeWhile_append_dropWhile, hend]
  · exact fun c hc => List.mem_takeWhile_imp hc

/-- The object begins at the first brace of the text. -/
theorem object_text_spec {cs json : List Char} (h : object_text cs = some json) :
    ∃ start rest, find ['\x7b'] cs = some start ∧ cs.drop start = json ++ rest := by
  unfold object_text at h
  obtain ⟨start, hstart, h⟩ := Option.bind_eq_some_iff.mp h
  obtain ⟨n, -, rfl⟩ := Option.map_eq_some_iff.mp h
  obtain ⟨a, b, hcs, ha⟩ := trim_spec cs
  have hbrace : '\x7b' ∉ a := by
    intro hmem
    have := ha _ hmem
    revert this
    decide
  obtain ⟨hfind, hle⟩ := find_append hstart b
  refine ⟨a.length + start, ((trim cs).drop start).drop n ++ b, ?_, ?_⟩
  · conv_lhs => rw [hcs]
    rw [find_behind hbrace, hfind]
    rfl
  · conv_lhs => rw [hcs]
    rw [List.length_singleton] at hle
    rw [← List.drop_drop, List.drop_left, drop_append_le (by omega), ← List.append_assoc,
      List.take_append_drop]

/-- The content of a final action is the string of a member. -/
theorem content_is_read {r : Reader} {cs : List Char} {s : String}
    (h : parse_action r cs = some (.Final s)) :
    ∃ json ms m, object_text cs = some json ∧ r.members json = some ms ∧ m ∈ ms ∧
      m.value = .string s := by
  obtain ⟨json, hjson, h⟩ := Option.bind_eq_some_iff.mp h
  obtain ⟨ms, hms, h⟩ := Option.bind_eq_some_iff.mp h
  have hget : ∀ key, get_str ms key = some s → ∃ m ∈ ms, m.value = .string s := by
    intro key hkey
    obtain ⟨value, hvalue, hs⟩ := Option.bind_eq_some_iff.mp hkey
    obtain ⟨m, hm, rfl⟩ := Option.map_eq_some_iff.mp hvalue
    refine ⟨m, List.mem_reverse.mp (List.mem_of_find?_eq_some hm), ?_⟩
    unfold Value.as_str at hs
    split at hs
    · rename_i heq
      rw [heq, Option.some.inj hs]
    · cases hs
  have hfinal : ∀ ty, ((["content", "answer", "text", "response"].findSome? (get_str ms)).bind
      (fun content =>
        if ty ∈ [none, some "final", some "answer", some "final_answer", some "response"] then
          some (ModelAction.Final content)
        else none)) = some (.Final s) → ∃ m ∈ ms, m.value = .string s := by
    intro ty hbind
    obtain ⟨content, hcontent, hsome⟩ := Option.bind_eq_some_iff.mp hbind
    split at hsome
    · cases hsome
      obtain ⟨key, -, hkey⟩ := List.exists_of_findSome?_eq_some hcontent
      exact hget key hkey
    · cases hsome
  suffices hmember : ∃ m ∈ ms, m.value = .string s by
    obtain ⟨m, hm, hvalue⟩ := hmember
    exact ⟨json, ms, m, hjson, hms, hm, hvalue⟩
  rcases htyped : from_str_action ms with _ | action
  · rw [htyped, Option.orElse_none] at h
    unfold bare_action at h
    dsimp only at h
    split at h
    · split at h
      · cases h
      · exact hfinal _ h
    · exact hfinal _ h
  · rw [htyped, Option.orElse_some] at h
    cases h
    unfold from_str_action at htyped
    split at htyped
    · split at htyped <;> cases htyped
    · split at htyped
      · rename_i content hcontent
        cases htyped
        unfold only at hcontent
        split at hcontent
        · rename_i m hfilter
          refine ⟨m, ?_, Option.some.inj hcontent⟩
          have hmem : m ∈ ms.filter (fun m => m.key = "content") := by
            rw [hfilter]
            exact List.mem_singleton_self m
          exact (List.mem_filter.mp hmem).1
        · cases hcontent
      · cases htyped
    · cases htyped

/-- A final content is shorter than the text that it is read from. -/
theorem content_shorter {r : Reader} (hreads : r.Reads) {cs : List Char} {s : String}
    (h : parse_action r cs = some (.Final s)) : s.length < cs.length := by
  obtain ⟨json, ms, m, hjson, hms, hm, hvalue⟩ := content_is_read h
  obtain ⟨n, lit, tail, hdrop, hliteral⟩ := hreads json ms m s hms hm hvalue
  obtain ⟨start, rest, -, hcs⟩ := object_text_spec hjson
  have hlit := literal_length hliteral
  have hlength := congrArg List.length hdrop
  have hwhole := congrArg List.length hcs
  simp only [List.length_drop, List.length_cons, List.length_append] at hlength hwhole
  rw [String.length_toList] at hlit
  omega

/-! ## Agreement, verdict by verdict -/

theorem dispatch_answer (r : Reader) (looks_like_tool_attempt : String → List ToolSpec → Bool)
    (chunks : List String) :
    dispatch (r.model_text looks_like_tool_attempt) (answer r chunks) =
      (parse_action r (output chunks)).getD (.Final (String.ofList (output chunks))) := by
  unfold dispatch answer Reader.model_text
  dsimp only
  rw [String.toList_ofList]
  rcases parse_action r (output chunks) with _ | action <;> rfl

theorem agrees_empty {r : Reader} {looks_like_tool_attempt : String → List ToolSpec → Bool}
    {chunks : List String} (h : streamed chunks = []) : Agrees r looks_like_tool_attempt chunks := by
  unfold Agrees
  rw [h]
  split
  · exact .inl rfl
  · rfl

theorem raw_not_empty {seen : List Char} {chunks : List (List Char)}
    (h : verdict seen chunks = .raw) : seen ++ chunks.flatten ≠ [] := by
  induction chunks generalizing seen with
  | nil => cases h
  | cons chunk rest ih =>
    rw [List.flatten_cons, ← List.append_assoc]
    unfold verdict at h
    rcases hlook : look (seen ++ chunk) with _ | _ | _ | q
    · rw [hlook] at h
      exact ih h
    · unfold look at hlook
      rcases hfind : find ['\x7b'] (seen ++ chunk) with _ | i
      · rw [hfind] at hlook
        dsimp only at hlook
        split at hlook
        · rename_i hlong
          intro hnil
          rw [(List.append_eq_nil_iff.mp hnil).1] at hlong
          simp [byte_len] at hlong
        · cases hlook
      · rw [hfind] at hlook
        dsimp only at hlook
        split at hlook
        · cases hlook
        · cases hlook
        · split at hlook <;> cases hlook
    · rw [hlook] at h
      cases h
    · rw [hlook] at h
      cases h

/-- A text that is streamed as it is agrees exactly if there is no action in it. -/
theorem raw_agrees {r : Reader} (hreads : r.Reads)
    (looks_like_tool_attempt : String → List ToolSpec → Bool) {chunks : List String}
    (hraw : verdict [] (chunks.map String.toList) = .raw) :
    Agrees r looks_like_tool_attempt chunks ↔ parse_action r (output chunks) = none := by
  have hstreamed : streamed chunks = output chunks := by
    unfold streamed
    rw [emitted_eq, hraw]
    rfl
  have hne : output chunks ≠ [] := raw_not_empty hraw
  unfold Agrees
  rw [dispatch_answer, hstreamed]
  rcases haction : parse_action r (output chunks) with _ | ⟨name, arguments⟩ | content
  · simp
  · simpa using hne
  · have hshort := content_shorter hreads haction
    refine ⟨fun h => ?_, fun h => by cases h⟩
    rcases h with h | h
    · exact (hne h).elim
    · rw [h, String.length_toList] at hshort
      omega

/-- A text that is streamed from the quote of its content on agrees exactly if no pair
of surrogates is dropped, or nothing is left. -/
theorem content_agrees {r : Reader} (looks_like_tool_attempt : String → List ToolSpec → Bool)
    {chunks : List String} {q n : Nat} {s : String}
    (hverdict : verdict [] (chunks.map String.toList) = .content q)
    (hopens : OpensAt r (output chunks) q s n) :
    Agrees r looks_like_tool_attempt chunks ↔ n = 0 ∨ s.length = n := by
  obtain ⟨haction, start, json, ms, m, lit, tail, hstart, hjson, -, -, -, rfl, hdrop, hliteral⟩ := hopens
  obtain ⟨start', rest, hstart', hcs⟩ := object_text_spec hjson
  rw [hstart] at hstart'
  cases hstart'
  have htail : (output chunks).drop (start + (m.value_at + 1)) = lit ++ '"' :: (tail ++ rest) := by
    have hat : m.value_at ≤ json.length := by
      have := congrArg List.length hdrop
      simp only [List.length_drop, List.length_cons] at this
      omega
    rw [← List.drop_drop, hcs, ← List.drop_drop, drop_append_le hat, hdrop]
    simp
  have hstreamed : streamed chunks = (decode .InContent (lit ++ '"' :: (tail ++ rest))).out := by
    unfold streamed
    rw [emitted_eq, hverdict]
    dsimp only
    exact congrArg (fun cs => (decode .InContent cs).out) htail
  obtain ⟨hlength, hsame⟩ := decode_literal hliteral (tail ++ rest)
  rw [String.length_toList] at hlength
  unfold Agrees
  rw [dispatch_answer, haction, hstreamed]
  change _ ∨ _ ↔ _
  constructor
  · rintro (hnil | hall)
    · rw [hnil] at hlength
      exact .inr (by simpa using hlength.symm)
    · rw [hall, String.length_toList] at hlength
      exact .inl (by omega)
  · rintro (hn | hn)
    · exact .inr (hsame hn)
    · left
      rw [hn] at hlength
      exact List.eq_nil_of_length_eq_zero (by omega)

/-- **Streaming agrees with the answer when the decoder reads what dispatch reads.**
For any text and any way to split it into chunks, what is emitted is nothing or the
content of the answer, and nothing for a tool call, as long as a text that streams as it is has
no action in it, and a text that streams from a quote on has the content of its
action there, without surrogates. The other way round too, unless the decoder stops at a
quote that does not open the content. -/
theorem streaming_agrees_when_the_decoder_reads_what_dispatch_reads {r : Reader} (hreads : r.Reads)
    (looks_like_tool_attempt : String → List ToolSpec → Bool) (chunks : List String) :
    (Streams r chunks → Agrees r looks_like_tool_attempt chunks) ∧
      ((∀ q, verdict [] (chunks.map String.toList) = .content q →
          ∃ s n, OpensAt r (output chunks) q s n) →
        Agrees r looks_like_tool_attempt chunks → Streams r chunks) := by
  have hsilent : verdict [] (chunks.map String.toList) = .waiting ∨
      verdict [] (chunks.map String.toList) = .suppressed →
      Agrees r looks_like_tool_attempt chunks := by
    intro h
    apply agrees_empty
    unfold streamed
    rw [emitted_eq]
    rcases h with h | h <;> rw [h]
  unfold Streams
  rcases hverdict : verdict [] (chunks.map String.toList) with _ | _ | _ | q
  · exact ⟨fun _ => hsilent (.inl hverdict), fun _ _ => trivial⟩
  · have hraw := raw_agrees hreads looks_like_tool_attempt hverdict
    exact ⟨hraw.mpr, fun _ => hraw.mp⟩
  · exact ⟨fun _ => hsilent (.inr hverdict), fun _ _ => trivial⟩
  · refine ⟨?_, ?_⟩
    · rintro ⟨s, n, hopens, hn⟩
      exact (content_agrees looks_like_tool_attempt hverdict hopens).mpr hn
    · intro hopens hagrees
      obtain ⟨s, n, hopens⟩ := hopens q rfl
      exact ⟨s, n, hopens, (content_agrees looks_like_tool_attempt hverdict hopens).mp hagrees⟩

/-! ### A tool call behind prose, and an answer in three chunks -/

/-- A reader of one object. -/
def reader_of (json : String) (ms : List Member) : Reader :=
  { members := fun cs => if cs = json.toList then some ms else none }

/-- A string without escapes stands where the member says. -/
def Member.stands_in (m : Member) (json : List Char) : Bool :=
  match m.value with
  | .string s => ('"' :: (s.toList ++ ['"'])).isPrefixOf (json.drop m.value_at) &&
      s.toList.all (fun c => c ≠ '"' && c ≠ '\\')
  | _ => true

theorem literal_plain {s : List Char} (h : s.all (fun c => c ≠ '"' && c ≠ '\\') = true) :
    Literal 0 s s := by
  induction s with
  | nil => exact .nil
  | cons c rest ih =>
    rw [List.all_cons, Bool.and_eq_true] at h
    simp only [Bool.and_eq_true, decide_eq_true_eq] at h
    exact .plain h.1.1 h.1.2 (ih h.2)

theorem reader_of_reads {json : String} {ms : List Member}
    (h : ms.all (fun m => m.stands_in json.toList) = true) : (reader_of json ms).Reads := by
  intro cs ms' m s hms hm hvalue
  unfold reader_of at hms
  dsimp only at hms
  split at hms
  · rename_i heq
    cases hms
    have hstands := List.all_eq_true.mp h m hm
    unfold Member.stands_in at hstands
    rw [hvalue] at hstands
    dsimp only at hstands
    rw [Bool.and_eq_true, List.isPrefixOf_iff_prefix] at hstands
    obtain ⟨⟨tail, htail⟩, hplain⟩ := hstands
    refine ⟨0, s.toList, tail, ?_, literal_plain hplain⟩
    rw [heq, ← htail]
    simp
  · cases hms

def call_json : String :=
  "\x7b\"type\":\"tool_call\",\"name\":\"calculator.add\",\"arguments\":\x7b\x7d\x7d"

def call_reader : Reader :=
  reader_of call_json
    [{ key := "type", value := .string "tool_call", value_at := 8 },
      { key := "name", value := .string "calculator.add", value_at := 27 },
      { key := "arguments", value := .object [], value_at := 56 }]

def call_behind_prose : List String :=
  ["I will add the two numbers with the calculator tool. One moment, please. ", call_json]

/-- Dispatch runs the tool, and all of the text went to the user. -/
theorem a_tool_call_behind_prose_is_streamed :
    call_reader.Reads ∧
      dispatch (call_reader.model_text (fun _ _ => false)) (answer call_reader call_behind_prose) =
        .ToolCall "calculator.add" (.object []) ∧
      streamed call_behind_prose = output call_behind_prose ∧
      ¬ Agrees call_reader (fun _ _ => false) call_behind_prose := by
  have hverdict : verdict [] (call_behind_prose.map String.toList) = .raw := by decide
  have haction : parse_action call_reader (output call_behind_prose) =
      some (.ToolCall "calculator.add" (.object [])) := by decide
  have hreads : call_reader.Reads := reader_of_reads (by decide)
  refine ⟨hreads, ?_, ?_, ?_⟩
  · rw [dispatch_answer, haction]
    rfl
  · unfold streamed
    rw [emitted_eq, hverdict]
    rfl
  · rw [raw_agrees hreads _ hverdict, haction]
    nofun

def final_json : String := "\x7b\"type\":\"final\",\"content\":\"hi\"\x7d"

def final_reader : Reader :=
  reader_of final_json
    [{ key := "type", value := .string "final", value_at := 8 },
      { key := "content", value := .string "hi", value_at := 26 }]

def final_in_chunks : List String := ["\x7b\"type\":\"fi", "nal\",\"content\":\"h", "i\"\x7d"]

theorem an_answer_in_three_chunks_streams_as_it_is :
    streamed final_in_chunks = "hi".toList ∧
      Agrees final_reader (fun _ _ => false) final_in_chunks := by
  refine ⟨by decide, ?_⟩
  refine (streaming_agrees_when_the_decoder_reads_what_dispatch_reads
    (reader_of_reads (by decide)) (fun _ _ => false) final_in_chunks).1 ?_
  have hverdict : verdict [] (final_in_chunks.map String.toList) = .content 27 := by decide
  unfold Streams
  rw [hverdict]
  refine ⟨"hi", 0, ⟨by decide, 0, final_json.toList, _, _, "hi".toList, ['\x7d'], by decide, by decide,
    rfl, List.mem_cons_of_mem _ List.mem_cons_self, rfl, by decide, by decide,
    literal_plain (by decide)⟩, .inl rfl⟩

end pai_agent
