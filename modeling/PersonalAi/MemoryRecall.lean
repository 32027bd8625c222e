-- The recall of the memory backend, with its whole query: three searches, one behind the other,
-- then the filters, the ranks by score and the limit. The searches by word and by time have their
-- own limit, before the filters, and a memory can come from the first two.
import PersonalAi.MemoryTools

open pai_core
open pai_agent (MemoryScopeQuery)

namespace pai_memory.backend

structure RecallQuery (F : Type) where
  text : Option String
  scopes : List MemoryScope
  entities : List String
  min_confidence : Option F
  since : Option Timestamp
  limit : Nat
  embedding : Option (List F)
  memory_scope : MemoryScopeQuery

section Recall
variable {F : Type} (e : Engine F) (query : RecallQuery F) (rows : List (Row F))

/-- The vector of the query, or that of its text. -/
def RecallQuery.vector : Option (List F) :=
  match query.embedding with
  | some v => some v
  | none => query.text.bind e.embed

def keyword_path : List (Row F) :=
  match query.text with
  | some text => fts_rows e (tokens e text) query.memory_scope (max query.limit 1) rows
  | none => []

def semantic_path : List (ScoredMemory F) :=
  match query.vector e with
  | some v => vector_hits e v query.memory_scope rows
  | none => []

def browsing_path : List (Row F) :=
  if query.text.isNone && (query.vector e).isNone then
    newest query.memory_scope (max query.limit 1) rows
  else []

/-- The text has no token, and the recall ends at it. -/
def RecallQuery.wordless : Bool := query.text.any fun text => (tokens e text).isEmpty

def found : List (ScoredMemory F) :=
  if query.wordless e then []
  else
    (keyword_path e query rows).map (fun r =>
      { item := r.item, score := e.add r.item.importance r.item.confidence }) ++
    semantic_path e query rows ++
    (browsing_path e query rows).map fun r => { item := r.item, score := r.item.importance }

variable (ge : F → F → Bool)

/-- The filters. `ge` compares two confidences. -/
def RecallQuery.passes (item : MemoryItem F) : Bool :=
  (query.scopes.isEmpty || query.scopes.contains item.scope) &&
    ((query.min_confidence.map fun c => ge item.confidence c).getD true) &&
    ((query.since.map fun s => decide (s ≤ item.created_at)).getD true) &&
    (query.entities.isEmpty || query.entities.any fun x => item.entities.any fun y => y == x)

/-- What the filters keep, in the order of the searches. -/
def hits : List (ScoredMemory F) := (found e query rows).filter fun s => query.passes ge s.item

def SqliteMemory.recall [LinearOrder F] : List (ScoredMemory F) :=
  ((hits e query rows ge).insertionSort fun a b => b.score ≤ a.score).take (max query.limit 1)

/-! ## What a recall is for -/

def live (r : Row F) : Bool := !r.deleted && sees query.memory_scope r.item.conversation

/-- A word of the query is in the memory. -/
def by_word (r : Row F) : Bool :=
  query.text.any fun text => !(tokens e text).isEmpty && e.fts_match (tokens e text) r.item.content

/-- The memory is near the query. -/
def by_vector (r : Row F) : Bool := (query.vector e).any fun v => (similar e v r).isSome

/-- The query asks for all. -/
def RecallQuery.browses : Bool := query.text.isNone && (query.vector e).isNone

def matching (r : Row F) : Bool :=
  live query r && (by_word e query r || by_vector e query r || query.browses e)

/-- A result without duplicates, with what the filters let through alone, and with all of it where
it is shorter than the limit. -/
structure Complete (result : List (ScoredMemory F)) : Prop where
  distinct : (result.map fun s => s.item.id).Nodup
  passing : ∀ s ∈ result, ∃ r ∈ rows, r.item = s.item ∧ live query r = true ∧
    query.passes ge s.item = true
  all : result.length < query.limit → ∀ r ∈ rows, matching e query r = true →
    query.passes ge r.item = true → r.item ∈ result.map fun s => s.item

/-! ## Where the code has a gap -/

/-- Two of the hits are of one memory, and both have a place below the limit. -/
def Twice [LinearOrder F] : Prop :=
  ∃ x ∈ (hits e query rows ge).zipIdx, ∃ y ∈ (hits e query rows ge).zipIdx,
    x ≠ y ∧ x.1.item.id = y.1.item.id ∧
      sorting.ahead (fun a b : ScoredMemory F => b.score ≤ a.score) (hits e query rows ge) x <
        max query.limit 1 ∧
      sorting.ahead (fun a b : ScoredMemory F => b.score ≤ a.score) (hits e query rows ge) y <
        max query.limit 1

/-- The searches leave out a memory that matches: the text has no token, or the limit of a search
is below the rank of the memory. -/
inductive LeftOut (r : Row F) : Prop
  | wordless (htext : query.wordless e = true) (hnear : by_vector e query r = true)
  | ranked (hword : by_word e query r = true) (hnear : by_vector e query r = false)
      (hcut : r ∉ keyword_path e query rows)
  | old (hall : query.browses e = true) (hcut : r ∉ browsing_path e query rows)

end Recall

/-! ## The searches -/

section Searches
variable {F : Type} {e : Engine F} {query : RecallQuery F} {rows : List (Row F)}
  {ge : F → F → Bool} {r : Row F} {s : ScoredMemory F}

theorem keyword_path_spec (h : r ∈ keyword_path e query rows) (htext : query.wordless e = false) :
    r ∈ rows ∧ live query r = true ∧ by_word e query r = true := by
  unfold keyword_path at h
  split at h
  · rename_i text hsome
    have hin := List.mem_filter.mp ((List.mem_insertionSort _).mp (List.mem_of_mem_take h))
    simp only [Bool.and_eq_true] at hin
    simp only [RecallQuery.wordless, hsome, Option.any_some] at htext
    exact ⟨hin.1, by simp [live, hin.2.1.2, hin.2.2], by simp [by_word, hsome, htext, hin.2.1.1]⟩
  · cases h

theorem semantic_path_spec :
    s ∈ semantic_path e query rows ↔ ∃ r ∈ rows, live query r = true ∧
      ∃ v, query.vector e = some v ∧ similar e v r = some s := by
  unfold semantic_path
  rcases hvector : query.vector e with _ | v
  · simp
  · dsimp only [vector_hits]
    rw [List.mem_filterMap]
    constructor
    · rintro ⟨r, hr, hs⟩
      obtain ⟨hin, htest⟩ := List.mem_filter.mp hr
      simp only [Bool.and_eq_true] at htest
      exact ⟨r, hin, by simp [live, htest.1.2, htest.2], v, rfl, hs⟩
    · rintro ⟨r, hin, hlive, v', hv, hs⟩
      cases hv
      simp only [live, Bool.and_eq_true] at hlive
      exact ⟨r, List.mem_filter.mpr ⟨hin, by simp [hs, hlive.1, hlive.2]⟩, hs⟩

theorem browsing_path_spec (h : r ∈ browsing_path e query rows) :
    r ∈ rows ∧ live query r = true ∧ query.browses e = true := by
  unfold browsing_path at h
  split at h
  · rename_i hall
    have hin := List.mem_filter.mp ((List.mem_insertionSort _).mp (List.mem_of_mem_take h))
    exact ⟨hin.1, hin.2, hall⟩
  · cases h

theorem similar_item {v : List F} (h : similar e v r = some s) : s.item = r.item := by
  obtain ⟨u, -, hu⟩ := Option.bind_eq_some_iff.mp h
  split at hu
  · cases hu
    rfl
  · cases hu

/-- What the searches find: a memory that one of them has. -/
theorem found_spec {item : MemoryItem F} :
    (∃ s ∈ found e query rows, s.item = item) ↔ query.wordless e = false ∧ ∃ r, r.item = item ∧
      (r ∈ keyword_path e query rows ∨ (r ∈ rows ∧ live query r = true ∧ by_vector e query r = true) ∨
        r ∈ browsing_path e query rows) := by
  unfold found
  rcases htext : query.wordless e with _ | _
  · simp only [Bool.false_eq_true, if_false, true_and]
    constructor
    · rintro ⟨s, hs, rfl⟩
      rcases List.mem_append.mp hs with hs | hs
      · rcases List.mem_append.mp hs with hs | hs
        · obtain ⟨r, hr, rfl⟩ := List.mem_map.mp hs
          exact ⟨r, rfl, .inl hr⟩
        · obtain ⟨r, hr, hlive, v, hv, hsimilar⟩ := semantic_path_spec.mp hs
          exact ⟨r, (similar_item hsimilar).symm, .inr (.inl ⟨hr, hlive, by
            simp [by_vector, hv, hsimilar]⟩)⟩
      · obtain ⟨r, hr, rfl⟩ := List.mem_map.mp hs
        exact ⟨r, rfl, .inr (.inr hr)⟩
    · rintro ⟨r, rfl, hr | ⟨hr, hlive, hnear⟩ | hr⟩
      · exact ⟨_, List.mem_append_left _ (List.mem_append_left _ (List.mem_map_of_mem hr)), rfl⟩
      · obtain ⟨v, hv, hsome⟩ := (Option.any_eq_true _ _).mp hnear
        obtain ⟨s, hs⟩ := Option.isSome_iff_exists.mp hsome
        exact ⟨s, List.mem_append_left _ (List.mem_append_right _
          (semantic_path_spec.mpr ⟨r, hr, hlive, v, hv, hs⟩)), similar_item hs⟩
      · exact ⟨_, List.mem_append_right _ (List.mem_map_of_mem hr), rfl⟩
  · simp

/-- The words and the vector of a query come before all memories. -/
theorem browses_alone (h : query.browses e = true) :
    query.wordless e = false ∧ by_word e query r = false ∧ by_vector e query r = false := by
  simp only [RecallQuery.browses, Bool.and_eq_true, Option.isNone_iff_eq_none] at h
  simp [RecallQuery.wordless, by_word, by_vector, h.1, h.2]

theorem wordless_by_word (h : query.wordless e = true) : by_word e query r = false := by
  unfold RecallQuery.wordless at h
  unfold by_word
  rcases htext : query.text with _ | text
  · rfl
  · rw [htext, Option.any_some] at h
    rw [Option.any_some, h]
    rfl

/-- The searches find the matching memories that they do not leave out. -/
theorem found_iff_not_left_out (hunique : (rows.map fun r => r.item.id).Nodup) (hr : r ∈ rows)
    (hmatching : matching e query r = true) :
    (∃ s ∈ found e query rows, s.item = r.item) ↔ ¬ LeftOut e query rows r := by
  have hsame : ∀ r' ∈ rows, r'.item = r.item → r' = r :=
    fun r' hr' hitem => List.inj_on_of_nodup_map hunique hr' hr (congrArg MemoryItem.id hitem)
  simp only [matching, Bool.and_eq_true, Bool.or_eq_true] at hmatching
  obtain ⟨hlive, hby⟩ := hmatching
  rw [found_spec]
  constructor
  · rintro ⟨htext, r', hitem, hpath⟩ (⟨hwordless, -⟩ | ⟨hword, hfar, hcut⟩ | ⟨hall, hcut⟩)
    · rw [htext] at hwordless
      cases hwordless
    · rcases hpath with hr' | ⟨hr', -, hnear⟩ | hr'
      · exact hcut (hsame r' (keyword_path_spec hr' htext).1 hitem ▸ hr')
      · rw [hsame r' hr' hitem, hfar] at hnear
        cases hnear
      · rw [(browses_alone (browsing_path_spec hr').2.2).2.1] at hword
        cases hword
    · obtain ⟨-, hword, hfar⟩ := browses_alone (r := r) hall
      rcases hpath with hr' | ⟨hr', -, hnear⟩ | hr'
      · obtain ⟨hin, -, hword'⟩ := keyword_path_spec hr' htext
        rw [hsame r' hin hitem, hword] at hword'
        cases hword'
      · rw [hsame r' hr' hitem, hfar] at hnear
        cases hnear
      · exact hcut (hsame r' (browsing_path_spec hr').1 hitem ▸ hr')
  · intro hkept
    have htext : query.wordless e = false := by
      rcases htext : query.wordless e with _ | _
      · rfl
      · rcases hby with (hword | hnear) | hall
        · rw [wordless_by_word htext] at hword
          cases hword
        · exact absurd (.wordless htext hnear) hkept
        · rw [(browses_alone (r := r) hall).1] at htext
          cases htext
    refine ⟨htext, r, rfl, ?_⟩
    rcases hnear : by_vector e query r with _ | _
    · rcases hby with (hword | hnear') | hall
      · exact .inl (by_contra fun hcut => hkept (.ranked hword hnear hcut))
      · rw [hnear] at hnear'
        cases hnear'
      · exact .inr (.inr (by_contra fun hcut => hkept (.old hall hcut)))
    · exact .inr (.inl ⟨hr, hlive, rfl⟩)

theorem map_id_take_sort {lt : Row F → Row F → Prop} [DecidableRel lt] {p : Row F → Bool} {n : Nat}
    (hunique : (rows.map fun r => r.item.id).Nodup) :
    ((((rows.filter p).insertionSort lt).take n).map fun r => r.item.id).Nodup := by
  have hsorted : (((rows.filter p).insertionSort lt).map fun r => r.item.id).Nodup :=
    ((List.perm_insertionSort lt _).map _).nodup_iff.mpr (hunique.sublist (List.filter_sublist.map _))
  exact hsorted.sublist ((List.take_sublist _ _).map _)

theorem semantic_path_unique (hunique : (rows.map fun r => r.item.id).Nodup) :
    ((semantic_path e query rows).map fun s => s.item.id).Nodup := by
  unfold semantic_path
  rcases query.vector e with _ | v
  · exact List.nodup_nil
  · have hkeep : ∀ l : List (Row F), ((l.filterMap (similar e v)).map fun s => s.item.id).Sublist
        (l.map fun r => r.item.id) := by
      intro l
      induction l with
      | nil => exact List.Sublist.refl _
      | cons r l ih =>
        rcases hs : similar e v r with _ | s
        · rw [List.filterMap_cons_none hs]
          exact ih.cons _
        · rw [List.filterMap_cons_some hs, List.map_cons, List.map_cons, similar_item hs]
          exact ih.cons_cons _
    exact hunique.sublist ((hkeep _).trans (List.filter_sublist.map _))

theorem LeftOut.matching (hlive : live query r = true) (h : LeftOut e query rows r) :
    matching e query r = true := by
  simp only [backend.matching, Bool.and_eq_true, Bool.or_eq_true]
  refine ⟨hlive, ?_⟩
  cases h with
  | wordless _ hnear => exact .inl (.inr hnear)
  | ranked hword _ _ => exact .inl (.inl hword)
  | old hall _ => exact .inr hall

theorem hits_spec (h : s ∈ hits e query rows ge) :
    ∃ r ∈ rows, r.item = s.item ∧ live query r = true ∧ query.passes ge s.item = true := by
  obtain ⟨hs, hpasses⟩ := List.mem_filter.mp h
  obtain ⟨htext, r, hitem, hr | ⟨hr, hlive, -⟩ | hr⟩ := found_spec.mp ⟨s, hs, rfl⟩
  · obtain ⟨hin, hlive, -⟩ := keyword_path_spec hr htext
    exact ⟨r, hin, hitem, hlive, hpasses⟩
  · exact ⟨r, hr, hitem, hlive, hpasses⟩
  · obtain ⟨hin, hlive, -⟩ := browsing_path_spec hr
    exact ⟨r, hin, hitem, hlive, hpasses⟩

/-! ## The result -/

variable [LinearOrder F]

theorem recall_hits (h : s ∈ SqliteMemory.recall e query rows ge) : s ∈ hits e query rows ge :=
  (List.mem_insertionSort _).mp (List.mem_of_mem_take h)

/-- A result below the limit is all hits. -/
theorem recall_short : (SqliteMemory.recall e query rows ge).length < query.limit ↔
    (hits e query rows ge).length < query.limit := by
  simp only [SqliteMemory.recall, List.length_take, List.length_insertionSort]
  omega

theorem mem_recall_of_short (h : (hits e query rows ge).length < query.limit)
    (hs : s ∈ hits e query rows ge) : s ∈ SqliteMemory.recall e query rows ge := by
  unfold SqliteMemory.recall
  rw [List.take_of_length_le]
  · exact (List.mem_insertionSort _).mpr hs
  · rw [List.length_insertionSort]
    omega

/-- A recall of the agent asks for no more than a text, some scopes and a limit. -/
theorem recall_of_agent {asked : pai_agent.RecallQuery}
    (hle : ∀ a b, e.le a b = decide (a ≤ b)) :
    e.recall asked rows = SqliteMemory.recall e
      { text := asked.text, scopes := asked.scopes, entities := [], min_confidence := none,
        since := none, limit := asked.limit, embedding := none,
        memory_scope := asked.memory_scope } rows ge := by
  unfold Engine.recall SqliteMemory.recall hits found keyword_path semantic_path browsing_path
  rcases htext : asked.text with _ | text
  · simp [ranked, RecallQuery.wordless, RecallQuery.vector, RecallQuery.passes, hle]
  · by_cases hwords : tokens e text = []
    · simp [RecallQuery.wordless, hwords]
    · rcases hvector : e.embed text with _ | v <;>
        simp [ranked, RecallQuery.wordless, RecallQuery.vector, RecallQuery.passes, hle, hwords,
          hvector]

/-! ### One memory, found two times -/

/-- Each search finds a memory once, so that one with two places was found by a word and by its
vector. -/
theorem Twice.by_both {w : World F} (h : Twice e query w.rows ge) :
    ∃ r ∈ w.rows, by_word e query r = true ∧ by_vector e query r = true := by
  by_contra hnone
  obtain ⟨x, hx, y, hy, hne, hid, -, -⟩ := h
  have hfound : ((found e query w.rows).map fun s => s.item.id).Nodup := by
    rcases htext : query.wordless e with _ | _
    · have hkeyword : ((keyword_path e query w.rows).map fun r => r.item.id).Nodup := by
        unfold keyword_path
        split
        · exact map_id_take_sort w.unique
        · exact List.nodup_nil
      have hbrowsing : ((browsing_path e query w.rows).map fun r => r.item.id).Nodup := by
        unfold browsing_path
        split
        · exact map_id_take_sort w.unique
        · exact List.nodup_nil
      have hboth : ∀ r ∈ keyword_path e query w.rows, ∀ s ∈ semantic_path e query w.rows,
          r.item.id ≠ s.item.id := by
        intro r hr s hs heq
        obtain ⟨hin, -, hword⟩ := keyword_path_spec hr htext
        obtain ⟨r', hr', -, v, hv, hsimilar⟩ := semantic_path_spec.mp hs
        have hrow : r = r' := by
          refine List.inj_on_of_nodup_map w.unique hin hr' ?_
          rw [heq, similar_item hsimilar]
        exact hnone ⟨r, hin, hword, by simp [by_vector, hv, hrow, hsimilar]⟩
      have hall : ∀ b ∈ browsing_path e query w.rows, keyword_path e query w.rows = [] ∧
          semantic_path e query w.rows = [] := by
        intro b hb
        have hbrowses := (browsing_path_spec hb).2.2
        simp only [RecallQuery.browses, Bool.and_eq_true, Option.isNone_iff_eq_none] at hbrowses
        simp [keyword_path, semantic_path, hbrowses.1, hbrowses.2]
      simp only [found, htext, Bool.false_eq_true, if_false, List.map_append, List.map_map]
      refine (hkeyword.append (semantic_path_unique w.unique) ?_).append hbrowsing ?_
      · intro id hk hs
        obtain ⟨r, hr, rfl⟩ := List.mem_map.mp hk
        obtain ⟨s, hs, heq⟩ := List.mem_map.mp hs
        exact hboth r hr s hs heq.symm
      · intro id hks hb
        obtain ⟨b, hb, -⟩ := List.mem_map.mp hb
        obtain ⟨hk, hs⟩ := hall b hb
        rw [hk, hs] at hks
        cases hks
    · simp [found, htext]
  have hhits : ((hits e query w.rows ge).map fun s => s.item.id).Nodup :=
    hfound.sublist (List.filter_sublist.map _)
  have hx' := List.mem_zipIdx' hx
  have hy' := List.mem_zipIdx' hy
  have hpos : x.2 = y.2 := by
    refine (List.nodup_iff_injective_getElem.mp hhits).eq_iff (a := ⟨x.2, by simpa using hx'.1⟩)
      (b := ⟨y.2, by simpa using hy'.1⟩) |>.mp ?_ |> congrArg Fin.val
    simpa [← hx'.2, ← hy'.2] using hid
  refine hne (Prod.ext ?_ hpos)
  rw [hx'.2, hy'.2]
  simp only [hpos]

end Searches

/-! ### Two memories about tea -/

/-- Whole words, and a vector that is near all others. -/
def tea_engine : Engine Nat :=
  { importance_of := fun _ => 8, one := 10, add := (· + ·), le := fun a b => decide (a ≤ b),
    cosine := fun _ _ => 9, above := fun s => decide (3 < s), embed := fun _ => some [1],
    is_alphanumeric := Char.isAlphanum,
    fts_match := fun words text =>
      words.any fun word => (text.toList.splitOnP fun c => !c.isAlphanum).contains word.toList,
    fts_before := fun _ _ _ _ => true, parse_str := fun id => some ⟨id⟩ }

def tea_note (id : String) (scope : MemoryScope) (embedding : Option (List Nat)) : Row Nat :=
  { item :=
      { id := ⟨id⟩, scope, content := "green tea", source := .UserStated, created_at := 0,
        updated_at := 0, confidence := 10, importance := 8, privacy := .Normal, entities := [],
        embedding, conversation := none, share_circle := none }
    deleted := false }

def tea_query (scopes : List MemoryScope) (limit : Nat) : RecallQuery Nat :=
  { text := some "tea", scopes, entities := [], min_confidence := none, since := none, limit,
    embedding := none, memory_scope := .All }

end pai_memory.backend
