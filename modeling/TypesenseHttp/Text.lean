import Mathlib.Data.List.AList

/-!
# Strings, tokens and maps of the HTTP layer

`http_server.cpp` handles its text as `std::string`. Here a string is the list of its characters
(`Bytes`), so that splitting and scanning are list recursion and every definition evaluates.

Three pieces the dispatcher leans on live outside `src/` and are fixed here:

- `StringUtils::split` (string_utils.h) cuts a string at a one-character delimiter and keeps the
  non-empty pieces only. Every call in the server passes `"?"` or `"/"`.
- A `std::map` with string keys is an `AList` (`StrMap`). The query map that becomes the handler's
  parameter map is one of strings: its four uses in the server (`count`, `operator[]` read and
  write, `emplace`) are `QueryMap.count`, `get`, `set` and `StrMap.emplace`. The message handlers
  are another, used through `emplace` only.
- `h2o_strdup(pool, s.c_str(), SIZE_MAX)` measures its argument with `strlen`, so a body is sent up
  to its first NUL (`cStrDup`).
-/

namespace TypesenseHttp

/-- A `std::string`, as the characters it holds. -/
abbrev Bytes := List Char

/-- Modelled from the spec: `StringUtils::split` of string_utils.h, which is not under `src/`.
"Tokenize path into segments": the pieces of `s` between occurrences of the delimiter, empty
pieces dropped. -/
def split (s : Bytes) (delim : Char) : List Bytes :=
  (s.splitOn delim).filter (fun piece => !piece.isEmpty)

/-- `h2o_strdup(pool, s.c_str(), SIZE_MAX)`: the copy stops at the first NUL. -/
def cStrDup (s : Bytes) : Bytes := s.takeWhile (· ≠ '\x00')

/-- `HttpServer::get_status_reason`. -/
def getStatusReason : Nat → Bytes
  | 200 => "OK".toList
  | 201 => "Created".toList
  | 400 => "Bad Request".toList
  | 401 => "Unauthorized".toList
  | 404 => "Not Found".toList
  | 409 => "Conflict".toList
  | 422 => "Unprocessable Entity".toList
  | 500 => "Internal Server Error".toList
  | _ => []

/-! ## The tokenizer -/

/-- The first piece of a split is everything before the first delimiter. -/
theorem splitOn_eq_takeWhile_cons (s : Bytes) (d : Char) :
    ∃ rest, s.splitOn d = s.takeWhile (· ≠ d) :: rest := by
  induction s with
  | nil => exact ⟨[], rfl⟩
  | cons c s ih =>
    obtain ⟨rest, h⟩ := ih
    by_cases hc : c = d
    · refine ⟨s.splitOn d, ?_⟩
      simp [List.splitOn, List.splitOnP_cons, hc]
    · refine ⟨rest, ?_⟩
      simp only [List.splitOn, List.splitOnP_cons] at h ⊢
      simp [h, hc, List.takeWhile_cons]

/-- When something stands before the first delimiter, it is the first token. -/
theorem split_head?_of_takeWhile_ne_nil {s : Bytes} {d : Char}
    (h : s.takeWhile (· ≠ d) ≠ []) : (split s d).head? = some (s.takeWhile (· ≠ d)) := by
  obtain ⟨rest, hs⟩ := splitOn_eq_takeWhile_cons s d
  cases ht : s.takeWhile (· ≠ d) with
  | nil => exact absurd ht h
  | cons c cs => simp only [split, hs, ht, List.filter_cons, List.isEmpty_cons]; rfl

/-- A string made of delimiters only has no token at all. -/
theorem split_eq_nil_of_forall_eq {s : Bytes} {d : Char} (h : ∀ c ∈ s, c = d) :
    split s d = [] := by
  induction s with
  | nil => rfl
  | cons c s ih =>
    have hc : c = d := h c (List.mem_cons_self c s)
    have ih' := ih fun x hx => h x (List.mem_cons_of_mem c hx)
    simpa [split, List.splitOn, List.splitOnP_cons, hc, List.filter_cons] using ih'

/-- A character of a joined string is the separator or a character of one of the pieces. -/
theorem mem_intercalate_singleton {d c : Char} :
    ∀ {parts : List Bytes}, c ∈ [d].intercalate parts → c = d ∨ ∃ p ∈ parts, c ∈ p
  | [], h => by simp [List.intercalate] at h
  | [p], h => .inr ⟨p, List.mem_singleton_self p, by simpa [List.intercalate] using h⟩
  | p :: q :: rest, h => by
    have hjoin : [d].intercalate (p :: q :: rest) = p ++ d :: [d].intercalate (q :: rest) := by
      simp [List.intercalate, List.intersperse_cons_cons]
    rw [hjoin] at h
    simp only [List.mem_append, List.mem_cons] at h
    rcases h with h | h | h
    · exact .inr ⟨p, List.mem_cons_self _ _, h⟩
    · exact .inl h
    · rcases mem_intercalate_singleton h with h | ⟨r, hr, hc⟩
      · exact .inl h
      · exact .inr ⟨r, List.mem_cons_of_mem _ hr, hc⟩

/-- **Splitting undoes joining**: non-empty tokens free of the delimiter, each written after one
delimiter, split back into themselves. -/
theorem split_cons_intercalate {d : Char} {parts : List Bytes} (h : ∀ p ∈ parts, p ≠ [] ∧ d ∉ p) :
    split (d :: [d].intercalate parts) d = parts := by
  rcases eq_or_ne parts [] with rfl | hne
  · exact split_eq_nil_of_forall_eq (by simp [List.intercalate])
  · have hsplit := List.splitOn_intercalate parts d (fun l hl => (h l hl).2) hne
    simp only [List.splitOn] at hsplit
    simp only [split, List.splitOn, List.splitOnP_cons, beq_self_eq_true, if_true, hsplit,
      List.filter_cons, List.isEmpty_nil]
    exact List.filter_eq_self.mpr fun p hp => by simpa using (h p hp).1

/-! ## `std::map` with string keys -/

/-- A `std::map<std::string, β>`. -/
abbrev StrMap (β : Type) := AList (fun _ : Bytes => β)

/-- `m.emplace(k, v)`: inserts only when `k` is absent. -/
def StrMap.emplace {β : Type} (m : StrMap β) (k : Bytes) (v : β) : StrMap β :=
  if k ∈ m then m else m.insert k v

/-- `emplace` never overwrites: a present key keeps its value, an absent one gets the new one. -/
@[simp] theorem StrMap.lookup_emplace {β : Type} (m : StrMap β) (k : Bytes) (v : β) (k' : Bytes) :
    (m.emplace k v).lookup k' = (m.lookup k').or (if k' = k then some v else none) := by
  unfold emplace
  by_cases hm : k ∈ m
  · by_cases h : k' = k
    · subst h
      obtain ⟨x, hx⟩ := Option.isSome_iff_exists.mp (AList.lookup_isSome.mpr hm)
      simp [hm, hx]
    · simp [hm, h]
  · by_cases h : k' = k
    · subst h; simp [hm, AList.lookup_insert, AList.lookup_eq_none.mpr hm]
    · simp [hm, h, AList.lookup_insert_ne h]

/-- The query map of `parse_query`, which `catch_all_handler` extends to the parameter map. -/
abbrev QueryMap := StrMap Bytes

namespace QueryMap

/-- `m.count(k)`. -/
def count (m : QueryMap) (k : Bytes) : Nat := if k ∈ m then 1 else 0

/-- `m[k]` as a read. The server reads only keys it has just counted, so the default-inserting
side of `operator[]` never fires. -/
def get (m : QueryMap) (k : Bytes) : Bytes := (m.lookup k).getD []

/-- `m[k] = v`. -/
def set (m : QueryMap) (k v : Bytes) : QueryMap := m.insert k v

theorem count_ne_zero {m : QueryMap} {k : Bytes} : m.count k ≠ 0 ↔ k ∈ m := by
  unfold count; split <;> simp [*]

theorem get_of_lookup {m : QueryMap} {k v : Bytes} (h : m.lookup k = some v) : m.get k = v := by
  simp [get, h]

@[simp] theorem lookup_set (m : QueryMap) (k v k' : Bytes) :
    (m.set k v).lookup k' = if k' = k then some v else m.lookup k' := by
  by_cases h : k' = k
  · subst h; simp [set, AList.lookup_insert]
  · simp [set, AList.lookup_insert_ne h, h]

end QueryMap

end TypesenseHttp
