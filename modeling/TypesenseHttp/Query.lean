import TypesenseHttp.Text

/-!
# `parse_query`: the regex scan and what it reads

`HttpServer::parse_query` runs `std::sregex_iterator` with the ECMAScript pattern
`([\w+%-]+)=([^&]*)` over the whole query string and folds the matches into a map, decoding each
value with `StringUtils::url_decode` and joining the values of a repeated key with `&&`.

The faithful layer is the pattern's backtracking matcher (`greedy`, `matchAt`), the leftmost
search (`search`) and the iterator (`scan`). Over it, the reading of one `&`-separated entry
(`entryPair`): the first suffix of the entry that starts with a run of key characters followed by
`=`. The search is not anchored at the entry's start, so an entry such as `a.b=1` is read as the
key `b` — `keyAt`, the entry read from its first character, is what an anchored pattern would
give, and the two agree on every entry of the shape `key=value` (`entryPair_of_keyAt`).

**The law** (`parseQuery_lookup`): for every decoder and every query string, the value of a key
is the `&&`-join of the decoded values of the entries `entryPair` reads with that key, in order,
and a key no entry yields is absent. A leading `?`, which h2o leaves on the query, is read as part
of the first entry and changes nothing (`queryPairs_question`).
-/

namespace TypesenseHttp

/-! ## The pattern -/

/-- `[\w+%-]`: the characters of a key. `\w` is `[A-Za-z0-9_]`. -/
def isKeyChar (c : Char) : Bool := c.isAlphanum || c == '_' || c == '+' || c == '%' || c == '-'

/-- `[^&]`: the characters of a value. -/
def isValueChar (c : Char) : Bool := c != '&'

/-- ECMAScript's greedy repetition of a one-character class: one more character of the class is
tried first, and the continuation `k` at the current position only when that fails. `taken` is
what the repetition has consumed so far. -/
def greedy {α : Type} (cls : Char → Bool) (k : Bytes → Bytes → Option α) (taken : Bytes) :
    Bytes → Option α
  | [] => k taken []
  | c :: s =>
    if cls c then (greedy cls k (taken ++ [c]) s).or (k taken (c :: s)) else k taken (c :: s)

/-- One match of the pattern: its two groups, and where the iterator resumes. -/
structure QueryMatch where
  key : Bytes
  value : Bytes
  rest : Bytes
  deriving DecidableEq, Repr

/-- The pattern `([\w+%-]+)=([^&]*)` matched at the front of `s`. -/
def matchAt : Bytes → Option QueryMatch
  | c :: s => if isKeyChar c then greedy isKeyChar afterKey [c] s else none
  | [] => none
where
  /-- `=([^&]*)` after the key group. -/
  afterKey (key : Bytes) : Bytes → Option QueryMatch
    | '=' :: s => greedy isValueChar (fun value rest => some ⟨key, value, rest⟩) [] s
    | _ => none

/-- `std::regex_search`: the pattern at the leftmost position of `s` where it matches. -/
def search : Bytes → Option QueryMatch
  | [] => matchAt []
  | c :: s => (matchAt (c :: s)).or (search s)

/-- The matches `std::sregex_iterator` visits: each search resumes where the last match ended.
A match is never empty, so `s.length` turns of fuel visit them all (`scan_eq_queryPairs`). -/
def scan : Nat → Bytes → List (Bytes × Bytes)
  | 0, _ => []
  | n + 1, s =>
    match search s with
    | none => []
    | some m => (m.key, m.value) :: scan n m.rest

/-- One turn of `parse_query`'s loop: a new key takes the decoded value, a known key gets it
appended after `&&`. -/
def addParam (urlDecode : Bytes → Bytes) (queryMap : QueryMap) (kv : Bytes × Bytes) : QueryMap :=
  let value := urlDecode kv.2
  if queryMap.count kv.1 = 0 then queryMap.set kv.1 value
  else queryMap.set kv.1 (queryMap.get kv.1 ++ "&&".toList ++ value)

/-- `HttpServer::parse_query`, with `StringUtils::url_decode` (string_utils.h, not under `src/`)
as the parameter `urlDecode`. -/
def parseQuery (urlDecode : Bytes → Bytes) (query : Bytes) : QueryMap :=
  (scan query.length query).foldl (addParam urlDecode) ∅

/-! ## Reading one entry -/

/-- An entry read from its first character: a non-empty run of key characters, `=`, and the rest
of the entry as the value. -/
def keyAt (e : Bytes) : Option (Bytes × Bytes) :=
  match e.dropWhile isKeyChar with
  | '=' :: value => if e.takeWhile isKeyChar = [] then none else some (e.takeWhile isKeyChar, value)
  | _ => none

/-- How the scan reads an entry: `keyAt` at the first suffix where it reads anything. -/
def entryPair (e : Bytes) : Option (Bytes × Bytes) := e.tails.findSome? keyAt

/-- The pairs the scan reads from a query: one per `&`-separated entry that yields one. -/
def queryPairs (q : Bytes) : List (Bytes × Bytes) := (q.splitOn '&').filterMap entryPair

/-- The query after one optional leading `?`. -/
def dropQuestion : Bytes → Bytes
  | '?' :: q => q
  | q => q

/-- Values joined by `&&`, in order. -/
def joinAmp (v : Bytes) (vs : List Bytes) : Bytes := vs.foldl (fun acc w => acc ++ "&&".toList ++ w) v

/-- The map a reading of entries predicts: each key's decoded values, in order, joined by `&&`. -/
def joinedValues (read : Bytes → Option (Bytes × Bytes)) (urlDecode : Bytes → Bytes) (q k : Bytes) :
    Option Bytes :=
  match ((((dropQuestion q).splitOn '&').filterMap read).filter (·.1 = k)).map
      (urlDecode ·.2) with
  | [] => none
  | v :: vs => some (joinAmp v vs)

theorem isKeyChar_eq : isKeyChar '=' = false := rfl

theorem isKeyChar_amp : isKeyChar '&' = false := rfl

theorem isKeyChar_question : isKeyChar '?' = false := rfl

/-- `keyAt` reads exactly the entries of the shape `key=value` with a non-empty key of key
characters. -/
theorem keyAt_eq_some_iff {e k v : Bytes} :
    keyAt e = some (k, v) ↔ e = k ++ '=' :: v ∧ k ≠ [] ∧ ∀ c ∈ k, isKeyChar c := by
  constructor
  · intro h
    unfold keyAt at h
    split at h
    · rename_i value hd
      split at h
      · cases h
      · obtain ⟨rfl, rfl⟩ := Prod.mk.inj (Option.some.inj h)
        refine ⟨?_, ‹_›, fun c hc => List.mem_takeWhile_imp hc⟩
        rw [← hd, List.takeWhile_append_dropWhile]
    · cases h
  · rintro ⟨rfl, hk, hkc⟩
    simp [keyAt, List.dropWhile_append_of_pos hkc, List.takeWhile_append_of_pos hkc, hk,
      isKeyChar_eq]

/-- On an entry of the shape `key=value`, the scan reads what an anchored pattern would. -/
theorem entryPair_of_keyAt {e : Bytes} {kv : Bytes × Bytes} (h : keyAt e = some kv) :
    entryPair e = some kv := by
  cases e with
  | nil => simp [keyAt] at h
  | cons c e => simp [entryPair, List.tails, List.findSome?_cons, h]

/-! ## The matcher is maximal munch -/

section Greedy

variable {α : Type} {cls : Char → Bool} {k : Bytes → Bytes → Option α}

/-- When the continuation refuses every position where the class could go on, the repetition
stops at the longest run. -/
theorem greedy_of_refuses (hk : ∀ t c s, cls c = true → k t (c :: s) = none) (taken s : Bytes) :
    greedy cls k taken s = k (taken ++ s.takeWhile cls) (s.dropWhile cls) := by
  induction s generalizing taken with
  | nil => simp [greedy]
  | cons c s ih =>
    by_cases hc : cls c
    · simp [greedy, hc, ih, hk taken c s hc]
    · simp [greedy, hc]

/-- When the continuation accepts every position, the repetition takes the longest run. -/
theorem greedy_of_accepts (hk : ∀ t s, (k t s).isSome) (taken s : Bytes) :
    greedy cls k taken s = k (taken ++ s.takeWhile cls) (s.dropWhile cls) := by
  induction s generalizing taken with
  | nil => simp [greedy]
  | cons c s ih =>
    by_cases hc : cls c
    · obtain ⟨x, hx⟩ := Option.isSome_iff_exists.mp (hk (taken ++ c :: s.takeWhile cls) (s.dropWhile cls))
      simp [greedy, hc, ih, hx]
    · simp [greedy, hc]

end Greedy

/-- After the key group: `=` and the longest run of value characters. -/
theorem afterKey_spec (key r : Bytes) :
    matchAt.afterKey key r = match r with
      | '=' :: r => some ⟨key, r.takeWhile isValueChar, r.dropWhile isValueChar⟩
      | _ => none := by
  unfold matchAt.afterKey
  split
  · rw [greedy_of_accepts (k := fun value rest => some (QueryMatch.mk key value rest)) (fun _ _ => rfl)]; rfl
  · rfl

/-- The pattern at the front of `s`: the longest run of key characters, if it is non-empty and
`=` follows it, and then the longest run of value characters. -/
theorem matchAt_spec (s : Bytes) :
    matchAt s = match s.dropWhile isKeyChar with
      | '=' :: r => if s.takeWhile isKeyChar = [] then none
          else some ⟨s.takeWhile isKeyChar, r.takeWhile isValueChar, r.dropWhile isValueChar⟩
      | _ => none := by
  have refuses : ∀ key c s, isKeyChar c = true → matchAt.afterKey key (c :: s) = none := by
    intro key c s hc
    rw [afterKey_spec]
    split
    · rename_i h; cases h; simp [isKeyChar_eq] at hc
    · rfl
  cases s with
  | nil => rfl
  | cons c s =>
    by_cases hc : isKeyChar c
    · simp only [matchAt, hc, if_true, greedy_of_refuses refuses, afterKey_spec,
        List.dropWhile_cons_of_pos hc, List.takeWhile_cons_of_pos hc, List.singleton_append]
      split <;> simp_all
    · have hc' : isKeyChar c = false := by simpa using hc
      simp only [matchAt, hc', Bool.false_eq_true, if_false, List.dropWhile_cons_of_neg hc,
        List.takeWhile_cons_of_neg hc]
      split <;> simp

/-! ## The search, entry by entry -/

/-- What may follow an entry: the end of the query, or the `&` that opens the next entry. -/
def EntryEnd (t : Bytes) : Prop := t = [] ∨ ∃ r, t = '&' :: r

/-- A run stopped inside `e` is the same run inside `e ++ t`. -/
theorem run_append_of_stop {p : Char → Bool} {e t r : Bytes} {d : Char}
    (h : e.dropWhile p = d :: r) :
    (e ++ t).dropWhile p = d :: (r ++ t) ∧ (e ++ t).takeWhile p = e.takeWhile p := by
  induction e with
  | nil => cases h
  | cons c e ih =>
    by_cases hc : p c
    · rw [List.dropWhile_cons_of_pos hc] at h
      simp [hc, ih h]
    · rw [List.dropWhile_cons_of_neg hc] at h
      obtain ⟨rfl, rfl⟩ := List.cons.inj h
      simp [hc]

/-- Inside an entry the value group runs to the entry's end. -/
theorem valueRun_of_entry {v t : Bytes} (hv : ∀ c ∈ v, c ≠ '&') (ht : EntryEnd t) :
    (v ++ t).takeWhile isValueChar = v ∧ (v ++ t).dropWhile isValueChar = t := by
  have hv' : ∀ c ∈ v, isValueChar c := fun c hc => by simpa [isValueChar] using hv c hc
  rw [List.takeWhile_append_of_pos hv', List.dropWhile_append_of_pos hv']
  rcases ht with rfl | ⟨r, rfl⟩ <;> simp [isValueChar]

/-- The pattern at the front of an entry reads what `keyAt` reads, and stops at the entry's end. -/
theorem matchAt_entry {e t : Bytes} (he : ∀ c ∈ e, c ≠ '&') (ht : EntryEnd t) :
    matchAt (e ++ t) = (keyAt e).map fun kv => ⟨kv.1, kv.2, t⟩ := by
  rw [matchAt_spec, keyAt]
  cases hd : e.dropWhile isKeyChar with
  | nil =>
    have hall := List.dropWhile_eq_nil_iff.mp hd
    rw [List.dropWhile_append_of_pos hall]
    rcases ht with rfl | ⟨r, rfl⟩ <;> simp [isKeyChar_amp]
  | cons d r =>
    obtain ⟨hdrop, htake⟩ := run_append_of_stop (t := t) hd
    have hr : ∀ c ∈ r, c ≠ '&' := fun c hc =>
      he c ((List.dropWhile_suffix isKeyChar).subset (by rw [hd]; exact List.mem_cons_of_mem d hc))
    obtain ⟨hv1, hv2⟩ := valueRun_of_entry hr ht
    rw [hdrop, htake]
    by_cases hdq : d = '='
    · subst hdq
      split
      next value heq =>
        obtain rfl := (List.cons.inj heq).2
        split <;> simp [hv1, hv2, *]
      next hne => exact absurd rfl (hne _)
    · simp [hdq]

/-- The leftmost search over an entry and what follows it: the entry's own reading when it has
one, otherwise the search goes on past the entry. -/
theorem search_entry {e t : Bytes} (he : ∀ c ∈ e, c ≠ '&') (ht : EntryEnd t) :
    search (e ++ t) = match entryPair e with
      | some kv => some ⟨kv.1, kv.2, t⟩
      | none => search t := by
  induction e with
  | nil => simp [entryPair, keyAt]
  | cons c e ih =>
    have he' : ∀ x ∈ e, x ≠ '&' := fun x hx => he x (List.mem_cons_of_mem c hx)
    rw [List.cons_append, search, ← List.cons_append, matchAt_entry he ht, ih he']
    cases hk : keyAt (c :: e) <;> simp [entryPair, List.tails, hk]

/-! ## The iterator reads the entries -/

/-- A query either has no `&`, or it is a first entry, `&`, and the rest. -/
theorem entries_cases (q : Bytes) :
    (∀ c ∈ q, c ≠ '&') ∨ ∃ e r, q = e ++ '&' :: r ∧ ∀ c ∈ e, c ≠ '&' := by
  induction q with
  | nil => exact .inl (fun _ h => absurd h (List.not_mem_nil _))
  | cons c q ih =>
    by_cases hc : c = '&'
    · exact .inr ⟨[], q, by simp [hc], fun _ h => absurd h (List.not_mem_nil _)⟩
    · rcases ih with h | ⟨e, r, rfl, he⟩
      · exact .inl (by simpa [hc] using h)
      · exact .inr ⟨c :: e, r, rfl, by simpa [hc] using he⟩

theorem queryPairs_of_no_amp {q : Bytes} (h : ∀ c ∈ q, c ≠ '&') :
    queryPairs q = (entryPair q).toList := by
  rw [queryPairs, List.splitOn, List.splitOnP_eq_single _ _ (by simpa using h)]
  cases hq : entryPair q <;> simp [hq]

theorem queryPairs_cons_entry {e r : Bytes} (he : ∀ c ∈ e, c ≠ '&') :
    queryPairs (e ++ '&' :: r) = (entryPair e).toList ++ queryPairs r := by
  have hsplit := List.splitOnP_first (· == '&') e (by simpa using he) '&' (by simp) r
  simp only [queryPairs, List.splitOn, hsplit]
  cases hk : entryPair e <;> simp [List.filterMap_cons, hk]

theorem search_amp (r : Bytes) : search ('&' :: r) = search r := by
  simp [search, matchAt, isKeyChar_amp]

/-- The iterator depends on where it stands only through what the search finds there. -/
theorem scan_congr {s s' : Bytes} (h : search s = search s') (n : Nat) : scan n s = scan n s' := by
  cases n <;> simp [scan, h]

theorem entryPair_nil : entryPair [] = none := rfl

/-- **The iterator reads the query entry by entry**: with as many turns as the query has
characters, it visits one match per entry that `entryPair` reads, in order. -/
theorem scan_eq_queryPairs (q : Bytes) (n : Nat) (hn : q.length ≤ n) : scan n q = queryPairs q := by
  rcases entries_cases q with h | ⟨e, r, rfl, he⟩
  · have hs := search_entry (t := []) h (.inl rfl)
    rw [List.append_nil] at hs
    rw [queryPairs_of_no_amp h]
    cases hk : entryPair q with
    | none => cases n <;> simp [scan, hs, hk, search, matchAt]
    | some kv =>
      obtain ⟨m, rfl⟩ : ∃ m, n = m + 1 := Nat.exists_eq_add_one.mpr (by
        cases q with
        | nil => simp [entryPair_nil] at hk
        | cons c q => simp at hn; omega)
      cases m <;> simp [scan, hs, hk, search, matchAt]
  · have hs := search_entry he (.inr ⟨r, rfl⟩)
    have hlen : r.length < (e ++ '&' :: r).length := by simp; omega
    rw [queryPairs_cons_entry he]
    cases hk : entryPair e with
    | none =>
      have hskip : search (e ++ '&' :: r) = search r := by rw [hs, hk, search_amp]
      rw [scan_congr hskip, scan_eq_queryPairs r n (by omega)]
      rfl
    | some kv =>
      obtain ⟨m, rfl⟩ : ∃ m, n = m + 1 := Nat.exists_eq_add_one.mpr (by simp at hn; omega)
      simp only [scan, hs, hk]
      rw [scan_congr (search_amp r), scan_eq_queryPairs r m (by simp at hn; omega)]
      rfl
termination_by q.length

/-! ## The map the loop builds -/

/-- What one turn of the loop does to one key's value: start it, or append `&&` and the value. -/
def ampStep (acc : Option Bytes) (w : Bytes) : Option Bytes :=
  some (acc.elim w (· ++ "&&".toList ++ w))

theorem lookup_addParam (urlDecode : Bytes → Bytes) (m : QueryMap) (kv : Bytes × Bytes) (k : Bytes) :
    (addParam urlDecode m kv).lookup k =
      if k = kv.1 then ampStep (m.lookup k) (urlDecode kv.2) else m.lookup k := by
  obtain ⟨key, raw⟩ := kv
  unfold addParam
  by_cases hk : k = key
  · subst hk
    cases hm : m.lookup k with
    | none =>
      have : k ∉ m := AList.lookup_eq_none.mp hm
      simp [QueryMap.count, this, ampStep]
    | some x =>
      have : k ∈ m := AList.lookup_isSome.mp (by simp [hm])
      simp [QueryMap.count, this, QueryMap.get_of_lookup hm, ampStep]
  · split <;> simp [hk]

theorem lookup_foldl_addParam (urlDecode : Bytes → Bytes) (ps : List (Bytes × Bytes)) (m : QueryMap)
    (k : Bytes) :
    (ps.foldl (addParam urlDecode) m).lookup k =
      ((ps.filter (·.1 = k)).map (urlDecode ·.2)).foldl ampStep (m.lookup k) := by
  induction ps generalizing m with
  | nil => rfl
  | cons kv ps ih =>
    rw [List.foldl_cons, ih, lookup_addParam]
    by_cases hk : kv.1 = k
    · simp [hk]
    · simp [hk, Ne.symm hk]

theorem foldl_ampStep_some (x : Bytes) (vs : List Bytes) :
    vs.foldl ampStep (some x) = some (joinAmp x vs) := by
  induction vs generalizing x with
  | nil => rfl
  | cons v vs ih => exact ih _

theorem parseQuery_eq_foldl (urlDecode : Bytes → Bytes) (q : Bytes) :
    parseQuery urlDecode q = (queryPairs q).foldl (addParam urlDecode) ∅ := by
  rw [parseQuery, scan_eq_queryPairs q q.length le_rfl]

theorem queryPairs_question (q : Bytes) : queryPairs ('?' :: q) = queryPairs q := by
  obtain ⟨first, rest, h⟩ := List.exists_cons_of_ne_nil (List.splitOnP_ne_nil (· == '&') q)
  have hq : keyAt ('?' :: first) = none := by simp [keyAt, isKeyChar_question]
  simp [queryPairs, List.splitOn, List.splitOnP_cons, h, List.filterMap_cons, entryPair,
    List.tails, hq]

theorem queryPairs_dropQuestion (q : Bytes) : queryPairs (dropQuestion q) = queryPairs q := by
  match q with
  | '?' :: q => exact (queryPairs_question q).symm
  | [] => rfl
  | c :: q => unfold dropQuestion; split <;> simp_all [queryPairs_question]

/-- **`parse_query`'s law.** For every decoder and every query string, with or without h2o's
leading `?`, a key's value is the `&&`-join of the decoded values of the entries the scan reads
with that key, in order; a key no entry yields is absent. -/
theorem parseQuery_lookup (urlDecode : Bytes → Bytes) (q k : Bytes) :
    (parseQuery urlDecode q).lookup k = joinedValues entryPair urlDecode q k := by
  rw [parseQuery_eq_foldl, lookup_foldl_addParam, AList.lookup_empty, joinedValues,
    ← queryPairs, queryPairs_dropQuestion]
  split
  · next h => rw [h]; rfl
  · next v vs h => rw [h, List.foldl_cons, show ampStep none v = some v from rfl, foldl_ampStep_some]

example : (parseQuery id "?a=1&a=2".toList).lookup "a".toList = some "1&&2".toList := by decide

/-- An entry that is not of the shape `key=value` still yields a key: the scan reads `a.b=1` as
`b = 1`, where reading entries whole (`keyAt`) would ignore it. -/
theorem parseQuery_reads_key_inside_entry :
    ¬ ∃ urlDecode : Bytes → Bytes,
      ∀ k, (parseQuery urlDecode "a.b=1".toList).lookup k = joinedValues keyAt urlDecode "a.b=1".toList k := by
  rintro ⟨urlDecode, h⟩
  have hpairs : queryPairs "a.b=1".toList = [("b".toList, "1".toList)] := by decide
  have hanchored : joinedValues keyAt urlDecode "a.b=1".toList "b".toList = none := rfl
  have hread := h "b".toList
  rw [parseQuery_eq_foldl, hpairs, hanchored] at hread
  simp [lookup_addParam, ampStep] at hread

end TypesenseHttp
