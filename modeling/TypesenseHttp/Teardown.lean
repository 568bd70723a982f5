import Mathlib.Algebra.BigOperators.Group.Finset
import Mathlib.Data.Multiset.OrderedMonoid
import Mathlib.Tactic.Abel
import Mathlib.Tactic.DeriveFintype

/-!
# Clearing the context's timeouts at shutdown

Before `h2o_context_dispose`, `HttpServer::~HttpServer` empties the timeouts of its context: it
builds a vector of the eight timeouts that `h2o_context_init` sets up and calls
`HttpServer::clear_timeouts` on it, then once more on `zero_timeout` alone ("needed to clear a
deferred timeout that crops up"). For each timeout in turn, `clear_timeouts` loops while its list
of entries is non-empty: it unlinks the first entry, resets its `registered_at` to 0 and runs its
callback. A callback may link new entries, onto any of the eight timeouts, at the tail of its list.

An entry is modelled with everything its callback will link, recursively, as a finite tree: the
model covers the configurations with finitely many linkable entries in total, and every statement
below is about those. A chain of callbacks each re-arming one more entry, without end, is outside
it; on such a chain the `while` loop of `clear_timeouts` never exits. After each callback,
`h2o_timeout__do_post_callback` runs the loop's pending socket callbacks; the model takes what they
link to be part of the entry's links, and assumes they unlink nothing. The loop is bounded by fuel,
and `none` is a loop that has not finished within it.

**What is proved.**
- `clearTimeout_spec`: one timeout's loop, given fuel for every entry pending or linkable, empties
  it; the entries it finds there fire first, in order; every other timeout only grows at its tail;
  and every entry is either fired, once, or still pending. Each turn moves one entry from the
  pending ones to the fired ones (`pendingNodes_turn`, `ClearSpec.turn`).
- `teardown_spec`: so, on every configuration with finitely many linkable entries, the destructor's
  clearing finishes, fires every entry that was pending when it started, in the vector's order,
  and leaves `zero_timeout` empty.
- `teardown_hundredMs_links_oneSec`: but the block is meant to "remove all timeouts", and a callback
  run on a later timeout of the vector may link an entry onto an earlier one; that entry is still
  linked when `h2o_context_dispose` runs, and its callback never runs. The second pass re-clears
  `zero_timeout` only.
- `teardown_keeps_backward_link`: in general, every entry that an initially pending callback links
  onto a timeout other than `zero_timeout` and earlier in the vector is still linked at the end.
- `teardown_drains_forward`: and when every callback re-arms forward (onto a timeout no earlier in
  the vector, or onto `zero_timeout` entries that link onto `zero_timeout` only), the two passes
  empty all eight timeouts and run every callback exactly once. The invariant is `Drains`: before
  position `i` of the first pass only `zero_timeout` may hold entries, and those are zero-only.
-/

namespace TypesenseHttp

/-- The eight timeouts of an `h2o_context_t` that the destructor lists. -/
inductive Timeout where
  | zero
  | oneSec
  | hundredMs
  | handshake
  | http1Req
  | http2Idle
  | http2GracefulShutdown
  | proxyIo
  deriving DecidableEq, Repr, Fintype

/-- An `h2o_timeout_entry_t`, with what its callback does: link entries, each onto one of the eight
timeouts, in order. The tree is finite, so a configuration of entries has finitely many linkable
entries in total. -/
inductive Entry where
  | mk (id : Nat) (links : List (Timeout × Entry))

/-- What an entry's callback links. -/
def Entry.links : Entry → List (Timeout × Entry)
  | .mk _ links => links

mutual
/-- An entry and every entry its callback would link, and theirs. -/
def Entry.nodes : Entry → List Entry
  | .mk id links => .mk id links :: linksNodes links

/-- The entries a callback would link, and theirs. -/
def linksNodes : List (Timeout × Entry) → List Entry
  | [] => []
  | (_, e) :: links => e.nodes ++ linksNodes links
end

/-- The context's timeouts during the destructor, and the callbacks run so far. -/
structure Teardown where
  /-- Each timeout's `_entries`, in order, with each entry's `registered_at`. -/
  pending : Timeout → List (Entry × Nat)
  /-- The entries whose callback ran, in order, with the `registered_at` it saw. -/
  fired : List (Entry × Nat)
  /-- `h2o_now(ctx.loop)`; the loop does not run during the destructor. -/
  now : Nat

/-- `h2o_timeout_link`: the entry goes at the tail, stamped with the loop's time. -/
def timeoutLink (now : Nat) (pending : Timeout → List (Entry × Nat)) (t : Timeout) (e : Entry) :
    Timeout → List (Entry × Nat) :=
  Function.update pending t (pending t ++ [(e, now)])

/-- An entry's callback: it links its entries in order. -/
def runCallback (now : Nat) (pending : Timeout → List (Entry × Nat)) (e : Entry) :
    Timeout → List (Entry × Nat) :=
  e.links.foldl (fun p l => timeoutLink now p l.1 l.2) pending

/-- `h2o_timeout__do_post_callback`. On h2o's evloop it runs the loop's pending socket callbacks
(`run_pending`); the model assumes what they link is folded into the entry's links and that they
unlink nothing, so nothing is left for this step to do. -/
def doPostCallback (x : Teardown) : Teardown := x

/-- The `while` loop of `HttpServer::clear_timeouts` on one timeout, at most `fuel` turns: unlink
the first entry, reset its `registered_at` to 0, run its callback. -/
def clearTimeout : Nat → Timeout → Teardown → Option Teardown
  | 0, _, _ => none
  | fuel + 1, t, x =>
    match x.pending t with
    | [] => some x
    | (e, _) :: rest =>
      clearTimeout fuel t <| doPostCallback
        { x with pending := runCallback x.now (Function.update x.pending t rest) e,
                 fired := x.fired ++ [(e, 0)] }

/-- `HttpServer::clear_timeouts`: the loop on each timeout of the vector, in order. -/
def clearTimeouts (fuel : Nat) : List Timeout → Teardown → Option Teardown
  | [], x => some x
  | t :: ts, x => (clearTimeout fuel t x).bind (clearTimeouts fuel ts)

/-- The vector the destructor builds, in its order. -/
def destructorTimeouts : List Timeout :=
  [.zero, .oneSec, .hundredMs, .handshake, .http1Req, .http2Idle, .http2GracefulShutdown, .proxyIo]

/-- The destructor's clearing, up to `h2o_context_dispose`: the eight timeouts, then `zero_timeout`
again. -/
def teardown (fuel : Nat) (x : Teardown) : Option Teardown :=
  (clearTimeouts fuel destructorTimeouts x).bind (clearTimeouts fuel [.zero])

/-! ## Entries pending and linkable -/

/-- The entries of a timeout's list and all they would link. -/
def nodesOf (l : List (Entry × Nat)) : List Entry := l.flatMap fun p => p.1.nodes

/-- Every entry pending on some timeout, or linkable from one. -/
def pendingNodes (pending : Timeout → List (Entry × Nat)) : Multiset Entry :=
  ∑ t, (nodesOf (pending t) : Multiset Entry)

/-- The entries whose callback ran. -/
def firedNodes (x : Teardown) : Multiset Entry := (x.fired.map Prod.fst : List Entry)

@[simp] theorem nodesOf_nil : nodesOf [] = [] := rfl

@[simp] theorem nodesOf_cons (p : Entry × Nat) (l : List (Entry × Nat)) :
    nodesOf (p :: l) = p.1.nodes ++ nodesOf l := rfl

@[simp] theorem nodesOf_append (l l' : List (Entry × Nat)) :
    nodesOf (l ++ l') = nodesOf l ++ nodesOf l' := List.flatMap_append _ _ _

theorem pendingNodes_update (p : Timeout → List (Entry × Nat)) (t : Timeout) (l : List (Entry × Nat)) :
    pendingNodes (Function.update p t l) + nodesOf (p t) = pendingNodes p + nodesOf l := by
  simp only [pendingNodes]
  rw [← Finset.add_sum_erase _ _ (Finset.mem_univ t), ← Finset.add_sum_erase _ _ (Finset.mem_univ t),
    Finset.sum_congr rfl fun s hs => by rw [Function.update_noteq (Finset.ne_of_mem_erase hs)]]
  simp only [Function.update_same]
  abel

/-- Linking an entry adds it, and all it would link, to the pending entries. -/
theorem pendingNodes_timeoutLink (now : Nat) (p : Timeout → List (Entry × Nat)) (t : Timeout) (e : Entry) :
    pendingNodes (timeoutLink now p t e) = pendingNodes p + e.nodes := by
  have h := pendingNodes_update p t (p t ++ [(e, now)])
  simp only [nodesOf_append, nodesOf_cons, nodesOf_nil, List.append_nil, ← Multiset.coe_add] at h
  rw [timeoutLink, ← add_left_inj (nodesOf (p t) : Multiset Entry), h]
  abel

/-- A callback adds the entries it links, and all they would link. -/
theorem pendingNodes_runCallback (now : Nat) (p : Timeout → List (Entry × Nat)) (e : Entry) :
    pendingNodes (runCallback now p e) = pendingNodes p + linksNodes e.links := by
  unfold runCallback
  induction e.links generalizing p with
  | nil => simp [linksNodes]
  | cons l links ih =>
    rw [List.foldl_cons, ih, pendingNodes_timeoutLink, linksNodes, ← Multiset.coe_add, add_assoc]

/-- **One turn of the loop fires one entry**: the entry it unlinks leaves the pending entries, and
what its callback links was already counted there. -/
theorem pendingNodes_turn (now : Nat) {p : Timeout → List (Entry × Nat)} {t : Timeout} {e : Entry}
    {r : Nat} {rest : List (Entry × Nat)} (h : p t = (e, r) :: rest) :
    e ::ₘ pendingNodes (runCallback now (Function.update p t rest) e) = pendingNodes p := by
  have hu := pendingNodes_update p t rest
  rw [h, nodesOf_cons] at hu
  obtain ⟨id, links⟩ := e
  simp only [Entry.nodes, List.cons_append, ← Multiset.coe_add, ← Multiset.cons_coe] at hu
  rw [pendingNodes_runCallback, ← add_left_inj (nodesOf rest : Multiset Entry), ← hu, Entry.links]
  simp only [Multiset.cons_add, Multiset.add_cons, add_assoc]

/-- A callback only appends: every timeout's list keeps what it had as a prefix. -/
theorem prefix_runCallback (now : Nat) (p : Timeout → List (Entry × Nat)) (e : Entry) (s : Timeout) :
    p s <+: runCallback now p e s := by
  unfold runCallback
  induction e.links generalizing p with
  | nil => exact List.prefix_refl _
  | cons l links ih =>
    refine List.IsPrefix.trans ?_ (ih _)
    by_cases hs : s = l.1
    · subst hs; simp [timeoutLink]
    · simp [timeoutLink, Function.update_noteq hs]

/-! ## One timeout's loop -/

/-- What the loop on timeout `t` does, from `x` to `y`. -/
structure ClearSpec (t : Timeout) (x y : Teardown) : Prop where
  /-- The timeout is empty when the loop ends. -/
  emptied : y.pending t = []
  /-- Every entry is fired, once, or still pending or linkable. -/
  conserve : firedNodes y + pendingNodes y.pending = firedNodes x + pendingNodes x.pending
  /-- The entries the loop found fire first, in order; every callback saw `registered_at` 0. -/
  firedFirst : ∃ more, y.fired = x.fired ++ (x.pending t).map (fun p => (p.1, 0)) ++ more ∧
    ∀ p ∈ more, p.2 = 0
  /-- Every other timeout only grew at its tail. -/
  grows : ∀ s, s ≠ t → x.pending s <+: y.pending s
  now : y.now = x.now

/-- Firing only moves entries out of the pending ones. -/
theorem card_pendingNodes_le {x y : Teardown}
    (hc : firedNodes y + pendingNodes y.pending = firedNodes x + pendingNodes x.pending)
    {more : List (Entry × Nat)} (hmore : y.fired = x.fired ++ more) :
    Multiset.card (pendingNodes y.pending) ≤ Multiset.card (pendingNodes x.pending) := by
  have := congrArg Multiset.card hc
  simp only [Multiset.card_add, firedNodes, Multiset.coe_card, List.length_map, hmore,
    List.length_append] at this
  omega

theorem ClearSpec.card_le {t : Timeout} {x y : Teardown} (h : ClearSpec t x y) :
    Multiset.card (pendingNodes y.pending) ≤ Multiset.card (pendingNodes x.pending) := by
  obtain ⟨more, hmore, -⟩ := h.firedFirst
  exact card_pendingNodes_le h.conserve (hmore.trans (List.append_assoc _ _ _))

/-- **One turn of the loop**: what the loop does from the state after the turn, it does from the
state before it. -/
theorem ClearSpec.turn {t : Timeout} {x y : Teardown} {e : Entry} {r : Nat} {rest : List (Entry × Nat)}
    (hx : x.pending t = (e, r) :: rest)
    (h : ClearSpec t { x with pending := runCallback x.now (Function.update x.pending t rest) e,
                              fired := x.fired ++ [(e, 0)] } y) : ClearSpec t x y := by
  refine ⟨h.emptied, ?_, ?_, ?_, h.now⟩
  · rw [h.conserve, ← pendingNodes_turn x.now hx]
    simp only [firedNodes, List.map_append, List.map_cons, List.map_nil, ← Multiset.coe_add,
      Multiset.coe_singleton, add_comm _ ({e} : Multiset Entry), Multiset.singleton_add,
      Multiset.cons_add, Multiset.add_cons]
  · obtain ⟨more, hmore, h0⟩ := h.firedFirst
    obtain ⟨extra, hextra⟩ := prefix_runCallback x.now (Function.update x.pending t rest) e t
    simp only [Function.update_same] at hextra
    refine ⟨extra.map (fun p => (p.1, 0)) ++ more, by simp [hmore, ← hextra, hx], ?_⟩
    simp only [List.mem_append, List.mem_map]
    rintro p (⟨q, -, rfl⟩ | hp)
    · rfl
    · exact h0 p hp
  · intro s hs
    have := prefix_runCallback x.now (Function.update x.pending t rest) e s
    rw [Function.update_noteq hs] at this
    exact this.trans (h.grows s hs)

/-- **The loop on one timeout**, given fuel for every entry pending or linkable, finishes and does
what `ClearSpec` says. -/
theorem clearTimeout_spec (t : Timeout) :
    ∀ fuel (x : Teardown), Multiset.card (pendingNodes x.pending) < fuel →
      ∃ y, clearTimeout fuel t x = some y ∧ ClearSpec t x y
  | 0, _, h => absurd h (Nat.not_lt_zero _)
  | fuel + 1, x, hfuel => by
    cases hx : x.pending t with
    | nil => exact ⟨x, by simp [clearTimeout, hx], hx, rfl, ⟨[], by simp [hx]⟩,
        fun _ _ => List.prefix_refl _, rfl⟩
    | cons p rest =>
      obtain ⟨e, r⟩ := p
      have hcard := congrArg Multiset.card (pendingNodes_turn x.now hx)
      rw [Multiset.card_cons] at hcard
      obtain ⟨y, hy, hspec⟩ := clearTimeout_spec t fuel
        { x with pending := runCallback x.now (Function.update x.pending t rest) e,
                 fired := x.fired ++ [(e, 0)] } (by dsimp only; omega)
      exact ⟨y, by simpa [clearTimeout, hx, doPostCallback] using hy, hspec.turn hx⟩

/-! ## The destructor's passes -/

/-- **`clear_timeouts` over distinct timeouts** finishes, keeps every entry fired once or pending,
and fires what each timeout held before its turn (at least `base t`), in the vector's order. -/
theorem clearTimeouts_spec (fuel : Nat) (base : Timeout → List (Entry × Nat)) :
    ∀ (ts : List Timeout) (x : Teardown), ts.Nodup → (∀ t ∈ ts, base t <+: x.pending t) →
      Multiset.card (pendingNodes x.pending) < fuel →
      ∃ y, clearTimeouts fuel ts x = some y ∧
        firedNodes y + pendingNodes y.pending = firedNodes x + pendingNodes x.pending ∧
        (∃ more, y.fired = x.fired ++ more ∧ ∀ p ∈ more, p.2 = 0) ∧
        (x.fired ++ ts.flatMap fun t => (base t).map fun p : Entry × Nat => (p.1, 0)).Sublist y.fired
  | [], x, _, _, _ => ⟨x, rfl, rfl, ⟨[], by simp, by simp⟩, by simp⟩
  | t :: ts, x, hnd, hbase, hfuel => by
    obtain ⟨hnt, hnd⟩ := List.nodup_cons.mp hnd
    obtain ⟨y1, h1, hs⟩ := clearTimeout_spec t fuel x hfuel
    obtain ⟨more1, hmore1, h01⟩ := hs.firedFirst
    obtain ⟨y, h, hc, ⟨more, hmore, h0⟩, hsub⟩ := clearTimeouts_spec fuel base ts y1 hnd
      (fun s hs' => (hbase s (List.mem_cons_of_mem _ hs')).trans (hs.grows s fun e => hnt (e ▸ hs')))
      (lt_of_le_of_lt hs.card_le hfuel)
    refine ⟨y, by simp [clearTimeouts, h1, h], hc.trans hs.conserve,
      ⟨_, by rw [hmore, hmore1, List.append_assoc, List.append_assoc], ?_⟩, ?_⟩
    · simp only [List.mem_append, List.mem_map]
      rintro p (⟨q, -, rfl⟩ | hp | hp)
      · rfl
      · exact h01 p hp
      · exact h0 p hp
    · have hhead : (x.fired ++ (base t).map fun p : Entry × Nat => (p.1, 0)).Sublist y1.fired := by
        rw [hmore1, List.append_assoc]
        exact ((((hbase t (List.mem_cons_self _ _)).map _).sublist).trans
          (List.sublist_append_left _ _)).append_left _
      rw [List.flatMap_cons, ← List.append_assoc]
      exact (hhead.append_right _).trans hsub

/-- **The destructor's clearing**, on a configuration with finitely many linkable entries and given
fuel for every entry pending or linkable, finishes before `h2o_context_dispose`, with `zero_timeout`
empty. Every callback ran after its entry's
`registered_at` was reset to 0; every entry fired once or is still pending or linkable; and every
entry pending when the destructor started fired, in the order of the vector and of each list. -/
theorem teardown_spec (pending : Timeout → List (Entry × Nat)) (now : Nat) :
    ∃ y, teardown (Multiset.card (pendingNodes pending) + 1) ⟨pending, [], now⟩ = some y ∧
      y.pending .zero = [] ∧ (∀ p ∈ y.fired, p.2 = 0) ∧
      firedNodes y + pendingNodes y.pending = pendingNodes pending ∧
      (destructorTimeouts.flatMap fun t => (pending t).map fun p : Entry × Nat => (p.1, 0)).Sublist
        y.fired := by
  obtain ⟨y1, h1, hc1, ⟨more1, hmore1, h01⟩, hsub1⟩ := clearTimeouts_spec
    (Multiset.card (pendingNodes pending) + 1) pending destructorTimeouts ⟨pending, [], now⟩ (by decide)
    (fun _ _ => List.prefix_refl _) (Nat.lt_add_one _)
  have hle := card_pendingNodes_le hc1 hmore1
  obtain ⟨y, h2, hs⟩ := clearTimeout_spec .zero (Multiset.card (pendingNodes pending) + 1) y1
    (Nat.lt_add_one_of_le hle)
  obtain ⟨more2, hmore2, h02⟩ := hs.firedFirst
  refine ⟨y, by rw [teardown, h1]; simp [clearTimeouts, h2], hs.emptied, ?_, ?_, ?_⟩
  · simp only [hmore2, hmore1, List.nil_append, List.mem_append, List.mem_map]
    rintro p ((hp | ⟨q, -, rfl⟩) | hp)
    · exact h01 p hp
    · rfl
    · exact h02 p hp
  · rw [hs.conserve, hc1]
    simp [firedNodes]
  · rw [hmore2, List.append_assoc]
    exact hsub1.trans (List.sublist_append_left _ _)

/-- An entry pending on `hundred_ms_timeout` whose callback links one onto `one_sec_timeout`:
the clearing finishes, but the linked entry is still on `one_sec_timeout`, stamped with the loop's
time, when `h2o_context_dispose` runs, and its callback never ran. -/
theorem teardown_hundredMs_links_oneSec :
    (teardown 3 ⟨fun t => if t = .hundredMs then [(.mk 0 [(.oneSec, .mk 1 [])], 7)] else [], [], 7⟩).map
        (fun y => (y.fired, y.pending .oneSec)) =
      some ([(.mk 0 [(.oneSec, .mk 1 [])], 0)], [(.mk 1 [], 7)]) := rfl

/-! ## When the clearing drains every timeout -/

/-- A timeout's place in the destructor's vector. -/
def Timeout.index : Timeout → Nat
  | .zero => 0
  | .oneSec => 1
  | .hundredMs => 2
  | .handshake => 3
  | .http1Req => 4
  | .http2Idle => 5
  | .http2GracefulShutdown => 6
  | .proxyIo => 7

mutual
/-- Whether an entry's callback, and every callback it links, links onto `zero_timeout` only. -/
def Entry.zeroOnly : Entry → Bool
  | .mk _ links => linksZeroOnly links

/-- Whether every link goes onto `zero_timeout`, with a zero-only entry. -/
def linksZeroOnly : List (Timeout × Entry) → Bool
  | [] => true
  | (t, c) :: links => (t == .zero && c.zeroOnly) && linksZeroOnly links
end

mutual
/-- Whether an entry pending on `s` re-arms forward: every entry its callback links goes onto a
timeout no earlier in the vector than `s` and re-arms forward from there, or, from a timeout other
than `zero_timeout`, onto `zero_timeout` and links onto `zero_timeout` only. -/
def Entry.rearmsForward : Timeout → Entry → Bool
  | s, .mk _ links => linksForward s links

/-- Whether every link of a callback run on `s` re-arms forward. -/
def linksForward : Timeout → List (Timeout × Entry) → Bool
  | _, [] => true
  | s, (t, c) :: links =>
    (if t = .zero ∧ s ≠ .zero then c.zeroOnly else decide (s.index ≤ t.index) && c.rearmsForward t) &&
      linksForward s links
end

theorem Timeout.index_eq_zero {t : Timeout} : t.index = 0 ↔ t = .zero := by
  cases t <;> simp [Timeout.index]

theorem Timeout.index_lt_eight (t : Timeout) : t.index < 8 := by
  cases t <;> simp [Timeout.index]

theorem Timeout.index_inj {s t : Timeout} (h : s.index = t.index) : s = t := by
  cases s <;> cases t <;> simp_all [Timeout.index]

theorem linksZeroOnly_iff {links : List (Timeout × Entry)} :
    linksZeroOnly links = true ↔ ∀ l ∈ links, l.1 = .zero ∧ l.2.zeroOnly = true := by
  induction links with
  | nil => simp [linksZeroOnly]
  | cons l links ih => simp [linksZeroOnly, ih, and_assoc]

theorem linksForward_iff {s : Timeout} {links : List (Timeout × Entry)} :
    linksForward s links = true ↔ ∀ l ∈ links,
      (if l.1 = .zero ∧ s ≠ .zero then l.2.zeroOnly else decide (s.index ≤ l.1.index) && l.2.rearmsForward l.1) = true := by
  induction links with
  | nil => simp [linksForward]
  | cons l links ih => simp only [linksForward, Bool.and_eq_true, ih, List.mem_cons, forall_eq_or_imp]

/-- What an entry linked onto `t` must satisfy once the first pass has cleared the timeouts before
position `i`: a timeout already cleared holds only `zero_timeout`'s entries, which link onto
`zero_timeout` only; a timeout still to be cleared holds entries that re-arm forward. -/
def LinkDrains (i : Nat) (t : Timeout) (c : Entry) : Prop :=
  if t.index < i then t = .zero ∧ c.zeroOnly = true else c.rearmsForward t = true

/-- The invariant of the clearing, before the timeout at position `i` of the first pass. -/
def Drains (i : Nat) (p : Timeout → List (Entry × Nat)) : Prop :=
  ∀ t, ∀ q ∈ p t, LinkDrains i t q.1

/-- An entry fired from a timeout at or before position `i` links only what `Drains i` allows. -/
theorem LinkDrains.links {i : Nat} {t : Timeout} {e : Entry} (h : LinkDrains i t e) (hi : t.index ≤ i) :
    ∀ l ∈ e.links, LinkDrains i l.1 l.2 := by
  obtain ⟨id, links⟩ := e
  intro l hl
  unfold LinkDrains at h ⊢
  split at h
  · obtain ⟨rfl, hz⟩ := h
    have := (linksZeroOnly_iff.mp hz) l hl
    simp [this.1, this.2, Timeout.index]
    omega
  · have hti : t.index = i := by omega
    have := (linksForward_iff.mp h) l hl
    by_cases hz : l.1 = .zero ∧ t ≠ .zero
    · have ht : 0 < i := by rw [← hti]; exact Nat.pos_of_ne_zero fun h => hz.2 (Timeout.index_eq_zero.mp h)
      simp only [hz, ne_eq, not_false_eq_true, and_self, ite_true] at this
      simp [hz.1, Timeout.index, ht, this]
    · simp only [hz, ite_false, Bool.and_eq_true, decide_eq_true_eq] at this
      simp [show ¬ l.1.index < i by omega, this.2]

/-- Linking an entry that `Drains i` allows keeps the invariant. -/
theorem Drains.timeoutLink {i now : Nat} {p : Timeout → List (Entry × Nat)} {t : Timeout} {c : Entry}
    (h : Drains i p) (hc : LinkDrains i t c) : Drains i (timeoutLink now p t c) := by
  intro s q hq
  by_cases hs : s = t
  · subst hs
    simp only [TypesenseHttp.timeoutLink, Function.update_same, List.mem_append, List.mem_singleton] at hq
    rcases hq with hq | rfl
    · exact h s q hq
    · exact hc
  · rw [TypesenseHttp.timeoutLink, Function.update_noteq hs] at hq
    exact h s q hq

/-- A callback whose links `Drains i` allows keeps the invariant. -/
theorem Drains.foldl_link {i now : Nat} {links : List (Timeout × Entry)}
    (hl : ∀ l ∈ links, LinkDrains i l.1 l.2) :
    ∀ {p : Timeout → List (Entry × Nat)}, Drains i p →
      Drains i (links.foldl (fun p l => TypesenseHttp.timeoutLink now p l.1 l.2) p) := by
  induction links with
  | nil => exact id
  | cons l links ih =>
    intro p h
    exact ih (fun l' hl' => hl l' (List.mem_cons_of_mem _ hl'))
      (h.timeoutLink (hl l (List.mem_cons_self _ _)))

/-- **One turn keeps the invariant**, on a timeout at or before position `i`. -/
theorem Drains.turn {i now : Nat} {p : Timeout → List (Entry × Nat)} {t : Timeout} {e : Entry} {r : Nat}
    {rest : List (Entry × Nat)} (h : Drains i p) (hx : p t = (e, r) :: rest) (hi : t.index ≤ i) :
    Drains i (runCallback now (Function.update p t rest) e) := by
  refine Drains.foldl_link ((h t (e, r) (by simp [hx])).links hi) fun s q hq => ?_
  by_cases hs : s = t
  · subst hs
    rw [Function.update_same] at hq
    exact h s q (by simp [hx, hq])
  · rw [Function.update_noteq hs] at hq
    exact h s q hq

/-- A cleared timeout moves the invariant one position on. -/
theorem Drains.succ {i : Nat} {p : Timeout → List (Entry × Nat)} {t : Timeout} (h : Drains i p)
    (ht : p t = []) (hti : t.index = i) : Drains (i + 1) p := by
  intro s q hq
  have hs := h s q hq
  unfold LinkDrains at hs ⊢
  by_cases hsi : s.index = i
  · rw [Timeout.index_inj (hsi.trans hti.symm), ht] at hq
    cases hq
  · by_cases hlt : s.index < i
    · simpa [hlt, show s.index < i + 1 by omega] using hs
    · simpa [hlt, show ¬ s.index < i + 1 by omega] using hs

/-- Past the last position only `zero_timeout` may hold entries. -/
theorem Drains.eq_nil {p : Timeout → List (Entry × Nat)} (h : Drains 8 p) {t : Timeout}
    (ht : t ≠ .zero) : p t = [] := by
  cases hp : p t with
  | nil => rfl
  | cons q qs =>
    have := h t q (by simp [hp])
    simp only [LinkDrains, Timeout.index_lt_eight, ite_true] at this
    exact absurd this.1 ht

/-- Whatever one turn keeps, the loop on a timeout keeps, and it ends with that timeout empty. -/
theorem clearTimeout_keeps {t : Timeout} {P : (Timeout → List (Entry × Nat)) → Prop}
    (hturn : ∀ now p e r rest, p t = (e, r) :: rest → P p →
      P (runCallback now (Function.update p t rest) e)) :
    ∀ fuel (x y : Teardown), clearTimeout fuel t x = some y → P x.pending → P y.pending ∧ y.pending t = []
  | 0, _, _, h, _ => by cases h
  | fuel + 1, x, y, h, hp => by
    cases hx : x.pending t with
    | nil =>
      simp only [clearTimeout, hx, Option.some.injEq] at h
      subst h
      exact ⟨hp, hx⟩
    | cons q rest =>
      obtain ⟨e, r⟩ := q
      simp only [clearTimeout, hx, doPostCallback] at h
      exact clearTimeout_keeps hturn fuel _ y h (hturn _ _ e r rest hx hp)

/-- **The first pass moves the invariant along the vector**, one position per timeout. -/
theorem clearTimeouts_drains (fuel : Nat) :
    ∀ (ts : List Timeout) (i : Nat) (x y : Teardown), ts.map Timeout.index = List.range' i ts.length →
      clearTimeouts fuel ts x = some y → Drains i x.pending → Drains (i + ts.length) y.pending
  | [], i, x, y, _, h, hd => by cases h; simpa using hd
  | t :: ts, i, x, y, hidx, h, hd => by
    simp only [List.map_cons, List.length_cons, List.range'_succ, List.cons.injEq] at hidx
    obtain ⟨y1, h1, h2⟩ := Option.bind_eq_some.mp h
    obtain ⟨hd1, hempty⟩ := clearTimeout_keeps (P := Drains i)
      (fun _ _ _ _ _ hx hp => hp.turn hx (by omega)) fuel x y1 h1 hd
    have := clearTimeouts_drains fuel ts (i + 1) y1 y hidx.2 h2 (hd1.succ hempty hidx.1)
    rwa [Nat.add_assoc, Nat.add_comm 1] at this

/-- **The clearing drains everything when callbacks re-arm forward.** On a configuration with
finitely many linkable entries, if every entry pending when the destructor starts re-arms forward from its timeout (every callback links only onto a timeout
no earlier in the vector, or, from another timeout, onto `zero_timeout` entries that link onto
`zero_timeout` only), the clearing finishes with all eight timeouts empty, and every entry pending
or linkable has had its callback run exactly once. -/
theorem teardown_drains_forward (pending : Timeout → List (Entry × Nat)) (now : Nat)
    (hfwd : ∀ t, ∀ q ∈ pending t, q.1.rearmsForward t = true) :
    ∃ y, teardown (Multiset.card (pendingNodes pending) + 1) ⟨pending, [], now⟩ = some y ∧
      (∀ t, y.pending t = []) ∧ firedNodes y = pendingNodes pending := by
  obtain ⟨y1, h1, hc1, ⟨more1, hmore1, -⟩, -⟩ := clearTimeouts_spec
    (Multiset.card (pendingNodes pending) + 1) pending destructorTimeouts ⟨pending, [], now⟩ (by decide)
    (fun _ _ => List.prefix_refl _) (Nat.lt_add_one _)
  have hle := card_pendingNodes_le hc1 hmore1
  obtain ⟨y, h2, hs⟩ := clearTimeout_spec .zero (Multiset.card (pendingNodes pending) + 1) y1
    (Nat.lt_add_one_of_le hle)
  have hd1 : Drains 8 y1.pending := clearTimeouts_drains _ destructorTimeouts 0 _ y1 rfl h1
    fun t q hq => by simpa [LinkDrains] using hfwd t q hq
  obtain ⟨hd2, -⟩ := clearTimeout_keeps (P := Drains 8)
    (fun _ _ _ _ _ hx hp => hp.turn hx (by simp [Timeout.index])) _ y1 y h2 hd1
  have hall : ∀ t, y.pending t = [] := fun t => by
    by_cases ht : t = .zero
    · subst ht; exact hs.emptied
    · exact hd2.eq_nil ht
  refine ⟨y, by rw [teardown, h1]; simp [clearTimeouts, h2], hall, ?_⟩
  have hc := hs.conserve.trans hc1
  simpa [pendingNodes, hall, firedNodes] using hc

/-- A request timeout whose callback defers a close onto `zero_timeout`, which defers once more,
and re-arms a proxy timeout that re-arms itself: every list ends empty. -/
theorem teardown_drains_deferred_close :
    (∀ t, ∀ q ∈ (if t = .http1Req then
        [(.mk 0 [(.zero, .mk 1 [(.zero, .mk 2 [])]), (.proxyIo, .mk 3 [(.proxyIo, .mk 4 [])])], 7)]
        else [] : List (Entry × Nat)), q.1.rearmsForward t = true) ∧
      ∃ y, teardown (Multiset.card (pendingNodes fun t => if t = .http1Req then
          [(.mk 0 [(.zero, .mk 1 [(.zero, .mk 2 [])]), (.proxyIo, .mk 3 [(.proxyIo, .mk 4 [])])], 7)]
          else []) + 1)
        ⟨fun t => if t = .http1Req then
          [(.mk 0 [(.zero, .mk 1 [(.zero, .mk 2 [])]), (.proxyIo, .mk 3 [(.proxyIo, .mk 4 [])])], 7)]
          else [], [], 7⟩ = some y ∧
      (∀ t, y.pending t = []) ∧
      firedNodes y = pendingNodes fun t => if t = .http1Req then
        [(.mk 0 [(.zero, .mk 1 [(.zero, .mk 2 [])]), (.proxyIo, .mk 3 [(.proxyIo, .mk 4 [])])], 7)]
        else [] :=
  ⟨by decide, teardown_drains_forward _ 7 (by decide)⟩

/-! ## When an entry survives the clearing -/

/-- A callback links each of its entries, stamped with the loop's time. -/
theorem mem_runCallback (now : Nat) (p : Timeout → List (Entry × Nat)) {e : Entry} {l : Timeout × Entry}
    (hl : l ∈ e.links) : (l.2, now) ∈ runCallback now p e l.1 := by
  obtain ⟨id, links⟩ := e
  simp only [Entry.links] at hl
  unfold runCallback Entry.links
  induction links generalizing p with
  | nil => cases hl
  | cons l' links ih =>
    rw [List.foldl_cons]
    rcases List.mem_cons.mp hl with rfl | hl
    · refine (prefix_runCallback now _ (.mk id links) l.1).subset ?_
      simp [TypesenseHttp.timeoutLink]
    · exact ih _ hl

theorem clearTimeout_now {t : Timeout} :
    ∀ fuel (x y : Teardown), clearTimeout fuel t x = some y → y.now = x.now
  | 0, _, _, h => by cases h
  | fuel + 1, x, y, h => by
    cases hx : x.pending t with
    | nil => simp only [clearTimeout, hx, Option.some.injEq] at h; rw [h]
    | cons q rest =>
      simp only [clearTimeout, hx, doPostCallback] at h
      have := clearTimeout_now fuel _ y h
      exact this

/-- The loop on `t` only appends to every other timeout. -/
theorem clearTimeout_grows {t s : Timeout} (hs : s ≠ t) (fuel : Nat) (x y : Teardown)
    (h : clearTimeout fuel t x = some y) : x.pending s <+: y.pending s :=
  (clearTimeout_keeps (P := fun p => x.pending s <+: p s) (fun now p e _ rest _ hp => hp.trans <| by
    simpa [Function.update_noteq hs] using prefix_runCallback now (Function.update p t rest) e s)
    fuel x y h (List.prefix_refl _)).1

/-- `clear_timeouts` over timeouts other than `s` only appends to `s`, and keeps the time. -/
theorem clearTimeouts_grows {s : Timeout} (fuel : Nat) :
    ∀ (ts : List Timeout) (x y : Teardown), s ∉ ts → clearTimeouts fuel ts x = some y →
      x.pending s <+: y.pending s ∧ y.now = x.now
  | [], x, y, _, h => by cases h; exact ⟨List.prefix_refl _, rfl⟩
  | t :: ts, x, y, hs, h => by
    obtain ⟨y1, h1, h2⟩ := Option.bind_eq_some.mp h
    obtain ⟨hp, hn⟩ := clearTimeouts_grows fuel ts y1 y (fun h => hs (List.mem_cons_of_mem _ h)) h2
    exact ⟨(clearTimeout_grows (fun e => hs (by simp [e])) fuel x y1 h1).trans hp,
      hn.trans (clearTimeout_now fuel x y1 h1)⟩

/-- **The loop on `t` links what every entry it found there links**: each entry linked onto
another timeout is there when the loop ends. -/
theorem clearTimeout_links {t : Timeout} :
    ∀ fuel (x y : Teardown), clearTimeout fuel t x = some y →
      ∀ q ∈ x.pending t, ∀ l ∈ q.1.links, l.1 ≠ t → (l.2, x.now) ∈ y.pending l.1
  | 0, _, _, h => by cases h
  | fuel + 1, x, y, h => by
    cases hx : x.pending t with
    | nil => simp
    | cons q rest =>
      obtain ⟨e, r⟩ := q
      simp only [clearTimeout, hx, doPostCallback] at h
      intro q hq l hl hlt
      rcases List.mem_cons.mp hq with rfl | hq
      · exact (clearTimeout_grows hlt fuel _ y h).subset <|
          by simpa [Function.update_noteq hlt] using mem_runCallback x.now (Function.update x.pending t rest) hl
      · refine clearTimeout_links fuel _ y h q ?_ l hl hlt
        exact (prefix_runCallback x.now (Function.update x.pending t rest) e t).subset
          (by simpa using hq)

theorem clearTimeouts_append (fuel : Nat) (ts ts' : List Timeout) (x : Teardown) :
    clearTimeouts fuel (ts ++ ts') x = (clearTimeouts fuel ts x).bind (clearTimeouts fuel ts') := by
  induction ts generalizing x with
  | nil => rfl
  | cons t ts ih => simp [clearTimeouts, ih, Option.bind_assoc]

/-- The vector around one of its timeouts. -/
theorem destructorTimeouts_split (t : Timeout) :
    destructorTimeouts = destructorTimeouts.take t.index ++ t :: destructorTimeouts.drop (t.index + 1) := by
  cases t <;> rfl

theorem not_mem_take_index (t : Timeout) : t ∉ destructorTimeouts.take t.index := by
  cases t <;> decide

theorem not_mem_drop_index {s t : Timeout} (h : s.index < t.index) :
    s ∉ destructorTimeouts.drop (t.index + 1) := by
  revert h; cases s <;> cases t <;> decide

/-- **An entry re-armed backward survives the clearing.** On a configuration with finitely many
linkable entries, if an entry pending when the destructor starts has a callback that links an entry onto a timeout other than `zero_timeout` and earlier in
the vector, the clearing finishes with that entry still linked there, stamped with the loop's
time, when `h2o_context_dispose` is called. -/
theorem teardown_keeps_backward_link (pending : Timeout → List (Entry × Nat)) (now : Nat)
    {t s : Timeout} {q : Entry × Nat} {c : Entry} (hq : q ∈ pending t) (hc : (s, c) ∈ q.1.links)
    (hs : s ≠ .zero) (hlt : s.index < t.index) :
    ∃ y, teardown (Multiset.card (pendingNodes pending) + 1) ⟨pending, [], now⟩ = some y ∧
      (c, now) ∈ y.pending s := by
  obtain ⟨y1, h1, hc1, ⟨more1, hmore1, -⟩, -⟩ := clearTimeouts_spec
    (Multiset.card (pendingNodes pending) + 1) pending destructorTimeouts ⟨pending, [], now⟩ (by decide)
    (fun _ _ => List.prefix_refl _) (Nat.lt_add_one _)
  have hle := card_pendingNodes_le hc1 hmore1
  obtain ⟨y, h2, -⟩ := clearTimeout_spec .zero (Multiset.card (pendingNodes pending) + 1) y1
    (Nat.lt_add_one_of_le hle)
  refine ⟨y, by rw [teardown, h1]; simp [clearTimeouts, h2], ?_⟩
  rw [destructorTimeouts_split t, clearTimeouts_append] at h1
  obtain ⟨ya, ha, hb⟩ := Option.bind_eq_some.mp h1
  obtain ⟨yb, hb1, hb2⟩ := Option.bind_eq_some.mp hb
  obtain ⟨hpa, hna⟩ := clearTimeouts_grows _ _ _ _ (not_mem_take_index t) ha
  have hst : s ≠ t := fun e => by rw [e] at hlt; exact lt_irrefl _ hlt
  have hlinked := clearTimeout_links _ ya yb hb1 q (hpa.subset hq) (s, c) hc hst
  rw [hna] at hlinked
  obtain ⟨hpb, -⟩ := clearTimeouts_grows _ _ _ _ (not_mem_drop_index hlt) hb2
  exact (hpb.trans (clearTimeout_grows hs _ y1 y h2)).subset hlinked

/-- The entry that a `hundred_ms_timeout` callback links onto `one_sec_timeout` is still there. -/
theorem teardown_keeps_oneSec_link :
    ∃ y, teardown (Multiset.card (pendingNodes fun t => if t = .hundredMs then
          [(.mk 0 [(.oneSec, .mk 1 [])], 7)] else []) + 1)
        ⟨fun t => if t = .hundredMs then [(.mk 0 [(.oneSec, .mk 1 [])], 7)] else [], [], 7⟩ = some y ∧
      (.mk 1 [], 7) ∈ y.pending .oneSec :=
  teardown_keeps_backward_link _ 7 (t := .hundredMs) (List.mem_singleton_self _)
    (List.mem_singleton_self _) (by decide) (by decide)

end TypesenseHttp
