import FfiRpc.Core.Circular

/-!
# Linear probing

Tables of `n` slots in a ring, in which an entry is looked for from its home slot on, one
slot after the other, up to the first free one. That finds every entry as long as none is
cut off from its home (`Probed`): an entry may be put where the search for it ends
(`Probed.put`), and when one is taken out, entries behind the hole move up until the hole
is where it cuts off none (`Hole`: `closed`, `skip` and `shift` are the cases of one turn).

Nothing is said about what an entry is but that it has a home, and, where entries are
looked up, a key.
-/
namespace FfiRpc.Probing

open Circular

/-! ## Tables -/

section
variable {ε κ : Type} {n : Nat} {home : ε → Nat} {key : ε → κ} {t t' : Nat → Option ε} {x y : ε}
  {i r idx : Nat}

/-- No entry is cut off from its home by a free slot. -/
def Probed (n : Nat) (home : ε → Nat) (t : Nat → Option ε) : Prop :=
  ∀ i < n, ∀ x, t i = some x → ∀ j < n, dist n (home x) j < dist n (home x) i → t j ≠ none

/-- The table has the entry. -/
def Has (n : Nat) (t : Nat → Option ε) (x : ε) : Prop := ∃ i < n, t i = some x

/-- No two entries have the same key. -/
def Distinct (n : Nat) (key : ε → κ) (t : Nat → Option ε) : Prop :=
  ∀ i < n, ∀ j < n, ∀ x y, t i = some x → t j = some y → key x = key y → i = j

/-- The search for an entry ends where it is, or at a free slot when it is nowhere. -/
theorem Probed.search (h : Probed n home t) (key : ε → κ) {k : κ} {h0 : Nat}
    (hh : h0 < n) (hhome : ∀ x, key x = k → home x = h0) (hidx : idx < n)
    (hpassed : ∀ j < n, dist n h0 j < dist n h0 idx → ∃ y, t j = some y ∧ key y ≠ k)
    (hfree : t idx = none) : ∀ x, Has n t x → key x ≠ k := by
  intro x hx hk
  obtain ⟨i, hi, hx⟩ := hx
  rcases Nat.lt_or_ge (dist n h0 i) (dist n h0 idx) with hlt | hge
  · obtain ⟨y, hy, hne⟩ := hpassed i hi hlt
    rw [hx] at hy
    cases hy
    exact hne hk
  · rcases Nat.eq_or_lt_of_le hge with heq | hlt
    · rw [dist_inj hh hidx hi heq, hx] at hfree
      cases hfree
    · rw [← hhome x hk] at hlt
      exact h i hi x hx idx hidx hlt hfree

/-- An entry may go wherever the search for it comes to. -/
theorem Probed.put (h : Probed n home t)
    (hpath : ∀ j < n, dist n (home x) j < dist n (home x) i → t j ≠ none) :
    Probed n home (Function.update t i (some x)) := by
  intro i' hi' x' hx' j hj hlt
  by_cases hji : j = i
  · rw [hji, Function.update_self]
    exact Option.some_ne_none x
  · rw [Function.update_of_ne hji]
    by_cases hi : i' = i
    · rw [hi, Function.update_self] at hx'
      cases hx'
      rw [hi] at hlt
      exact hpath j hj hlt
    · rw [Function.update_of_ne hi] at hx'
      exact h i' hi' x' hx' j hj hlt

theorem has_put (hi : i < n) (hfree : t i = none) (z : ε) :
    Has n (Function.update t i (some x)) z ↔ z = x ∨ Has n t z := by
  constructor
  · intro hz
    obtain ⟨j, hj, hz⟩ := hz
    by_cases hji : j = i
    · rw [hji, Function.update_self] at hz
      cases hz
      exact .inl rfl
    · rw [Function.update_of_ne hji] at hz
      exact .inr ⟨j, hj, hz⟩
  · intro hz
    rcases hz with rfl | ⟨j, hj, hz⟩
    · exact ⟨i, hi, Function.update_self ..⟩
    · refine ⟨j, hj, ?_⟩
      rw [Function.update_of_ne, hz]
      intro hc
      rw [hc, hfree] at hz
      cases hz

theorem Distinct.put (h : Distinct n key t) (hnew : ∀ z, Has n t z → key z ≠ key x) :
    Distinct n key (Function.update t i (some x)) := by
  have hother : ∀ a < n, ∀ z, Function.update t i (some x) a = some z → a ≠ i →
      t a = some z := by
    intro a _ z hz ha
    rwa [Function.update_of_ne ha] at hz
  intro a ha b hb z w hz hw hk
  by_cases hai : a = i
  · by_cases hbi : b = i
    · rw [hai, hbi]
    · rw [hai, Function.update_self] at hz
      cases hz
      exact absurd hk.symm (hnew w ⟨b, hb, hother b hb w hw hbi⟩)
  · by_cases hbi : b = i
    · rw [hbi, Function.update_self] at hw
      cases hw
      exact absurd hk (hnew z ⟨a, ha, hother a ha z hz hai⟩)
    · exact h a ha b hb z w (hother a ha z hz hai) (hother b hb w hw hbi) hk

/-! ## Taking an entry out

`Hole n home t r c` is the invariant of the repair: what the hole at `r` cuts off lies
behind the slots looked at so far. -/

/-- The slot `r` is free. It cuts off only entries that are at least `c` slots behind it. -/
structure Hole (n : Nat) (home : ε → Nat) (t : Nat → Option ε) (r c : Nat) : Prop where
  lt : r < n
  free : t r = none
  path : ∀ i < n, ∀ x, t i = some x → ∀ j < n, dist n (home x) j < dist n (home x) i →
    t j ≠ none ∨ j = r ∧ c ≤ dist n r i

/-- Right after the entry is taken out nothing has been looked at. -/
theorem Probed.hole (h : Probed n home t) (hr : r < n) :
    Hole n home (Function.update t r none) r 1 := by
  refine ⟨hr, Function.update_self .., fun i hi x hx j hj hlt => ?_⟩
  have hir : i ≠ r := by
    rintro rfl
    rw [Function.update_self] at hx
    cases hx
  rw [Function.update_of_ne hir] at hx
  by_cases hjr : j = r
  · exact .inr ⟨hjr, dist_pos hr hir⟩
  · rw [Function.update_of_ne hjr]
    exact .inl (h i hi x hx j hj hlt)

/-- The slot after those looked at is free: no entry is cut off. -/
theorem Hole.closed (h : Hole n home t r (dist n r idx)) (hhome : ∀ x, home x < n) (hidx : idx < n)
    (hne : idx ≠ r) (hfree : t idx = none) : Probed n home t := by
  intro i hi x hx j hj hlt
  rcases h.path i hi x hx j hj hlt with hocc | ⟨rfl, hle⟩
  · exact hocc
  · -- the way of `x` goes past the hole, and then past `idx`
    have hpos := dist_pos h.lt hne
    have hi' := dist_add (hhome x) h.lt hi (Nat.le_of_lt hlt)
    rcases Nat.eq_or_lt_of_le hle with heq | hlt'
    · rw [dist_inj h.lt hidx hi heq, hx] at hfree
      cases hfree
    · have hbound := dist_lt (hhome x) hi
      have hidx' : dist n (home x) idx = dist n (home x) j + dist n j idx :=
        dist_append (hhome x) h.lt (by omega)
      rcases h.path i hi x hx idx hidx (by omega) with hocc | ⟨heq, -⟩
      · exact absurd hfree hocc
      · exact absurd heq hne

/-- The entry at the next slot is not cut off. -/
theorem Hole.skip (h : Hole n home t r (dist n r idx)) (hidx : idx < n) (hy : t idx = some y)
    (hle : dist n (home y) idx ≤ dist n (home y) r) : Hole n home t r (dist n r idx + 1) := by
  refine ⟨h.lt, h.free, fun i hi x hx j hj hlt => ?_⟩
  rcases h.path i hi x hx j hj hlt with hocc | ⟨rfl, hc⟩
  · exact .inl hocc
  · refine .inr ⟨rfl, Nat.lt_of_le_of_ne hc fun heq => ?_⟩
    rw [← dist_inj h.lt hidx hi heq, hy] at hx
    cases hx
    rw [dist_inj h.lt hidx hi heq] at hle
    omega

/-- The entry at the next slot moves into the hole. -/
theorem Hole.shift (h : Hole n home t r (dist n r idx)) (hidx : idx < n) (hne : idx ≠ r)
    (hy : t idx = some y) (hlt : dist n (home y) r < dist n (home y) idx) :
    Hole n home (Function.update (Function.update t r (some y)) idx none) idx 1 := by
  refine ⟨hidx, Function.update_self .., fun i hi x hx j hj hlt' => ?_⟩
  by_cases hji : j = idx
  · refine .inr ⟨hji, dist_pos hidx fun hc => ?_⟩
    rw [hc, Function.update_self] at hx
    cases hx
  · rw [Function.update_of_ne hji]
    by_cases hjr : j = r
    · rw [hjr, Function.update_self]
      exact .inl (Option.some_ne_none y)
    · rw [Function.update_of_ne hjr]
      have hii : i ≠ idx := by
        rintro rfl
        rw [Function.update_self] at hx
        cases hx
      rw [Function.update_of_ne hii] at hx
      by_cases hir : i = r
      · rw [hir, Function.update_self] at hx
        cases hx
        rw [hir] at hlt'
        rcases h.path idx hidx y hy j hj (hlt'.trans hlt) with hocc | ⟨hc, -⟩
        · exact .inl hocc
        · exact absurd hc hjr
      · rw [Function.update_of_ne hir] at hx
        rcases h.path i hi x hx j hj hlt' with hocc | ⟨hc, -⟩
        · exact .inl hocc
        · exact absurd hc hjr

theorem has_shift (hr : r < n) (hidx : idx < n) (hne : idx ≠ r) (hfree : t r = none)
    (hy : t idx = some y) (z : ε) :
    Has n (Function.update (Function.update t r (some y)) idx none) z ↔ Has n t z := by
  constructor
  · intro hz
    obtain ⟨j, hj, hz⟩ := hz
    by_cases hji : j = idx
    · rw [hji, Function.update_self] at hz
      cases hz
    · rw [Function.update_of_ne hji] at hz
      by_cases hjr : j = r
      · rw [hjr, Function.update_self] at hz
        cases hz
        exact ⟨idx, hidx, hy⟩
      · rw [Function.update_of_ne hjr] at hz
        exact ⟨j, hj, hz⟩
  · intro hz
    obtain ⟨j, hj, hz⟩ := hz
    by_cases hji : j = idx
    · rw [hji, hy] at hz
      cases hz
      exact ⟨r, hr, by rw [Function.update_of_ne hne.symm, Function.update_self]⟩
    · refine ⟨j, hj, ?_⟩
      rw [Function.update_of_ne hji, Function.update_of_ne, hz]
      intro hjr
      rw [hjr, hfree] at hz
      cases hz

theorem Distinct.shift (h : Distinct n key t) (hidx : idx < n) (hy : t idx = some y) :
    Distinct n key (Function.update (Function.update t r (some y)) idx none) := by
  -- where each entry was before
  have hback : ∀ a < n, ∀ z, Function.update (Function.update t r (some y)) idx none a = some z →
      a ≠ idx ∧ (a = r ∧ z = y ∨ a ≠ r ∧ t a = some z) := by
    intro a _ z hz
    have hai : a ≠ idx := by
      rintro rfl
      rw [Function.update_self] at hz
      cases hz
    rw [Function.update_of_ne hai] at hz
    refine ⟨hai, ?_⟩
    by_cases har : a = r
    · rw [har, Function.update_self] at hz
      exact .inl ⟨har, (Option.some.inj hz).symm⟩
    · rw [Function.update_of_ne har] at hz
      exact .inr ⟨har, hz⟩
  intro a ha b hb z w hza hwb hk
  obtain ⟨hai, hz⟩ := hback a ha z hza
  obtain ⟨hbi, hw⟩ := hback b hb w hwb
  rcases hz with ⟨rfl, rfl⟩ | ⟨har, hz⟩
  · rcases hw with ⟨rfl, -⟩ | ⟨-, hw⟩
    · rfl
    · exact absurd (h idx hidx b hb z w hy hw hk).symm hbi
  · rcases hw with ⟨rfl, rfl⟩ | ⟨-, hw⟩
    · exact absurd (h a ha idx hidx z w hz hy hk) hai
    · exact h a ha b hb z w hz hw hk

theorem Distinct.erase (h : Distinct n key t) (r : Nat) :
    Distinct n key (Function.update t r none) := by
  have hback : ∀ a z, Function.update t r none a = some z → t a = some z := by
    intro a z hz
    by_cases har : a = r
    · rw [har, Function.update_self] at hz
      cases hz
    · rwa [Function.update_of_ne har] at hz
  intro a ha b hb z w hz hw hk
  exact h a ha b hb z w (hback a z hz) (hback b w hw) hk

theorem has_erase (h : Distinct n key t) (hr : r < n) (hy : t r = some y) (z : ε) :
    Has n (Function.update t r none) z ↔ Has n t z ∧ key z ≠ key y := by
  constructor
  · intro hz
    obtain ⟨j, hj, hz⟩ := hz
    have hjr : j ≠ r := by
      rintro rfl
      rw [Function.update_self] at hz
      cases hz
    rw [Function.update_of_ne hjr] at hz
    exact ⟨⟨j, hj, hz⟩, fun hk => hjr (h j hj r hr z y hz hy hk)⟩
  · intro hz
    obtain ⟨⟨j, hj, hz⟩, hk⟩ := hz
    refine ⟨j, hj, ?_⟩
    rw [Function.update_of_ne, hz]
    rintro rfl
    rw [hz] at hy
    cases hy
    exact hk rfl

/-! ## Counting

How many slots are occupied, which is what a table's size counts. -/

/-- The occupied slots. -/
def occupied (n : Nat) (t : Nat → Option ε) : Finset Nat :=
  (Finset.range n).filter fun j => (t j).isSome = true

theorem mem_occupied {j : Nat} : j ∈ occupied n t ↔ j < n ∧ (t j).isSome = true := by
  unfold occupied
  rw [Finset.mem_filter, Finset.mem_range]

theorem card_put (hi : i < n) (hfree : t i = none) :
    (occupied n (Function.update t i (some x))).card = (occupied n t).card + 1 := by
  have hsplit : occupied n (Function.update t i (some x)) = insert i (occupied n t) := by
    ext j
    rw [Finset.mem_insert, mem_occupied, mem_occupied]
    by_cases hji : j = i
    · simp [hji, hi]
    · simp [hji]
  rw [hsplit, Finset.card_insert_of_notMem]
  intro hc
  have := (mem_occupied.1 hc).2
  rw [hfree] at this
  cases this

theorem card_erase (hi : i < n) (hy : t i = some y) :
    (occupied n (Function.update t i none)).card + 1 = (occupied n t).card := by
  have h := card_put (x := y) hi (Function.update_self i none t)
  rw [Function.update_idem, ← hy, Function.update_eq_self] at h
  exact h.symm

theorem exists_free (h : (occupied n t).card < n) : ∃ i < n, t i = none := by
  by_contra hc
  push Not at hc
  have hall : occupied n t = Finset.range n := by
    ext j
    rw [mem_occupied, Finset.mem_range]
    exact and_iff_left_of_imp fun hj => Option.isSome_iff_ne_none.2 (hc j hj)
  rw [hall, Finset.card_range] at h
  exact Nat.lt_irrefl n h

/-! ## What is still ahead

The bound of the repair: each turn leaves one entry less ahead of it. -/

/-- The occupied slots more than `m` steps from `r`. -/
def ahead (n : Nat) (t : Nat → Option ε) (r m : Nat) : Finset Nat :=
  (Finset.range n).filter fun j => (t j).isSome = true ∧ m < dist n r j

theorem mem_ahead {r m j : Nat} : j ∈ ahead n t r m ↔ j < n ∧ (t j).isSome = true ∧ m < dist n r j := by
  unfold ahead
  rw [Finset.mem_filter, Finset.mem_range]

theorem ahead_congr {m : Nat} (h : ∀ j < n, m < dist n r j → t' j = t j) :
    ahead n t' r m = ahead n t r m := by
  ext j
  rw [mem_ahead, mem_ahead]
  constructor
  · intro hj
    exact ⟨hj.1, h j hj.1 hj.2.2 ▸ hj.2.1, hj.2.2⟩
  · intro hj
    exact ⟨hj.1, (h j hj.1 hj.2.2).symm ▸ hj.2.1, hj.2.2⟩

/-- The next slot is taken from what is ahead. -/
theorem card_ahead_next {m : Nat} (hr : r < n) (hidx : idx < n) (hdist : dist n r idx = m + 1) (hy : t idx = some y) :
    (ahead n t r (m + 1)).card + 1 = (ahead n t r m).card := by
  have hsplit : ahead n t r m = insert idx (ahead n t r (m + 1)) := by
    ext j
    rw [Finset.mem_insert, mem_ahead, mem_ahead]
    constructor
    · intro hj
      by_cases hd : dist n r j = m + 1
      · exact .inl (dist_inj hr hj.1 hidx (hd.trans hdist.symm))
      · exact .inr ⟨hj.1, hj.2.1, by omega⟩
    · intro hj
      rcases hj with rfl | hj
      · exact ⟨hidx, by rw [hy]; rfl, by omega⟩
      · exact ⟨hj.1, hj.2.1, by omega⟩
  rw [hsplit, Finset.card_insert_of_notMem]
  intro hc
  have := (mem_ahead.1 hc).2.2
  omega

theorem free_of_ahead {m j : Nat} (h : (ahead n t r m).card = 0) (hj : j < n) (hm : m < dist n r j) :
    t j = none := by
  cases ho : t j with
  | none => rfl
  | some y =>
    have hmem : j ∈ ahead n t r m := mem_ahead.2 ⟨hj, by rw [ho]; rfl, hm⟩
    rw [Finset.card_eq_zero.1 h] at hmem
    exact absurd hmem (Finset.notMem_empty j)

theorem ahead_zero (hr : r < n) (hfree : t r = none) : ahead n t r 0 = occupied n t := by
  ext j
  rw [mem_ahead, mem_occupied]
  constructor
  · intro hj
    exact ⟨hj.1, hj.2.1⟩
  · intro hj
    refine ⟨hj.1, hj.2, dist_pos hr ?_⟩
    rintro rfl
    rw [hfree] at hj
    cases hj.2

/-! ## The way along the entries behind a hole

Hole and bound together, as one loop has them. -/

/-- `t'` has the entries of `t`, none of them further from `r`. -/
structure Moved (n : Nat) (key : ε → κ) (r : Nat) (t t' : Nat → Option ε) : Prop where
  nearer : ∀ j < n, ∀ z, t j = some z → ∃ j' < n, t' j' = some z ∧ dist n r j' ≤ dist n r j
  has : ∀ z, Has n t' z → Has n t z
  distinct : Distinct n key t → Distinct n key t'
  card : (occupied n t').card = (occupied n t).card

theorem Moved.refl (n : Nat) (key : ε → κ) (r : Nat) (t : Nat → Option ε) : Moved n key r t t :=
  ⟨fun j hj _ hz => ⟨j, hj, hz, Nat.le_refl _⟩, fun _ hz => hz, fun h => h, rfl⟩

theorem Moved.trans {t1 t2 t3 : Nat → Option ε} (h1 : Moved n key r t1 t2)
    (h2 : Moved n key r t2 t3) : Moved n key r t1 t3 := by
  refine ⟨fun j hj z hz => ?_, fun z hz => h1.has z (h2.has z hz),
    fun h => h2.distinct (h1.distinct h), h2.card.trans h1.card⟩
  obtain ⟨k, hk, hz, hle⟩ := h1.nearer j hj z hz
  obtain ⟨l, hl, hz, hle'⟩ := h2.nearer k hk z hz
  exact ⟨l, hl, hz, hle'.trans hle⟩

theorem Moved.has_iff (h : Moved n key r t t') (z : ε) : Has n t' z ↔ Has n t z := by
  constructor
  · exact h.has z
  · intro hz
    obtain ⟨j, hj, hz⟩ := hz
    obtain ⟨k, hk, hz, -⟩ := h.nearer j hj z hz
    exact ⟨k, hk, hz⟩

theorem Moved.shift {s : Nat} (hr : r < n) (hidx : idx < n) (hne : idx ≠ r) (hfree : t r = none)
    (hy : t idx = some y) (hle : dist n s r ≤ dist n s idx) :
    Moved n key s t (Function.update (Function.update t r (some y)) idx none) := by
  refine ⟨fun j hj z hz => ?_, fun z => (has_shift hr hidx hne hfree hy z).1,
    fun h => h.shift hidx hy, ?_⟩
  · by_cases hji : j = idx
    · rw [hji, hy] at hz
      cases hz
      refine ⟨r, hr, ?_, hji ▸ hle⟩
      rw [Function.update_of_ne hne.symm, Function.update_self]
    · refine ⟨j, hj, ?_, Nat.le_refl _⟩
      have hjr : j ≠ r := by
        rintro rfl
        rw [hfree] at hz
        cases hz
      rw [Function.update_of_ne hji, Function.update_of_ne hjr, hz]
  · have h1 := card_put (x := y) hr hfree
    have h2 := card_erase (t := Function.update t r (some y)) (y := y) hidx (by
      rw [Function.update_of_ne hne, hy])
    omega

/-- On the way from `s` to fill the hole at `r`: `idx` is looked at next, and `left` entries
are ahead. There is still a free slot to stop at. -/
structure Closing (n : Nat) (home : ε → Nat) (key : ε → κ) (s : Nat) (t0 t : Nat → Option ε)
    (r idx left : Nat) : Prop where
  hole : Hole n home t r (dist n r idx)
  moved : Moved n key s t0 t
  start : s < n
  lt : idx < n
  behind : dist n s r < dist n s idx
  gap : ∃ f < n, t f = none ∧ dist n s idx ≤ dist n s f
  left : (ahead n t s (dist n s idx - 1)).card = left

/-- The way begins at the slot behind the entry taken out. -/
theorem Probed.closing {s : Nat} (h : Probed n home t) (key : ε → κ) (hs : s < n)
    (hgap : ∃ f < n, f ≠ s ∧ t f = none) :
    Closing n home key s (Function.update t s none) (Function.update t s none) s ((s + 1) % n)
      (occupied n (Function.update t s none)).card := by
  obtain ⟨f, hf, hfs, hfree⟩ := hgap
  have hpos := dist_pos (n := n) hs hfs
  have hfn := dist_lt hs hf
  have hnext : dist n s ((s + 1) % n) = 1 := by
    rw [dist_next hs hs (by rw [dist_self]; omega), dist_self]
  refine ⟨?_, Moved.refl .., hs, next_lt hs, ?_, ⟨f, hf, ?_, ?_⟩, ?_⟩
  · rw [hnext]
    exact h.hole hs
  · rw [hnext, dist_self]
    exact Nat.one_pos
  · rw [Function.update_of_ne hfs, hfree]
  · rw [hnext]
    exact hpos
  · rw [hnext, ahead_zero hs (Function.update_self ..)]

section
variable {s left : Nat} {t0 : Nat → Option ε}

theorem Closing.ne (h : Closing n home key s t0 t r idx left) : idx ≠ r := by
  rintro rfl
  exact Nat.lt_irrefl _ h.behind

/-- The end of the entries is reached. -/
theorem Closing.probed (h : Closing n home key s t0 t r idx left) (hhome : ∀ x, home x < n)
    (hfree : t idx = none) : Probed n home t :=
  h.hole.closed hhome h.lt h.ne hfree

/-- All entries have been looked at. -/
theorem Closing.free_of_left (h : Closing n home key s t0 t r idx 0) : t idx = none := by
  have hbehind := h.behind
  exact free_of_ahead h.left h.lt (by omega)

/-- An entry at `idx` is not where the way stops. -/
theorem Closing.next (h : Closing n home key s t0 t r idx left) (hy : t idx = some y) :
    dist n s ((idx + 1) % n) = dist n s idx + 1 ∧ dist n r ((idx + 1) % n) = dist n r idx + 1 ∧
      ∃ f < n, t f = none ∧ dist n s idx + 1 ≤ dist n s f := by
  obtain ⟨f, hf, hfree, hle⟩ := h.gap
  have hfn := dist_lt h.start hf
  have hlt : dist n s idx < dist n s f := by
    refine Nat.lt_of_le_of_ne hle fun heq => ?_
    rw [dist_inj h.start h.lt hf heq, hfree] at hy
    cases hy
  have hadd := dist_add h.start h.hole.lt h.lt (Nat.le_of_lt h.behind)
  refine ⟨dist_next h.start h.lt (by omega), dist_next h.hole.lt h.lt (by omega), f, hf, hfree, hlt⟩

/-- An entry that may stay. -/
theorem Closing.skip (h : Closing n home key s t0 t r idx (left + 1)) (hy : t idx = some y)
    (hle : dist n (home y) idx ≤ dist n (home y) r) :
    Closing n home key s t0 t r ((idx + 1) % n) left := by
  obtain ⟨hs, hr, f, hf, hfree, hgap⟩ := h.next hy
  have hbehind := h.behind
  refine ⟨?_, h.moved, h.start, next_lt h.lt, ?_, ⟨f, hf, hfree, hs ▸ hgap⟩, ?_⟩
  · rw [hr]
    exact h.hole.skip h.lt hy hle
  · rw [hs]
    omega
  · have hcard := card_ahead_next (m := dist n s idx - 1) h.start h.lt (by omega) hy
    have hleft := h.left
    rw [hs, Nat.add_sub_cancel, ← Nat.sub_add_cancel (Nat.one_le_of_lt hbehind)]
    omega

/-- One that the hole cuts off. -/
theorem Closing.shift (h : Closing n home key s t0 t r idx (left + 1)) (hy : t idx = some y)
    (hlt : dist n (home y) r < dist n (home y) idx) :
    Closing n home key s t0 (Function.update (Function.update t r (some y)) idx none) idx
      ((idx + 1) % n) left := by
  obtain ⟨hs, hr, f, hf, hfree, hgap⟩ := h.next hy
  have hbehind := h.behind
  have hnext : dist n idx ((idx + 1) % n) = 1 := by
    have hfn := dist_lt h.start hf
    rw [dist_next h.lt h.lt (by rw [dist_self]; omega), dist_self]
  have hother : ∀ j < n, dist n s idx < dist n s j →
      Function.update (Function.update t r (some y)) idx none j = t j := by
    intro j _ hj
    rw [Function.update_of_ne, Function.update_of_ne]
    · rintro rfl
      omega
    · rintro rfl
      omega
  refine ⟨?_, ?_, h.start, next_lt h.lt, ?_, ⟨f, hf, ?_, hs ▸ hgap⟩, ?_⟩
  · rw [hnext]
    exact h.hole.shift h.lt h.ne hy hlt
  · exact h.moved.trans (.shift h.hole.lt h.lt h.ne h.hole.free hy (Nat.le_of_lt hbehind))
  · rw [hs]
    omega
  · rw [hother f hf (by omega), hfree]
  · have hcard := card_ahead_next (m := dist n s idx - 1) h.start h.lt (by omega) hy
    have hleft := h.left
    rw [hs, Nat.add_sub_cancel, ahead_congr hother, ← Nat.sub_add_cancel (Nat.one_le_of_lt hbehind)]
    omega

end

end

end FfiRpc.Probing
