import FfiRpc.Core.LTS
import FfiRpc.Containers.Queue

/-!
# The queue is a list

`queue_refines`: in every run, whichever allocations fail, the queue returns what a list returns
that is added to at both ends, where the additions that `sc_queue_oom` reports leave it as it
is. As long as the allocations succeed, and there are fewer than 2^63 - 1 elements, there is no
such addition (`queue_accepts`). A queue that could not grow and then loses an element takes no
element any more (`queue_refuses`).
-/
namespace FfiRpc.ScQueue

open Circular

section
variable {α : Type} {q : ScQueue α} {l : List α} {x : α} {calloc : Bool}

/-- The queue holds the list. -/
structure Holds (q : ScQueue α) (l : List α) : Prop where
  pow : ∃ k, k < 64 ∧ q.cap = 2 ^ k
  three : 8 ≤ q.cap
  length : q.elems.length = q.cap
  first : q.first < q.cap
  last : q.last < q.cap
  size : dist q.cap q.first q.last = l.length
  get : ∀ i < l.length, q.elems[(q.first + i) % q.cap]? = l[i]?

/-- The sizes are powers of two: masking is the remainder. -/
theorem Holds.mask (h : q.Holds l) (i : Nat) : q.mask i = i % q.cap := by
  obtain ⟨k, hk, hcap⟩ := h.pow
  rw [ScQueue.mask, hcap, show 2 ^ 64 - 1 + 2 ^ k = 2 ^ k + 2 ^ 64 - 1 by omega, Circular.mask hk]

theorem Holds.next (h : q.Holds l) (i : Nat) : q.next i = (i + 1) % q.cap := by
  obtain ⟨k, hk, hcap⟩ := h.pow
  rw [ScQueue.next, h.mask, hcap, mod_word hk]

theorem Holds.prev (h : q.Holds l) {i : Nat} : q.prev i = (i + q.cap - 1) % q.cap := by
  obtain ⟨k, hk, hcap⟩ := h.pow
  have := h.three
  rw [ScQueue.prev, h.mask, hcap, show 2 ^ 64 - 1 + i = i + 2 ^ 64 - 1 by omega,
    mask_sub hk (by omega)]

theorem Holds.size_eq (h : q.Holds l) : q.size = l.length := by
  obtain ⟨k, hk, hcap⟩ := h.pow
  rw [← h.size, ScQueue.size, h.mask, dist_mod h.first h.last, hcap, mask_sub hk (hcap ▸ h.first)]

theorem Holds.length_lt (h : q.Holds l) : l.length < q.cap :=
  h.size ▸ dist_lt h.first h.last

/-- The ring is about to be full. -/
theorem Holds.full_iff (h : q.Holds l) : q.next q.last = q.first ↔ l.length + 1 = q.cap := by
  have hlt := h.length_lt
  rw [h.next]
  constructor
  · intro hfull
    by_contra hc
    have hnext := dist_next h.first h.last (by rw [h.size]; omega)
    rw [hfull, dist_self] at hnext
    omega
  · intro hfull
    have hadd := add_dist h.first h.last
    rw [h.size] at hadd
    rw [← hadd, Nat.mod_add_mod, Nat.add_assoc, hfull, Nat.add_mod_right, Nat.mod_eq_of_lt h.first]

theorem Holds.congr_oom (h : q.Holds l) (b : Bool) : ({ q with oom := b } : ScQueue α).Holds l :=
  ⟨h.pow, h.three, h.length, h.first, h.last, h.size, h.get⟩

/-- A free slot behind the last element is filled. -/
theorem Holds.push_back (h : q.Holds l) (hroom : l.length + 1 < q.cap) (x : α) (b : Bool) :
    ({ q with oom := b, elems := q.elems.set q.last x, last := q.next q.last } : ScQueue α).Holds
      (l ++ [x]) := by
  have hlast := add_dist h.first h.last
  rw [h.size] at hlast
  refine ⟨h.pow, h.three, (List.length_set ..).trans h.length, h.first, ?_, ?_, fun i hi => ?_⟩
  · exact h.next q.last ▸ next_lt h.last
  · rw [List.length_append, List.length_singleton]
    simp only
    rw [h.next, dist_next h.first h.last (by rw [h.size]; omega), h.size]
  · rw [List.length_append, List.length_singleton] at hi
    rcases Nat.lt_or_eq_of_le (Nat.le_of_lt_succ hi) with hlt | rfl
    · have hne : q.last ≠ (q.first + i) % q.cap := by
        intro hc
        have := dist_add_mod h.first (show i < q.cap by omega)
        rw [← hc, h.size] at this
        omega
      rw [List.getElem?_append_left hlt, ← h.get i hlt]
      exact List.getElem?_set_ne hne
    · simp only
      rw [hlast, List.getElem?_set_self (h.length ▸ h.last)]
      simp

/-- And one before the first, around the beginning of the ring if need be. -/
theorem Holds.push_front (h : q.Holds l) (hroom : l.length + 1 < q.cap) (x : α) (b : Bool) :
    ({ q with oom := b, first := q.prev q.first, elems := q.elems.set (q.prev q.first) x } :
      ScQueue α).Holds (x :: l) := by
  have hpos := h.three
  have hprev : q.prev q.first < q.cap := by
    rw [h.prev]
    exact Nat.mod_lt _ (by omega)
  have hnext : (q.prev q.first + 1) % q.cap = q.first := by
    rw [h.prev, prev_next h.first]
  have hlast := add_dist h.first h.last
  rw [h.size] at hlast
  -- how far the old places are from the new one
  have hplace : ∀ i, (q.prev q.first + (i + 1)) % q.cap = (q.first + i) % q.cap := by
    intro i
    rw [show q.prev q.first + (i + 1) = q.prev q.first + 1 + i by omega, ← Nat.mod_add_mod, hnext]
  refine ⟨h.pow, h.three, (List.length_set ..).trans h.length, hprev, h.last, ?_, fun i hi => ?_⟩
  · simp only
    rw [List.length_cons, ← hlast, ← hplace, dist_add_mod hprev hroom]
  · simp only
    cases i with
    | zero =>
      rw [Nat.add_zero, Nat.mod_eq_of_lt hprev, List.getElem?_set_self (h.length ▸ hprev)]
      rfl
    | succ i =>
      rw [List.length_cons] at hi
      have hne : q.prev q.first ≠ (q.prev q.first + (i + 1)) % q.cap := by
        intro hc
        have := dist_add_mod hprev (show i + 1 < q.cap by omega)
        rw [← hc, dist_self] at this
        omega
      rw [List.getElem?_set_ne hne, hplace, h.get i (by omega), List.getElem?_cons_succ]

/-- Where the last element is. -/
theorem Holds.last_eq (h : q.Holds (l ++ [x])) :
    (q.last + q.cap - 1) % q.cap = (q.first + l.length) % q.cap ∧
      dist q.cap q.first ((q.last + q.cap - 1) % q.cap) = l.length := by
  have hsize := h.size
  have hthree := h.three
  rw [List.length_append, List.length_singleton] at hsize
  have hne : q.last ≠ q.first := by
    intro hc
    rw [hc, dist_self] at hsize
    omega
  have hdist : dist q.cap q.first ((q.last + q.cap - 1) % q.cap) = l.length := by
    have := dist_prev h.first h.last hne
    omega
  refine ⟨?_, hdist⟩
  rw [← hdist, add_dist h.first (Nat.mod_lt _ (by omega))]

theorem Holds.pop_back (h : q.Holds (l ++ [x])) :
    ({ q with last := (q.last + q.cap - 1) % q.cap } : ScQueue α).Holds l := by
  have hthree := h.three
  refine ⟨h.pow, h.three, h.length, h.first, Nat.mod_lt _ (by omega), h.last_eq.2, fun i hi => ?_⟩
  have hget := h.get i (by rw [List.length_append]; omega)
  rw [List.getElem?_append_left hi] at hget
  exact hget

variable [Inhabited α]

theorem holds_init : (init : ScQueue α).Holds [] :=
  ⟨⟨3, by omega, rfl⟩, Nat.le_refl 8, rfl, Nat.zero_lt_succ 7, Nat.zero_lt_succ 7, rfl,
    fun i hi => absurd hi (Nat.not_lt_zero i)⟩

/-! ## Growing -/

/-- What `sc_queue_expand` does: nothing while there is room, and otherwise the elements move
to a ring of twice the size, or `oom` is set. -/
theorem Holds.expand (h : q.Holds l) (calloc : Bool) :
    (q.expand calloc).Holds l ∧
      ((q.expand calloc).oom = false → l.length + 1 < (q.expand calloc).cap) ∧
      (l.length + 1 < q.cap → q.expand calloc = q) ∧
      (calloc = true → l.length < 2 ^ 63 - 1 → q.oom = false → (q.expand calloc).oom = false) := by
  have hlt := h.length_lt
  by_cases hfull : q.next q.last = q.first
  · have hlen := h.full_iff.1 hfull
    unfold ScQueue.expand
    rw [if_pos hfull]
    split
    · rename_i hfail
      refine ⟨h.congr_oom true, fun hc => Bool.noConfusion hc, fun hc => by omega,
        fun hcalloc hsmall _ => ?_⟩
      rcases hfail with hbig | hcalloc'
      · omega
      · rw [hcalloc] at hcalloc'
        cases hcalloc'
    · rename_i hok
      rw [not_or] at hok
      have hthree := h.three
      obtain ⟨k, hk, hcap⟩ := h.pow
      have hk63 : k < 63 := by
        by_contra hc
        have : 2 ^ 63 ≤ 2 ^ k := Nat.pow_le_pow_right (by omega) (by omega)
        omega
      refine ⟨⟨⟨k + 1, by omega, ?_⟩, ?_, ?_, ?_, ?_, ?_, fun i hi => ?_⟩, fun _ => ?_, fun hc => by omega,
        fun _ _ _ => rfl⟩
      · simp only
        rw [hcap, pow_succ]
      · simp only
        omega
      · have hfirst := h.first
        have hlength := h.length
        simp only [List.length_append, List.length_drop, List.length_take, List.length_replicate]
        omega
      · simp only
        omega
      · simp only
        omega
      · simp only [Circular.dist]
        rw [if_pos (Nat.zero_le _)]
        omega
      · have hrot : q.elems.drop q.first ++ q.elems.take q.first = q.elems.rotate q.first :=
          (List.rotate_eq_drop_append_take (h.length ▸ Nat.le_of_lt h.first)).symm
        have hi' : i < (q.elems.rotate q.first).length := by
          rw [List.length_rotate, h.length]
          omega
        simp only
        rw [Nat.zero_add, Nat.mod_eq_of_lt (by omega), hrot, List.getElem?_append_left hi',
          List.getElem?_rotate (by rw [h.length]; omega), h.length, Nat.add_comm, h.get i hi]
      · simp only
        omega
  · have hroom : l.length + 1 < q.cap := by
      have := mt h.full_iff.2 hfull
      omega
    unfold ScQueue.expand
    rw [if_neg hfull]
    exact ⟨h, fun _ => hroom, fun _ => rfl, fun _ _ hoom => hoom⟩

/-! ## The four ends

Each call is `sc_queue_expand` and then one write or one read. An addition is dropped when
`oom` is set, whether this call has set it or an earlier one. -/

theorem Holds.elem_eq (h : q.Holds l) {i : Nat} (hi : i < l.length) :
    q.elem ((q.first + i) % q.cap) = l[i] := by
  rw [elem, List.getD_eq_getElem?_getD, h.get i hi, List.getElem?_eq_getElem hi]
  rfl

/-- Added at the end, or dropped. -/
theorem Holds.addLast (h : q.Holds l) (x : α) (calloc : Bool) :
    (q.addLast x calloc).Holds (if (q.addLast x calloc).oom then l else l ++ [x]) ∧
      (q.addLast x calloc).oom = (q.expand calloc).oom := by
  obtain ⟨hheld, hroom, -⟩ := h.expand calloc
  unfold ScQueue.addLast
  cases hoom : (q.expand calloc).oom with
  | true =>
    simp only [hoom, if_true]
    exact ⟨hheld, trivial⟩
  | false =>
    have hfalse : (q.expand calloc).oom = false := hoom
    simp only [hoom, Bool.false_eq_true, if_false]
    exact ⟨hheld.push_back (hroom hfalse) x false, trivial⟩

theorem Holds.addFirst (h : q.Holds l) (x : α) (calloc : Bool) :
    (q.addFirst x calloc).Holds (if (q.addFirst x calloc).oom then l else x :: l) ∧
      (q.addFirst x calloc).oom = (q.expand calloc).oom := by
  obtain ⟨hheld, hroom, -⟩ := h.expand calloc
  unfold ScQueue.addFirst
  cases hoom : (q.expand calloc).oom with
  | true =>
    simp only [hoom, if_true]
    exact ⟨hheld, trivial⟩
  | false =>
    have hfalse : (q.expand calloc).oom = false := hoom
    simp only [hoom, Bool.false_eq_true, if_false]
    exact ⟨hheld.push_front (hroom hfalse) x false, trivial⟩

/-- Taken from the front. -/
theorem Holds.delFirst {x : α} {l : List α} (h : q.Holds (x :: l)) :
    q.delFirst.1 = x ∧ q.delFirst.2.Holds l := by
  have hzero := h.elem_eq (i := 0) (by simp)
  rw [Nat.add_zero, Nat.mod_eq_of_lt h.first] at hzero
  have hne : q.last ≠ q.first := by
    intro hc
    have := h.size
    rw [hc, dist_self, List.length_cons] at this
    omega
  have hdist := dist_succ h.first h.last hne
  have hsize := h.size
  rw [List.length_cons] at hsize
  refine ⟨hzero, h.pow, h.three, h.length, ?_, h.last, ?_, fun i hi => ?_⟩
  · simp only [ScQueue.delFirst]
    rw [h.next]
    exact next_lt h.first
  · simp only [ScQueue.delFirst]
    rw [h.next]
    omega
  · simp only [ScQueue.delFirst]
    rw [h.next, Nat.mod_add_mod, show q.first + 1 + i = q.first + (i + 1) by omega,
      h.get (i + 1) (by rw [List.length_cons]; omega), List.getElem?_cons_succ]

theorem Holds.delLast {x : α} {l : List α} (h : q.Holds (l ++ [x])) :
    q.delLast.1 = x ∧ q.delLast.2.Holds l := by
  have hdel : q.delLast = (q.elem (q.prev q.last), { q with last := q.prev q.last }) := by
    simp only [ScQueue.delLast, elem]
  have helem := h.elem_eq (i := l.length) (by simp)
  rw [← h.last_eq.1] at helem
  rw [hdel, h.prev, helem]
  exact ⟨by simp, h.pop_back⟩

theorem Holds.at_eq (h : q.Holds l) {i : Nat} (hi : i < l.length) : q.at_ i = l[i] := by
  obtain ⟨k, hk, hcap⟩ := h.pow
  rw [ScQueue.at_, h.mask, hcap, mod_word hk, ← hcap, h.elem_eq hi]

theorem Holds.peekFirst {x : α} {l : List α} (h : q.Holds (x :: l)) : q.peekFirst = x :=
  h.delFirst.1

theorem Holds.peekLast {x : α} {l : List α} (h : q.Holds (l ++ [x])) : q.peekLast = x := by
  have helem := h.elem_eq (i := l.length) (by simp)
  rw [ScQueue.peekLast, h.prev, h.last_eq.1, helem]
  simp

/-! ## Runs

The list beside the queue is told which additions were reported, and nothing else. -/

/-- What the calls do to the list; `oom` is whether an addition was reported. -/
def specStep (l : List α) (oom : Bool) : Op α → Ret α × List α
  | .addLast x _ => (.oom oom, if oom then l else l ++ [x])
  | .addFirst x _ => (.oom oom, if oom then l else x :: l)
  | .delLast => (.elem (l.getLastD default), l.dropLast)
  | .delFirst => (.elem (l.headD default), l.tail)
  | .peekFirst => (.elem (l.headD default), l)
  | .peekLast => (.elem (l.getLastD default), l)
  | .at_ i => (.elem (l.getD i default), l)
  | .size => (.size l.length, l)

/-- The calls that have a result. -/
def allowed (l : List α) : Op α → Prop
  | .delLast | .delFirst | .peekFirst | .peekLast => l ≠ []
  | .at_ i => i < l.length
  | _ => True

/-- One call. -/
theorem step_refines (h : q.Holds l) {op : Op α} (hallowed : allowed l op) :
    (q.step op).1 = (specStep l (q.step op).2.oom op).1 ∧
      (q.step op).2.Holds (specStep l (q.step op).2.oom op).2 := by
  cases op with
  | addLast x calloc => exact ⟨rfl, (h.addLast x calloc).1⟩
  | addFirst x calloc => exact ⟨rfl, (h.addFirst x calloc).1⟩
  | delLast =>
    obtain ⟨l, x, rfl⟩ := (List.eq_nil_or_concat' _).resolve_left hallowed
    obtain ⟨hret, hheld⟩ := h.delLast
    exact ⟨by simp [step, specStep, hret], by simpa [step, specStep] using hheld⟩
  | delFirst =>
    obtain ⟨x, l, rfl⟩ := List.exists_cons_of_ne_nil hallowed
    obtain ⟨hret, hheld⟩ := h.delFirst
    exact ⟨by simp [step, specStep, hret], hheld⟩
  | peekFirst =>
    obtain ⟨x, l, rfl⟩ := List.exists_cons_of_ne_nil hallowed
    exact ⟨by simp [step, specStep, h.peekFirst], h⟩
  | peekLast =>
    obtain ⟨l, x, rfl⟩ := (List.eq_nil_or_concat' _).resolve_left hallowed
    exact ⟨by simp [step, specStep, h.peekLast], h⟩
  | at_ i =>
    have hi : i < l.length := hallowed
    exact ⟨by simp [step, specStep, h.at_eq hi, hi], h⟩
  | size => exact ⟨by simp [step, specStep, h.size_eq], h⟩

/-- The queue, beside the list that it is to be. -/
def system : LTS (ScQueue α × List α) (Op α) where
  init s := s = (init, [])
  step s op s' :=
    allowed s.2 op ∧ s' = ((s.1.step op).2, (specStep s.2 (s.1.step op).2.oom op).2)

theorem reachable_holds {s : ScQueue α × List α} (h : system.Reachable s) : s.1.Holds s.2 := by
  refine h.invariant (I := fun s => s.1.Holds s.2) (fun s hs => ?_) fun s op s' hheld hstep => ?_
  · rw [hs]
    exact holds_init
  · rw [hstep.2]
    exact (step_refines hheld hstep.1).2

/-- Whichever allocations fail, the queue holds the list, and every call returns what the list
returns; an addition that is reported leaves the list as it is. -/
theorem queue_refines {s : ScQueue α × List α} (h : system.Reachable s) :
    s.1.Holds s.2 ∧ ∀ op, allowed s.2 op →
      (s.1.step op).1 = (specStep s.2 (s.1.step op).2.oom op).1 :=
  ⟨reachable_holds h, fun _ hallowed => (step_refines (reachable_holds h) hallowed).1⟩

/-- Added at both ends, taken at the end. -/
theorem queue_refines_ends :
    (((init.step (.addLast 1 true)).2.step (.addFirst 2 true)).2.step .delLast).1 = .elem 1 := by
  have hone : system.Reachable ((init.step (.addLast 1 true)).2, [1]) :=
    LTS.Reachable.step (s := (init, [])) (a := Op.addLast 1 true) (.init rfl) ⟨True.intro, rfl⟩
  have htwo : system.Reachable (((init.step (.addLast 1 true)).2.step (.addFirst 2 true)).2, [2, 1]) :=
    LTS.Reachable.step (a := Op.addFirst 2 true) hone ⟨True.intro, rfl⟩
  exact (queue_refines htwo).2 .delLast (List.cons_ne_nil 2 [1])

/-- An allocation the call needs succeeds, and the ring may still double. -/
def granted (s : ScQueue α × List α) : Op α → Prop
  | .addLast _ calloc | .addFirst _ calloc => calloc = true ∧ s.2.length < 2 ^ 63 - 1
  | _ => True

/-- A call that is granted its memory does not set `oom`. -/
theorem step_granted (h : q.Holds l) (hoom : q.oom = false) {op : Op α} (hop : granted (q, l) op) :
    (q.step op).2.oom = false := by
  cases op with
  | addLast x calloc =>
    simp only [granted] at hop
    simp only [step]
    rw [(h.addLast x calloc).2]
    exact (h.expand calloc).2.2.2 hop.1 hop.2 hoom
  | addFirst x calloc =>
    simp only [granted] at hop
    simp only [step]
    rw [(h.addFirst x calloc).2]
    exact (h.expand calloc).2.2.2 hop.1 hop.2 hoom
  | delLast => simp only [step, delLast, hoom]
  | delFirst => simp only [step, delFirst, hoom]
  | peekFirst => exact hoom
  | peekLast => exact hoom
  | at_ i => exact hoom
  | size => exact hoom

theorem reachable_granted {s : ScQueue α × List α} (h : (system.restrict granted).Reachable s) :
    s.1.Holds s.2 ∧ s.1.oom = false := by
  refine h.invariant (I := fun s => s.1.Holds s.2 ∧ s.1.oom = false) (fun s hs => ?_)
    fun s op s' hs hstep => ?_
  · rw [show s = (init, []) from hs]
    exact ⟨holds_init, rfl⟩
  · rw [hstep.1.2]
    exact ⟨(step_refines hs.1 hstep.1.1).2, step_granted hs.1 hs.2 hstep.2⟩

/-- While no allocation fails, nothing is dropped: the queue is the list of all elements added
and not yet taken, from whichever end. -/
theorem queue_accepts {s : ScQueue α × List α} (h : (system.restrict granted).Reachable s) :
    s.1.Holds s.2 ∧ ∀ op, allowed s.2 op → granted s op →
      (s.1.step op).1 = (specStep s.2 false op).1 ∧
        (s.1.step op).2.Holds (specStep s.2 false op).2 := by
  obtain ⟨hheld, hoom⟩ := reachable_granted h
  refine ⟨hheld, fun op hallowed hop => ?_⟩
  have hstep := step_refines hheld hallowed
  rw [step_granted hheld hoom hop] at hstep
  exact hstep

theorem reachable_addLasts (h : (system.restrict granted).Reachable (q, l)) {xs : List α}
    (hlen : l.length + xs.length < 2 ^ 63) :
    (system.restrict granted).Reachable (xs.foldl (fun q x => q.addLast x true) q, l ++ xs) := by
  induction xs generalizing q l with
  | nil => simpa using h
  | cons x xs ih =>
    rw [List.length_cons] at hlen
    obtain ⟨hheld, hoom⟩ := reachable_granted h
    have hop : granted (q, l) (.addLast x true) := ⟨rfl, by simp only; omega⟩
    have hadded : (system.restrict granted).Reachable (q.addLast x true, l ++ [x]) := by
      refine h.step (a := Op.addLast x true) ⟨⟨True.intro, ?_⟩, hop⟩
      simp only [step_granted hheld hoom hop, specStep, Bool.false_eq_true, if_false]
      rfl
    have hrest := ih hadded (by simp only [List.length_append, List.length_singleton]; omega)
    rwa [List.append_assoc] at hrest

theorem reachable_delFirst (h : (system.restrict granted).Reachable (q, x :: l)) :
    (system.restrict granted).Reachable (q.delFirst.2, l) :=
  h.step (a := Op.delFirst) ⟨⟨List.cons_ne_nil x l, rfl⟩, True.intro⟩

/-- Seven elements, two taken, three more: the ring wraps and then grows. -/
theorem queue_accepts_ten : ∃ q : ScQueue Nat, q = [7, 8, 9].foldl (fun q x => q.addLast x true)
      ([0, 1, 2, 3, 4, 5, 6].foldl (fun q x => q.addLast x true) init).delFirst.2.delFirst.2 ∧
    q.cap = 16 ∧ (q.step .size).1 = .size 8 ∧ (q.step .peekLast).1 = .elem 9 ∧
    (q.step .delFirst).1 = .elem 2 := by
  have hseven := @reachable_addLasts Nat _ _ _ (.init rfl) [0, 1, 2, 3, 4, 5, 6] (by simp)
  have hten := @reachable_addLasts Nat _ _ _ (reachable_delFirst (reachable_delFirst hseven)) [7, 8, 9]
    (by simp)
  have haccepts := (queue_accepts hten).2
  exact ⟨_, rfl, rfl, (haccepts .size True.intro True.intro).1,
    (haccepts .peekLast (by simp [allowed]) True.intro).1,
    (haccepts .delFirst (by simp [allowed]) True.intro).1⟩

/-! ## Out of memory

`sc_queue_expand` clears `oom` only when it has grown the ring. Once an element has been
taken there is room, so it need not grow, and the mark stays. -/

/-- A queue that has room but is marked takes no element. -/
theorem refuses_step (h : q.Holds l) (hoom : q.oom = true) (hroom : l.length + 1 < q.cap) {op : Op α}
    (hallowed : allowed l op) :
    (q.step op).2.oom = true ∧ (specStep l true op).2 <:+: l ∧
      (specStep l true op).2.length + 1 < (q.step op).2.cap := by
  have hsame : ∀ calloc, q.expand calloc = q := fun calloc => (h.expand calloc).2.2.1 hroom
  cases op with
  | addLast x calloc =>
    have hadd : q.addLast x calloc = q := by
      rw [ScQueue.addLast, hsame]
      exact if_pos hoom
    simp only [step, hadd, specStep, if_true]
    exact ⟨hoom, List.infix_rfl, hroom⟩
  | addFirst x calloc =>
    have hadd : q.addFirst x calloc = q := by
      rw [ScQueue.addFirst, hsame]
      exact if_pos hoom
    simp only [step, hadd, specStep, if_true]
    exact ⟨hoom, List.infix_rfl, hroom⟩
  | delLast =>
    simp only [specStep, List.length_dropLast, step, delLast]
    exact ⟨hoom, (List.dropLast_prefix l).isInfix, by omega⟩
  | delFirst =>
    simp only [specStep, List.length_tail, step, delFirst]
    exact ⟨hoom, (List.tail_suffix l).isInfix, by omega⟩
  | peekFirst => exact ⟨hoom, List.infix_rfl, hroom⟩
  | peekLast => exact ⟨hoom, List.infix_rfl, hroom⟩
  | at_ i => exact ⟨hoom, List.infix_rfl, hroom⟩
  | size => exact ⟨hoom, List.infix_rfl, hroom⟩

/-- A run of such steps. -/
theorem refuses_run {s s' : ScQueue α × List α} {ops : List (Op α)} (hr : system.Run s ops s')
    (h : s.1.Holds s.2) (hoom : s.1.oom = true) (hroom : s.2.length + 1 < s.1.cap) :
    s'.1.oom = true ∧ s'.2 <:+: s.2 := by
  induction hr with
  | nil => exact ⟨hoom, List.infix_rfl⟩
  | cons hstep _ ih =>
    obtain ⟨hallowed, rfl⟩ := hstep
    obtain ⟨hoom', hinfix, hroom'⟩ := refuses_step h hoom hroom hallowed
    have hheld := (step_refines h hallowed).2
    rw [hoom'] at hheld ih
    obtain ⟨hend, hinfix'⟩ := ih hheld rfl hroom'
    exact ⟨hend, hinfix'.trans hinfix⟩

/-- An addition that the queue had to grow for and could not, then an element taken from it:
from then on no run adds an element again, though there is room and memory. -/
theorem queue_refuses {x y : α} (h : q.Holds (x :: l)) (hfull : l.length + 2 = q.cap)
    {ops : List (Op α)} {s : ScQueue α × List α}
    (hr : system.Run ((q.addLast y false).delFirst.2, l) ops s) : s.1.oom = true ∧ s.2 <:+: l := by
  have hnext : q.next q.last = q.first := h.full_iff.2 hfull
  have hexpand : q.expand false = { q with oom := true } := by
    rw [ScQueue.expand, if_pos hnext, if_pos (Or.inr rfl)]
  have hadd : q.addLast y false = { q with oom := true } := by
    rw [ScQueue.addLast, hexpand]
    exact if_pos rfl
  rw [hadd] at hr
  have hheld := (h.congr_oom true).delFirst.2
  refine refuses_run hr hheld rfl ?_
  simp only [delFirst]
  omega

/-- Seven elements in a ring of eight. -/
theorem queue_refuses_seven :
    (((({ oom := false, cap := 8, first := 0, last := 7, elems := [1, 2, 3, 4, 5, 6, 7, 0] } :
      ScQueue Nat).addLast 8 false).delFirst.2.step (.addLast 9 true)).2.oom = true) := by
  have hheld : ({ oom := false, cap := 8, first := 0, last := 7, elems := [1, 2, 3, 4, 5, 6, 7, 0] } :
      ScQueue Nat).Holds [1, 2, 3, 4, 5, 6, 7] := by
    refine ⟨⟨3, by omega, rfl⟩, Nat.le_refl 8, rfl, by simp, by simp, rfl, fun i hi => ?_⟩
    simp only [List.length_cons, List.length_nil] at hi
    interval_cases i <;> rfl
  exact (queue_refuses (y := 8) hheld rfl (.cons (show system.step (_, [2, 3, 4, 5, 6, 7])
    (Op.addLast 9 true) (_, [2, 3, 4, 5, 6, 7]) from ⟨True.intro, rfl⟩) .nil)).1

end

end FfiRpc.ScQueue
