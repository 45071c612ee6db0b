import FfiRpc.Store.Callbacks
import FfiRpc.Store.Temp

/-!
# While some callbacks stay off

`Sane` reads off the records whose callback is off. `Muted off` names the objects instead:
a step may take away the record of one of them, but as long as nothing releases it, its
callback is not switched on again.

`Later off D st st'` says that, outside of `D`, what there was still is, with its entries
and references, and that new entries are for new objects. Then a release takes no more of
it than it would have taken before (`Later.notMem_lost`); and what was made since can be
released again (`Later.free`).
-/
namespace FfiRpc

open State

/-! ## Stores

The set is fixed for a whole call, while records come and go. -/

/-- The callbacks of the live objects `off` are off, and no others. -/
structure Muted (off : Finset Addr) (st : State) : Prop where
  inv : Inv off st.surplus ∅ ∅ st
  stored : Stored st
  live : ∀ p ∈ off, ∃ o, st.heap.lookup p = some o

section
variable {E : Env} {off : Finset Addr} {extra : Addr → Nat} {st st' : State} {p : Addr}

theorem Inv.muted (h : Inv off extra ∅ ∅ st) (hst : Stored st)
    (hlive : ∀ p ∈ off, ∃ o, st.heap.lookup p = some o) : Muted off st :=
  ⟨h.congr_extra fun _ _ hr => h.surplus_eq hr, hst, hlive⟩

theorem Sane.muted (h : Sane st) : Muted st.silent st := by
  refine ⟨h.inv, h.stored, fun p hp => ?_⟩
  obtain ⟨r, hr, -⟩ := mem_silent.1 hp
  exact h.live_of_tracked hr

theorem Muted.sane (h : Muted off st) : Sane st := h.inv.sane h.stored

theorem Muted.loud (h : Muted off st) (hp : p ∉ off) : p ∉ st.silent := by
  intro hs
  obtain ⟨r, hr, -⟩ := mem_silent.1 hs
  exact hp ((h.inv.silent_iff hr).1 hs)

theorem Muted.dead (h : Muted off st) (hp : st.heap.lookup p = none) : p ∉ off := by
  intro hc
  obtain ⟨o, ho⟩ := h.live p hc
  rw [hp] at ho
  cases ho

theorem Muted.surplus_eq (h : Inv off extra ∅ ∅ st) {S : Addr} {k : CStr}
    (hh : st.held S k = some p) : st.surplus p = extra p := by
  obtain ⟨r, -, hr, -⟩ := h.tracked_of_held (Set.notMem_empty p) hh
  exact h.surplus_eq hr

/-- What goes with `x` when it is released. -/
abbrev State.lost (st : State) (off : Finset Addr) (x : Addr) : Set Addr :=
  st.reclaimed (raised off st.surplus) {x} ∅

/-- An object whose callback is off goes only when it is released itself. -/
theorem notMem_lost {x : Addr} (hp : p ∈ off) (hx : p ≠ x) : p ∉ st.lost off x := by
  intro hc
  cases hc with
  | root hroot => exact hx hroot
  | orphan hpin _ _ => exact hpin (raised_pos.2 (.inl hp))

/-- What hangs on something that stays, stays. -/
theorem hangs_notMem_lost {x a : Addr} (hx : ∀ S k, st.held S k ≠ some x) (hp : p ∉ st.lost off x)
    (ha : st.Hangs p a) : a ∉ st.lost off x := by
  induction ha with
  | refl => exact hp
  | tail _ hlink ih =>
    obtain ⟨k, hk⟩ := hlink
    intro hc
    cases hc with
    | root hroot => exact hx _ k (hk.trans (congrArg some hroot))
    | orphan _ _ hall => exact ih (hall (_, k) hk (Set.notMem_empty _))

/-- A struct whose callback is on is freed, and takes with it what `State.lost` says. -/
theorem Muted.free (h : Muted off st) (E : Env) {x : Addr} {s : RpcStruct} (hs : st.struct? x = some s)
    (hx : x ∉ off) :
    ∃ st', rpcStructFree E st x = .ok st' ∧ Muted off st' ∧
      Outcome (st.lost off x) {e | st.heldAt e = some x} st st' ∧ Inv off st.surplus ∅ ∅ st' := by
  obtain ⟨st', hok, hinv, hout⟩ := free_spec E h.inv (struct?_eq_some.1 hs) hx
  refine ⟨st', hok, hinv.muted (h.stored.outcome hout) fun p hp => ?_, hout, hinv⟩
  obtain ⟨o, ho⟩ := h.live p hp
  obtain ⟨o', ho', -⟩ := hout.stay p o (notMem_lost hp fun hc => hx (hc ▸ hp)) ho
  exact ⟨o', ho'⟩

end

/-! ## Steps

What a call does after it has got its reply, each step in a form that can be chained. -/

theorem Keeps.entry {D : Set Addr} {st st' : State} (h : Keeps D st st') {S : Addr} (hS : S ∉ D)
    {o : Obj} (ho : st.heap.lookup S = some o) (k : CStr) : st'.entry S k = st.entry S k := by
  obtain ⟨o', ho', hl⟩ := h S o hS ho
  exact hl.entry ho ho' k

theorem Keeps.shrink {D D' : Set Addr} {st st' : State} (h : Keeps D st st')
    (hD : ∀ a ∈ D, a ∈ D' ∨ st.heap.lookup a = none) : Keeps D' st st' := by
  intro a o ha ho
  refine h a o (fun hc => ?_) ho
  rcases hD a hc with hin | hdead
  · exact ha hin
  · rw [hdead] at ho
    cases ho

/-- What there was still is, with its entries outside of `D`; references only come, and new ones
are to what is new. -/
structure Later (off : Finset Addr) (D : Set Addr) (st st' : State) : Prop where
  muted : Muted off st'
  kept : Keeps D st st'
  live : ∀ a o, st.heap.lookup a = some o → ∃ o', st'.heap.lookup a = some o' ∧ o'.type = o.type
  more : ∀ S k p, st.held S k = some p → st'.held S k = some p ∧ st.surplus p ≤ st'.surplus p
  new : ∀ S k p, st'.held S k = some p → st.held S k = some p ∨ st.heap.lookup p = none

section
variable {E : Env} {off : Finset Addr} {D D' : Set Addr} {st st' st'' : State} {S x : Addr}

theorem Later.refl (h : Muted off st) (D : Set Addr) : Later off D st st :=
  ⟨h, .refl D st, fun _ o ho => ⟨o, ho, rfl⟩, fun _ _ _ hh => ⟨hh, Nat.le_refl _⟩,
    fun _ _ _ hh => .inl hh⟩

theorem Later.dead (h : Later off D st st') {a : Addr} (ha : st'.heap.lookup a = none) :
    st.heap.lookup a = none := by
  cases ho : st.heap.lookup a with
  | none => rfl
  | some o =>
    obtain ⟨o', ho', -⟩ := h.live a o ho
    rw [ha] at ho'
    cases ho'

theorem Later.trans (h : Later off D st st') (h' : Later off D st' st'') : Later off D st st'' := by
  refine ⟨h'.muted, h.kept.trans h'.kept, fun a o ho => ?_, fun S k p hh => ?_, fun S k p hh => ?_⟩
  · obtain ⟨o', ho', hty⟩ := h.live a o ho
    obtain ⟨o'', ho'', hty'⟩ := h'.live a o' ho'
    exact ⟨o'', ho'', hty'.trans hty⟩
  · obtain ⟨hh', hle⟩ := h.more S k p hh
    obtain ⟨hh'', hle'⟩ := h'.more S k p hh'
    exact ⟨hh'', hle.trans hle'⟩
  · rcases h'.new S k p hh with hh' | hdead
    · exact h.new S k p hh'
    · exact .inr (h.dead hdead)

theorem Later.shrink (h : Later off D st st') (hD : ∀ a ∈ D, a ∈ D' ∨ st.heap.lookup a = none) :
    Later off D' st st' := ⟨h.muted, h.kept.shrink hD, h.live, h.more, h.new⟩

theorem Later.mono (h : Later off D st st') (hD : D ⊆ D') : Later off D' st st' :=
  h.shrink fun _ ha => .inl (hD ha)

theorem Later.struct (h : Later off D st st') {s : RpcStruct} (hs : st.struct? S = some s) :
    ∃ s', st'.struct? S = some s' := by
  obtain ⟨o', ho', hty⟩ := h.live S _ (struct?_eq_some.1 hs)
  cases o' with
  | struct s' => exact ⟨s', struct?_eq_some.2 ho'⟩
  | sizedbuf b => cases hty
  | function f => cases hty

/-- Something is made. -/
theorem Later.create (h : Later off D st st') (E : Env) {o : Obj}
    (ho : ∀ s, o = .struct s → s.ID.length = 65 ∧ s.map = ∅) :
    Later off D st (st'.setObj (E.malloc st') o) := by
  obtain ⟨hstored, hinv⟩ := create_step E h.muted.inv h.muted.stored ho
  have hheap : ∀ a x, st'.heap.lookup a = some x → (st'.setObj (E.malloc st') o).heap.lookup a = some x :=
    fun a x hx => (heap_create ⟨x, hx⟩).trans hx
  have hheld : ∀ S k, (st'.setObj (E.malloc st') o).held S k = st'.held S k :=
    fun S k => held_create E (fun s hs => (ho s hs).2) S k
  refine ⟨hinv.muted hstored fun p hp => ?_, fun a x ha hx => ?_, fun a x hx => ?_,
    fun S k p hh => ?_, fun S k p hh => ?_⟩
  · obtain ⟨x, hx⟩ := h.muted.live p hp
    exact ⟨x, hheap p x hx⟩
  · obtain ⟨x', hx', hl⟩ := h.kept a x ha hx
    exact ⟨x', hheap a x' hx', hl⟩
  · obtain ⟨x', hx', hty⟩ := h.live a x hx
    exact ⟨x', hheap a x' hx', hty⟩
  · obtain ⟨hh', hle⟩ := h.more S k p hh
    refine ⟨(hheld S k).trans hh', hle.trans (Nat.le_of_eq ?_)⟩
    rw [Muted.surplus_eq hinv ((hheld S k).trans hh')]
  · exact h.new S k p ((hheld S k).symm.trans hh)

/-- An entry is made, for something new. -/
theorem Later.set (h : Later off D st st') (hst : Muted off st) (hS : S ∈ D) {s : RpcStruct}
    (hs : st'.struct? S = some s) {k : CStr} {e : RpcTypeT} (hsz : e.Sized)
    (htgt : ∀ p, e.target = some p → p ≠ 0 →
      st.heap.lookup p = none ∧ ∃ o, st'.heap.lookup p = some o ∧ o.type = e.type)
    (hok : Prod.fst <$> rpcStructSetInternal E st' S k e = .ok st'') : Later off D st st'' := by
  by_cases hnn : rpcIsPointer e.type = true → e.ptrValue ≠ 0
  · cases hk : s.map.lookup k with
    | some e' =>
      simp only [rpcStructSetInternal, hs, hk] at hok
      split at hok <;> cases hok <;> exact h
    | none =>
      rw [setInternal_fresh hs hk hnn] at hok
      cases hok
      have hnew : ∀ p, e.target = some p →
          st.heap.lookup p = none ∧ ∃ o, st'.heap.lookup p = some o ∧ o.type = e.type := by
        intro p hp
        obtain ⟨hptr, hval⟩ := rpcIsPointer_of_target hp
        exact htgt p hp (hval ▸ hnn hptr)
      have hinv := set_spec (E := E) h.muted.inv hs hk (fun p hp => (hnew p hp).2)
        (fun p hp => surplus_untracked hp) fun p hp ht => absurd hp (hst.dead (hnew p ht).1)
      have hstored := @stored_strdup E _ _ h.muted.stored S s hs k e st' rfl (heap_trackElement S k e)
        hsz hnn
      have hs' : (trackElement st' S k e).struct? S = some s :=
        (struct?_congr (by rw [heap_trackElement])).trans hs
      have hheap : ∀ a o, st'.heap.lookup a = some o → ∃ o', ((trackElement st' S k e).setObj S
          (.struct { s with map := s.map.insert k (strdupElement E st' e) })).heap.lookup a = some o' ∧
          o'.type = o.type :=
        fun a o ho => lookup_setObj_type _ hs' (by rw [heap_trackElement]; exact ho)
      have hheld := held_insert hs (heap_trackElement S k e) k (strdupElement E st' e)
      refine ⟨hinv.muted hstored fun p hp => ?_, fun a o ha ho => ?_, fun a o ho => ?_,
        fun S' k' p hh => ?_, fun S' k' p hh => ?_⟩
      · obtain ⟨o, ho⟩ := h.muted.live p hp
        obtain ⟨o', ho', -⟩ := hheap p o ho
        exact ⟨o', ho'⟩
      · obtain ⟨o', ho', hl⟩ := h.kept a o ha ho
        refine ⟨o', ?_, hl⟩
        rw [lookup_setObj, if_neg, heap_trackElement, ho']
        intro hc
        exact ha (hc ▸ hS)
      · obtain ⟨o', ho', hty⟩ := h.live a o ho
        obtain ⟨o'', ho'', hty'⟩ := hheap a o' ho'
        exact ⟨o'', ho'', hty'.trans hty⟩
      · obtain ⟨hh', hle⟩ := h.more S' k' p hh
        have hh'' := (hheld S' k').trans ((if_neg fun hc => by
          rw [hc.1, hc.2, State.held, entry_of_struct hs, hk] at hh'
          cases hh').trans hh')
        exact ⟨hh'', hle.trans (Nat.le_of_eq (Muted.surplus_eq hinv hh'').symm)⟩
      · rw [hheld] at hh
        split at hh
        · rw [target_strdupElement] at hh
          exact .inr (hnew p hh).1
        · exact h.new S' k' p hh
  · rw [Classical.not_imp, not_not] at hnn
    simp only [rpcStructSetInternal, hs, hnn.1, hnn.2, beq_self_eq_true, Bool.and_self, if_true] at hok
    cases hok
    exact h

/-- A function is changed. -/
theorem Later.function (h : Later off D st st') {f : Addr} (hf : f ∈ D) {g : RpcFunction → RpcFunction}
    (hok : onFunction st' f g = .ok st'') : Later off D st st'' := by
  cases ho : st'.heap.lookup f with
  | none => simp only [onFunction, ho, reduceCtorEq] at hok
  | some o =>
    cases o with
    | struct s => simp only [onFunction, ho, reduceCtorEq] at hok
    | sizedbuf b => simp only [onFunction, ho, reduceCtorEq] at hok
    | function fn =>
      obtain ⟨st1, hok1, hstored, hinv⟩ := function_step h.muted.inv h.muted.stored ho g
      rw [hok] at hok1
      cases hok1
      simp only [onFunction, ho, Except.ok.injEq] at hok
      subst hok
      have hother : ∀ a, a ≠ f →
          (st'.setObj f (.function (g fn))).heap.lookup a = st'.heap.lookup a :=
        fun a ha => (lookup_setObj ..).trans (if_neg ha)
      have hlive : ∀ a o, st'.heap.lookup a = some o → ∃ o',
          (st'.setObj f (.function (g fn))).heap.lookup a = some o' ∧ o'.type = o.type := by
        intro a o hao
        by_cases ha : a = f
        · rw [ha, ho] at hao
          cases hao
          exact ⟨_, (lookup_setObj ..).trans (if_pos ha), rfl⟩
        · exact ⟨o, (hother a ha).trans hao, rfl⟩
      have hheld : ∀ S k, (st'.setObj f (.function (g fn))).held S k = st'.held S k := by
        intro S k
        by_cases hS : S = f
        · rw [hS]
          simp [held, entry, struct?, lookup_setObj, ho]
        · exact held_congr (hother S hS) k
      refine ⟨hinv.muted hstored fun p hp => ?_, fun a o ha hao => ?_, fun a o hao => ?_,
        fun S k p hh => ?_, fun S k p hh => h.new S k p ((hheld S k).symm.trans hh)⟩
      · obtain ⟨o, hpo⟩ := h.muted.live p hp
        obtain ⟨o', ho', -⟩ := hlive p o hpo
        exact ⟨o', ho'⟩
      · obtain ⟨o', ho', hl⟩ := h.kept a o ha hao
        exact ⟨o', (hother a fun hc => ha (hc ▸ hf)).trans ho', hl⟩
      · obtain ⟨o', ho', hty⟩ := h.live a o hao
        obtain ⟨o'', ho'', hty'⟩ := hlive a o' ho'
        exact ⟨o'', ho'', hty'.trans hty⟩
      · obtain ⟨hh', hle⟩ := h.more S k p hh
        have hh'' := (hheld S k).trans hh'
        exact ⟨hh'', hle.trans (Nat.le_of_eq (Muted.surplus_eq hinv hh'').symm)⟩

/-- A later release takes nothing with it, of what there was, that it would not have taken
before. -/
theorem Later.notMem_lost (h : Later off D st st') {a : Addr} (ho : ∃ o, st.heap.lookup a = some o)
    (ha : a ∉ st.lost off x) : a ∉ st'.lost off x := by
  intro hc
  have hnew : ∀ b ∈ st'.lost off x, b ∈ st.lost off x ∨ st.heap.lookup b = none := by
    intro b hb
    refine Ownership.reclaimed_subset (X := {b | b ∈ st.lost off x ∨ st.heap.lookup b = none}) ?_
      (Set.singleton_subset_iff.2 (.inl (.root rfl))) hb
    intro b e hpin he hall
    rcases h.new e.1 e.2 b he with hold | hdead
    · refine .inl (.orphan (e := e) (fun hc => hpin (raised_pos.2 ?_)) hold fun e' he' _ => ?_)
      · rcases raised_pos.1 hc with hmem | hpos
        · exact .inl hmem
        · exact .inr (Nat.lt_of_lt_of_le hpos (h.more e.1 e.2 b hold).2)
      · refine (hall e' (h.more e'.1 e'.2 b he').1 (Set.notMem_empty e')).resolve_right fun hdead => ?_
        obtain ⟨o', ho'⟩ := live_of_held (show st.held e'.1 e'.2 = some b from he')
        rw [hdead] at ho'
        cases ho'
    · exact .inr hdead
  obtain ⟨o, ho⟩ := ho
  rcases hnew a hc with hmem | hdead
  · exact ha hmem
  · rw [hdead] at ho
    cases ho

/-- What was made since is released. -/
theorem Later.free (h : Later off ∅ st st') (hst : Muted off st) (hx : st.heap.lookup x = none)
    {s : RpcStruct} (hs : st'.struct? x = some s) (hok : rpcStructFree E st' x = .ok st'') :
    Later off ∅ st st'' := by
  obtain ⟨st1, hok1, hmuted, hout, hinv⟩ := h.muted.free E hs (hst.dead hx)
  rw [hok] at hok1
  cases hok1
  -- only what is new can go
  have hlost : ∀ a ∈ st'.lost off x, st.heap.lookup a = none := by
    intro a ha
    refine Ownership.reclaimed_subset (X := {a | st.heap.lookup a = none}) ?_
      (Set.singleton_subset_iff.2 hx) ha
    intro a e _ he hall
    have hdead : st.heap.lookup e.1 = none := hall e he (Set.notMem_empty e)
    rcases h.new e.1 e.2 a he with hh | hdead'
    · obtain ⟨o, ho⟩ := live_of_held hh
      rw [hdead] at ho
      cases ho
    · exact hdead'
  have hstay : ∀ a o, st.heap.lookup a = some o → ∀ o', st'.heap.lookup a = some o' →
      ∃ o'', st''.heap.lookup a = some o'' ∧ o'.Less (fun _ => False) o'' := by
    intro a o ho o' ho'
    obtain ⟨o'', ho'', hl⟩ := hout.stay a o' (fun hc => by rw [hlost a hc] at ho; cases ho) ho'
    have hP : (fun k => (a, k) ∈ {e : Addr × CStr | st'.heldAt e = some x}) = fun _ => False := by
      funext k
      refine eq_false fun hc => ?_
      have hh : st'.held a k = some x := hc
      rw [State.held, h.kept.entry (Set.notMem_empty a) ho] at hh
      obtain ⟨o1, ho1⟩ := hst.inv.held_live (show st.held a k = some x from hh)
      rw [hx] at ho1
      cases ho1
    rw [hP] at hl
    exact ⟨o'', ho'', hl⟩
  refine ⟨hmuted, fun a o ha ho => ?_, fun a o ho => ?_, fun S k p hh => ?_, fun S k p hh => ?_⟩
  · obtain ⟨o', ho', hl⟩ := h.kept a o ha ho
    obtain ⟨o'', ho'', hl'⟩ := hstay a o ho o' ho'
    exact ⟨o'', ho'', hl.trans_same hl'⟩
  · obtain ⟨o', ho', hty⟩ := h.live a o ho
    obtain ⟨o'', ho'', hl⟩ := hstay a o ho o' ho'
    exact ⟨o'', ho'', hl.type.trans hty⟩
  · obtain ⟨hh', hle⟩ := h.more S k p hh
    obtain ⟨o, ho⟩ := live_of_held hh
    obtain ⟨o', ho'⟩ := live_of_held hh'
    obtain ⟨o'', ho'', hl⟩ := hstay S o ho o' ho'
    have hh'' : st''.held S k = some p := by
      rw [State.held, hl.entry ho' ho'']
      exact hh'
    exact ⟨hh'', hle.trans (Nat.le_of_eq (Muted.surplus_eq hinv hh'').symm)⟩
  · refine h.new S k p ?_
    obtain ⟨e, he, ht⟩ := held_eq_some.1 hh
    exact held_eq_some.2 ⟨e, hout.fewer he, ht⟩

end

end FfiRpc
