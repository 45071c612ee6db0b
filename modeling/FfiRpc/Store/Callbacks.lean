import FfiRpc.Store.Graph
import FfiRpc.Store.Shield

/-!
# States with release callbacks off

`call_rpc_closure` switches the release callback of some objects off, in the middle of the
runs that `Runs.lean` is about. `Sane` is `WF` without the promise that all callbacks are
on: the objects whose record has none are those of `State.silent`.

`Lent X p st st'` says what may have happened to `p` while the structs of `X` hold it:
other structs hold it as before, and its record, if it had one, counts them as before.
Once the structs of `X` are gone, the record is what it was (`Lent.back`).
-/
namespace FfiRpc

open State

/-! ## Records

The type of a record stands for its callback, and `none` is the type that has none: a
record with the callback switched off is the record of that type. -/

theorem Record.freeFn {x : Nat} {H : Finset (Addr × CStr)} {t : RpcTypes} {r : Prec}
    (h : Record x H t r) : r.freeFn = rpcFreefnOf t := by
  obtain ⟨c, hc, hfree, -⟩ := h.ctx
  rw [Prec.freeFn, hc, Option.bind_some, hfree]

theorem Record.slots {x : Nat} {H : Finset (Addr × CStr)} {t : RpcTypes} {r : Prec}
    (h : Record x H t r) : r.Slots := by
  obtain ⟨c, hc, -, hs⟩ := h.ctx
  intro c' hc'
  rw [hc] at hc'
  cases hc'
  exact hs

/-- A record without its callback. -/
def Prec.silenced (r : Prec) : Prec :=
  { r with context := r.context.map fun c => { c with free := none } }

theorem silenced_recorded (r : Prec) (k : CStr) : r.silenced.recorded k = r.recorded k := by
  obtain ⟨n, c⟩ := r
  cases c <;> rfl

theorem silenced_freeFn (r : Prec) : r.silenced.freeFn = none := by
  obtain ⟨n, c⟩ := r
  cases c <;> rfl

/-- All else about the record stays. -/
theorem Record.silenced {x : Nat} {H : Finset (Addr × CStr)} {t : RpcTypes} {r : Prec}
    (h : Record x H t r) : Record x H .none r.silenced := by
  obtain ⟨c, hc, -, hs⟩ := h.ctx
  refine ⟨h.count, ⟨{ c with free := none }, by rw [Prec.silenced, hc]; rfl, rfl, hs⟩, fun S k => ?_,
    fun hx k => ?_⟩
  · rw [silenced_recorded]
    exact h.mem S k
  · rw [silenced_recorded]
    exact h.once hx k

/-! ## The states

The invariant of the store has two parameters, the objects whose callback is off and the
references without an entry. Both can be read off the records, so a state can be said to
be sane without saying for which parameters. -/

namespace State

/-- The objects whose record has no release callback. -/
def silent (st : State) : Finset Addr :=
  (st.tracker.keys.filter fun p => ((st.tracker.lookup p).bind Prec.freeFn).isNone).toFinset

theorem mem_silent {st : State} {p : Addr} :
    p ∈ st.silent ↔ ∃ r, st.tracker.lookup p = some r ∧ r.freeFn = none := by
  simp only [silent, List.mem_toFinset, List.mem_filter, Table.mem_keys_iff, Option.isNone_iff_eq_none]
  constructor
  · intro h
    obtain ⟨⟨r, hr⟩, hfree⟩ := h
    rw [hr] at hfree
    exact ⟨r, hr, hfree⟩
  · intro h
    obtain ⟨r, hr, hfree⟩ := h
    exact ⟨⟨r, hr⟩, by rw [hr]; exact hfree⟩

end State

/-- The invariant, with whatever callbacks off and whatever surplus there is. -/
structure Sane (st : State) : Prop where
  inv : Inv st.silent st.surplus ∅ ∅ st
  stored : Stored st

section
variable {off : Finset Addr} {extra : Addr → Nat} {st st' : State} {p : Addr}

theorem rpcFreefnOf_type (o : Obj) : rpcFreefnOf o.type ≠ none := by
  cases o <;> nofun

/-- Whose callback is off can be read off the records. -/
theorem Inv.silent_iff (h : Inv off extra ∅ ∅ st) {r : Prec} (hr : st.tracker.lookup p = some r) :
    p ∈ st.silent ↔ p ∈ off := by
  obtain ⟨-, o, -, hrec⟩ := h.tracked p r hr
  rw [mem_silent, hr]
  simp only [Option.some.injEq, exists_eq_left', hrec.freeFn]
  constructor
  · intro hnone
    by_contra hoff
    rw [callbackType_of_notMem hoff] at hnone
    exact rpcFreefnOf_type o hnone
  · intro hoff
    rw [callbackType_of_mem hoff]
    rfl

/-- The invariant, of what can be read off the records. -/
theorem Inv.silent (h : Inv off extra ∅ ∅ st) : Inv st.silent st.surplus ∅ ∅ st := by
  refine ⟨h.null, h.dead, h.typed, h.untracked, fun p r hr => ?_⟩
  obtain ⟨hpos, o, ho, hrec⟩ := h.tracked p r hr
  have hcallback : callbackType st.silent p o.type = callbackType off p o.type := by
    by_cases hoff : p ∈ off
    · rw [callbackType_of_mem hoff, callbackType_of_mem ((h.silent_iff hr).2 hoff)]
    · rw [callbackType_of_notMem hoff, callbackType_of_notMem (mt (h.silent_iff hr).1 hoff)]
  exact ⟨hpos, o, ho, by rw [hcallback, h.surplus_eq hr]; exact hrec⟩

theorem Inv.sane (h : Inv off extra ∅ ∅ st) (hst : Stored st) : Sane st := ⟨h.silent, hst⟩

theorem WF.sane (h : WF st) : Sane st := h.inv.sane h.stored

/-- Where no object is, no record is. -/
theorem Sane.dead_untracked (h : Sane st) (hp : st.heap.lookup p = none) :
    st.tracker.lookup p = none := by
  cases hr : st.tracker.lookup p with
  | none => rfl
  | some r =>
    obtain ⟨-, o, ho, -⟩ := h.inv.tracked p r hr
    rw [hp] at ho
    cases ho

theorem Sane.live_of_tracked (h : Sane st) {r : Prec} (hr : st.tracker.lookup p = some r) :
    ∃ o, st.heap.lookup p = some o := by
  obtain ⟨-, o, ho, -⟩ := h.inv.tracked p r hr
  exact ⟨o, ho⟩

/-- Whatever an entry holds has a record. -/
theorem Sane.held_tracked (h : Sane st) {S : Addr} {k : CStr} (hh : st.held S k = some p) :
    ∃ r, st.tracker.lookup p = some r := by
  obtain ⟨r, -, hr, -⟩ := h.inv.tracked_of_held (Set.notMem_empty p) hh
  exact ⟨r, hr⟩

theorem Sane.loud_of_untracked (hp : st.tracker.lookup p = none) : p ∉ st.silent := by
  intro hc
  obtain ⟨r, hr, -⟩ := mem_silent.1 hc
  rw [hp] at hr
  cases hr

/-- The record of an object counts its holders and the surplus. -/
theorem Sane.record (h : Sane st) {r : Prec} (hr : st.tracker.lookup p = some r) :
    0 < r.refcount ∧ ∃ o, st.heap.lookup p = some o ∧
      Record (st.surplus p) (st.holders p) (callbackType st.silent p o.type) r := by
  obtain ⟨hpos, o, ho, hrec⟩ := h.inv.tracked p r hr
  rw [Finset.sdiff_empty] at hrec
  exact ⟨hpos, o, ho, hrec⟩

/-- What releases need of a state. -/
theorem Sane.kept (h : Sane st) : Kept st := by
  refine ⟨fun q r hr => ?_, fun S k q hh => ?_, fun q r hr S k hk => ?_⟩
  · obtain ⟨-, o, -, hrec⟩ := h.record hr
    exact hrec.slots
  · obtain ⟨r, hr⟩ := h.held_tracked hh
    obtain ⟨-, o, -, hrec⟩ := h.record hr
    refine ⟨r, hr, ?_⟩
    rw [hrec.count]
    exact Nat.le_add_right _ _
  · obtain ⟨-, o, -, hrec⟩ := h.record hr
    exact mem_holders.1 ((hrec.mem S k).1 hk)

/-! ## Steps

What a call does to a store before and after the function: it makes structs, fills them,
switches callbacks off and frees structs. Each keeps a state sane. -/

/-- A new object without entries. -/
theorem Sane.create (h : Sane st) (E : Env) {o : Obj}
    (ho : ∀ s, o = .struct s → s.ID.length = 65 ∧ s.map = ∅) : Sane (st.setObj (E.malloc st) o) := by
  obtain ⟨hst, hinv⟩ := create_step E h.inv h.stored ho
  exact hinv.sane hst

/-- A new entry. -/
theorem Sane.setEntry (h : Sane st) (E : Env) {S : Addr} {s : RpcStruct} (hs : st.struct? S = some s)
    {k : CStr} (hk : s.map.lookup k = none) {e : RpcTypeT} (hsz : e.Sized)
    (htgt : ∀ p, e.target = some p → ∃ o, st.heap.lookup p = some o ∧ o.type = e.type)
    (hnn : rpcIsPointer e.type = true → e.ptrValue ≠ 0) {st' : State}
    (hst' : st' = (trackElement st S k e).setObj S
      (.struct { s with map := s.map.insert k (strdupElement E st e) })) :
    Sane st' ∧ ∀ q r, st'.tracker.lookup q = some r → st'.surplus q = st.surplus q := by
  subst hst'
  have hinv := set_spec (E := E) h.inv hs hk htgt (fun p hp => surplus_untracked hp)
    fun p hp _ => by
      obtain ⟨r, hr, -⟩ := mem_silent.1 hp
      exact ⟨r, hr⟩
  exact ⟨hinv.sane (stored_strdup h.stored hs rfl (heap_trackElement S k e) hsz hnn),
    fun q r hr => hinv.surplus_eq hr⟩

/-- A record without context is one that nothing was counted on. -/
theorem Sane.context (h : Sane st) {r : Prec} (hr : st.tracker.lookup p = some r) :
    ∃ c, r.context = some c := by
  obtain ⟨-, o, -, hrec⟩ := h.record hr
  obtain ⟨c, hc, -⟩ := hrec.ctx
  exact ⟨c, hc⟩

theorem holders_of_heap (hheap : st'.heap = st.heap) (p : Addr) : st'.holders p = st.holders p :=
  holders_congr (fun S k => held_congr (by rw [hheap]) k) p

/-- Switching a callback off. -/
theorem Sane.silence (h : Sane st) {r : Prec} (hr : st.tracker.lookup p = some r) :
    Sane (st.setPrec p r.silenced) := by
  have hheld : ∀ q, (st.setPrec p r.silenced).holders q = st.holders q := holders_of_heap rfl
  have hinv : Inv (insert p st.silent) st.surplus ∅ ∅ (st.setPrec p r.silenced) := by
    refine ⟨h.inv.null, fun _ hq => absurd hq (Set.notMem_empty _), h.inv.typed, fun q hq hno => ?_,
      fun q rq hq => ?_⟩
    · rw [lookup_setPrec] at hno
      split at hno
      · cases hno
      · rw [hheld]
        exact h.inv.untracked q hq hno
    · rw [Finset.sdiff_empty, hheld]
      rw [lookup_setPrec] at hq
      split at hq
      · rename_i hqp
        subst hqp
        cases hq
        obtain ⟨hpos, o, ho, hrec⟩ := h.record hr
        exact ⟨hpos, o, ho, by rw [callbackType_of_mem (Finset.mem_insert_self _ _)]; exact hrec.silenced⟩
      · rename_i hqp
        obtain ⟨hpos, o, ho, hrec⟩ := h.record hq
        refine ⟨hpos, o, ho, ?_⟩
        have hmem : q ∈ insert p st.silent ↔ q ∈ st.silent := by simp [hqp]
        have hcallback : callbackType (insert p st.silent) q o.type = callbackType st.silent q o.type := by
          unfold callbackType
          simp only [hmem]
        rw [hcallback]
        exact hrec
  refine hinv.sane ⟨h.stored.idSize, h.stored.sized, h.stored.nonnull, h.stored.once, h.stored.apart⟩

/-- Freeing a struct that nothing holds. -/
theorem Sane.free (h : Sane st) (E : Env) {x : Addr} {s : RpcStruct} (hs : st.struct? x = some s)
    (hx : st.tracker.lookup x = none) :
    ∃ st', rpcStructFree E st x = .ok st' ∧ Sane st' ∧
      Outcome (st.reclaimed (raised st.silent st.surplus) {x} ∅) ∅ st st' ∧
      (∀ q r, st'.tracker.lookup q = some r → st'.surplus q = st.surplus q) ∧
      ∀ q r, st.tracker.lookup q = some r → st'.tracker.lookup q = none →
        st'.heap.lookup q = none ∨ q ∈ st.silent ∧ st.surplus q = 0 := by
  obtain ⟨st', hok, hinv, hout, hrec⟩ := free_records E h.inv (struct?_eq_some.1 hs)
    (Sane.loud_of_untracked hx)
  have hempty : {e | st.heldAt e = some x} = ∅ := by
    refine Set.eq_empty_iff_forall_notMem.2 fun e he => ?_
    obtain ⟨r, hr⟩ := h.held_tracked (S := e.1) (k := e.2) he
    rw [hx] at hr
    cases hr
  rw [hempty] at hout
  refine ⟨st', hok, hinv.sane (h.stored.outcome hout), hout, fun q r hr => hinv.surplus_eq hr,
    fun q r hr hr' => hrec q r (fun hq => ?_) hr hr'⟩
  rw [hq, hx] at hr
  cases hr

namespace State

/-- What goes with `x`, which nothing holds, when it is released. -/
def cascade (st : State) (x : Addr) : Set Addr :=
  st.reclaimed (raised st.silent st.surplus) {x} ∅

theorem self_mem_cascade (st : State) (x : Addr) : x ∈ st.cascade x := .root rfl

/-- A set is not left when each object it holds is in it, is kept, or is held from outside. -/
theorem cascade_subset {x : Addr} {D : Set Addr} (hx : x ∈ D)
    (h : ∀ S ∈ D, ∀ k a, st.held S k = some a →
      a ∈ D ∨ (a ∈ st.silent ∨ 0 < st.surplus a) ∨ ∃ S' k', S' ∉ D ∧ st.held S' k' = some a) :
    st.cascade x ⊆ D := by
  intro a ha
  refine Ownership.reclaimed_subset ?_ (Set.singleton_subset_iff.2 hx) ha
  intro a e hpin he hall
  rcases h e.1 (hall e he (Set.notMem_empty e)) e.2 a he with hmem | hkept | hout
  · exact hmem
  · exact absurd (raised_pos.2 hkept) hpin
  · obtain ⟨S', k', hS', hh'⟩ := hout
    exact absurd (hall (S', k') hh' (Set.notMem_empty _)) hS'

/-- `a` is held by `S` alone, and nothing else keeps it. -/
structure Sole (st : State) (a S : Addr) : Prop where
  held : ∃ k, st.held S k = some a
  only : ∀ S' k, st.held S' k = some a → S' = S
  loud : a ∉ st.silent
  surplus : st.surplus a = 0

/-- What a struct alone holds goes with it. -/
theorem Sole.mem_cascade {a S x : Addr} (h : st.Sole a S) (hS : S ∈ st.cascade x) :
    a ∈ st.cascade x := by
  obtain ⟨k, hk⟩ := h.held
  refine .orphan (e := (S, k)) (fun hpin => ?_) hk fun e' he' _ => ?_
  · rcases raised_pos.1 hpin with hsilent | hpos
    · exact h.loud hsilent
    · rw [h.surplus] at hpos
      cases hpos
  · rw [h.only e'.1 e'.2 he']
    exact hS

end State

/-! ## Records through a cascade

A release decrements the records of what it reaches, and may do so in any order. Of a
record that is still there afterwards it is enough to know that it has lost nothing but
origins (`Prec.Fewer`): that is a relation kept by every step of a release, whatever is
released on the way. -/

/-- `r'` has the callback of `r` and, of each origin outside of `X`, as many copies as `r`
or none. -/
structure Prec.Fewer (X : Set Addr) (r r' : Prec) : Prop where
  freeFn : r'.freeFn = r.freeFn
  count : ∀ k, ∀ S ∉ X,
    (r'.recorded k).count S = (r.recorded k).count S ∨ (r'.recorded k).count S = 0

theorem Prec.Fewer.refl (X : Set Addr) (r : Prec) : r.Fewer X r := ⟨rfl, fun _ _ _ => .inl rfl⟩

theorem Prec.Fewer.trans {X : Set Addr} {r r' r'' : Prec} (h : r.Fewer X r') (h' : r'.Fewer X r'') :
    r.Fewer X r'' := by
  refine ⟨h'.freeFn.trans h.freeFn, fun k S hS => ?_⟩
  rcases h'.count k S hS with hc | hc
  · rw [hc]
    exact h.count k S hS
  · exact .inr hc

theorem Prec.Fewer.mono {X X' : Set Addr} {r r' : Prec} (h : r.Fewer X r') (hX : X ⊆ X') :
    r.Fewer X' r' := ⟨h.freeFn, fun k S hS => h.count k S fun hS' => hS (hX hS')⟩

/-- A decrement takes out one origin, with all its copies. -/
theorem decremented_fewer {r : Prec} (hs : r.Slots) (S : Addr) (key : CStr) :
    r.Fewer ∅ (r.decremented (some ⟨S, some key, none⟩)) := by
  obtain ⟨n, context⟩ := r
  unfold Prec.decremented
  split
  · cases context with
    | none => exact ⟨rfl, fun _ _ _ => .inl rfl⟩
    | some c =>
      refine ⟨?_, fun k S' _ => ?_⟩
      · simp only [rpcStructDecrementCb]
        split
        · rfl
        · split <;> rfl
      · rw [recorded_decrement rfl (hs c rfl)]
        split
        · by_cases hS : S' = S
          · subst hS
            exact .inr (List.count_eq_zero.2 (by simp))
          · refine .inl ?_
            rw [List.count_filter (by simpa using hS)]
            rfl
        · exact .inl rfl
  · exact .refl ∅ _

/-- The slots of all records are in order. -/
def AllSlots (st : State) : Prop := ∀ q r, st.tracker.lookup q = some r → r.Slots

/-- The records that are left have lost nothing but origins. -/
structure Thinned (st st' : State) : Prop where
  slots : AllSlots st'
  fewer : ∀ q r', st'.tracker.lookup q = some r' →
    ∃ r, st.tracker.lookup q = some r ∧ r.Fewer ∅ r'

theorem Thinned.refl (h : AllSlots st) : Thinned st st := ⟨h, fun _ r' hr' => ⟨r', hr', .refl ∅ r'⟩⟩

theorem Thinned.trans {st'' : State} (h : Thinned st st') (h' : Thinned st' st'') :
    Thinned st st'' := by
  refine ⟨h'.slots, fun q r'' hr'' => ?_⟩
  obtain ⟨r', hr', hf'⟩ := h'.fewer q r'' hr''
  obtain ⟨r, hr, hf⟩ := h.fewer q r' hr'
  exact ⟨r, hr, hf.trans hf'⟩

/-- A step that takes nothing out of the records that stay. -/
theorem Thinned.of_sub (h : AllSlots st) (htr : ∀ q r', st'.tracker.lookup q = some r' →
    st.tracker.lookup q = some r') : Thinned st st' :=
  ⟨fun q r hr => h q r (htr q r hr), fun _ r' hr' => ⟨r', htr _ r' hr', .refl ∅ r'⟩⟩

section Cascade
variable {E : Env} {del : State → Addr → Except Fault State}

/-- One decrement, with whatever it releases. -/
theorem thinned_decrement (h : AllSlots st) (hdel : Deletes Set.univ AllSlots Thinned del) {S : Addr}
    (key : CStr) (hok : precDecrementBy del st p (some ⟨S, some key, none⟩) = .ok st') :
    Thinned st st' := by
  unfold precDecrementBy at hok
  cases hr : st.tracker.lookup p with
  | none =>
    rw [hr] at hok
    cases hok
    exact .refl h
  | some r =>
    simp only [hr] at hok
    have hslots := (decremented_spec (h p r hr) S key none).2.1
    have h1 : Thinned st (st.setPrec p (r.decremented (some ⟨S, some key, none⟩))) := by
      refine ⟨fun q rq hq => ?_, fun q rq hq => ?_⟩
      · rw [lookup_setPrec] at hq
        split at hq
        · cases hq
          exact hslots
        · exact h q rq hq
      · rw [lookup_setPrec] at hq
        split at hq
        · rename_i hqp
          subst hqp
          cases hq
          exact ⟨r, hr, decremented_fewer (h q r hr) S key⟩
        · exact ⟨rq, hq, .refl ∅ rq⟩
    split at hok
    · exact h1.trans (hdel _ p st' h1.slots (Set.mem_univ p) hok)
    · cases hok
      exact h1

/-- One entry removed. -/
theorem thinned_remove (h : AllSlots st) (hdel : Deletes Set.univ AllSlots Thinned del) {S : Addr}
    {key : CStr} {ret : Nat} (hok : rpcStructRemoveBy del st S key = .ok (st', ret)) :
    Thinned st st' := by
  unfold rpcStructRemoveBy at hok
  cases hs : st.struct? S with
  | none =>
    rw [hs] at hok
    cases hok
  | some s =>
    simp only [hs] at hok
    cases hk : s.map.lookup key with
    | none =>
      rw [hk] at hok
      cases hok
      exact .refl h
    | some e =>
      simp only [hk] at hok
      obtain ⟨st1, huntrack, hok⟩ := bind_eq_ok.1 hok
      obtain ⟨st2, hdrop, hok⟩ := bind_eq_ok.1 hok
      cases hok
      have h1 : Thinned st st1 := by
        unfold untrackElementBy at huntrack
        cases ht : e.target with
        | none =>
          rw [ht] at huntrack
          cases huntrack
          exact .refl h
        | some p =>
          rw [ht] at huntrack
          exact thinned_decrement h hdel key huntrack
      refine h1.trans (.of_sub h1.slots fun q r' hr' => ?_)
      unfold FfiRpc.dropEntry at hdrop
      split at hdrop
      · cases hdrop
      · split at hdrop
        · cases hdrop
        · cases hdrop
          exact hr'

/-- So it goes through a whole release. -/
theorem thinned_sweep : Sweep Set.univ AllSlots Thinned where
  refl := .refl
  trans := .trans
  keep h := h.slots
  delPrec h _ := .of_sub h fun q r' hr' => by
    rw [lookup_delPrec] at hr'
    split at hr'
    · cases hr'
    · exact hr'
  recorded _ _ _ _ _ _ := Set.mem_univ _
  remove hdel h _ hok := thinned_remove h hdel hok
  release h _ hok := by
    unfold State.release at hok
    split at hok
    · split at hok
      · cases hok
        exact .of_sub h fun _ _ hr' => hr'
      · cases hok
    · cases hok

end Cascade

theorem Sane.slots (h : Sane st) : AllSlots st := h.kept.slots

theorem Sane.thinned (h : Sane st) {E : Env} {x : Addr} (hok : rpcStructFree E st x = .ok st') :
    Thinned st st' := thinned_sweep.free h.slots (Set.mem_univ x) hok

/-! ## What structs of a call hold for a while

The structs of `X` are those of a call; they were not there in `st0` and will be gone.
Each step of the call keeps `Lent X p st0`, and in the end `Lent.back` gives the record
of `p` back. A callback is switched off only in a record that was not there in `st0`, and
goes with it. -/

/-- `p` is there, outside of `X` it is held as it was, and a record it had is there with its
callback and, but for those in `X`, its origins. -/
structure Lent (X : Set Addr) (p : Addr) (st st' : State) : Prop where
  type : ∃ o o', st.heap.lookup p = some o ∧ st'.heap.lookup p = some o' ∧ o'.type = o.type
  held : ∀ S k, S ∉ X → (st'.held S k = some p ↔ st.held S k = some p)
  tracked : ∀ r, st.tracker.lookup p = some r →
    ∃ r', st'.tracker.lookup p = some r' ∧ r.Fewer X r'
  surplus : st'.surplus p = st.surplus p
  silent : st.tracker.lookup p = none → ∀ r', st'.tracker.lookup p = some r' → r'.freeFn = none

variable {X : Set Addr} {st0 : State}

theorem Lent.refl (X : Set Addr) (hp : ∃ o, st.heap.lookup p = some o) : Lent X p st st := by
  obtain ⟨o, ho⟩ := hp
  exact ⟨⟨o, o, ho, ho, rfl⟩, fun _ _ _ => .rfl, fun r hr => ⟨r, hr, .refl X r⟩, rfl,
    fun hno r hr => by rw [hno] at hr; cases hr⟩

theorem Lent.mono {X' : Set Addr} (h : Lent X p st0 st) (hX : X ⊆ X') : Lent X' p st0 st := by
  refine ⟨h.type, fun S k hS => h.held S k fun hc => hS (hX hc), fun r hr => ?_, h.surplus, h.silent⟩
  obtain ⟨r', hr', hf⟩ := h.tracked r hr
  exact ⟨r', hr', hf.mono hX⟩

theorem Lent.live (h : Lent X p st0 st) : ∃ o, st.heap.lookup p = some o := by
  obtain ⟨-, o', -, ho', -⟩ := h.type
  exact ⟨o', ho'⟩

theorem surplus_congr (hheld : ∀ S k, st'.held S k = some p ↔ st.held S k = some p)
    (htr : st'.tracker.lookup p = st.tracker.lookup p) : st'.surplus p = st.surplus p := by
  have hholders : st'.holders p = st.holders p := by
    ext ⟨S, k⟩
    rw [mem_holders, mem_holders, hheld]
  rw [surplus, surplus, htr, hholders]

/-- A step that leaves `p`, its record and its holders alone. -/
theorem Lent.same (h : Lent X p st0 st)
    (htype : ∀ o, st.heap.lookup p = some o → ∃ o', st'.heap.lookup p = some o' ∧ o'.type = o.type)
    (hheld : ∀ S k, st'.held S k = some p ↔ st.held S k = some p)
    (htr : st'.tracker.lookup p = st.tracker.lookup p) : Lent X p st0 st' := by
  obtain ⟨o0, o, ho0, ho, hty⟩ := h.type
  obtain ⟨o', ho', hty'⟩ := htype o ho
  refine ⟨⟨o0, o', ho0, ho', hty'.trans hty⟩, fun S k hS => (hheld S k).trans (h.held S k hS), ?_,
    (surplus_congr hheld htr).trans h.surplus, ?_⟩
  · rw [htr]
    exact h.tracked
  · rw [htr]
    exact h.silent

/-- Both have no record, or the same. -/
theorem rel_same_cases {a b : Option Prec} (h : Option.Rel Prec.Same a b) :
    (a = none ∧ b = none) ∨ ∃ r r', a = some r ∧ b = some r' ∧ r.Same r' := by
  cases h with
  | none => exact .inl ⟨rfl, rfl⟩
  | some hsame => exact .inr ⟨_, _, rfl, rfl, hsame⟩

theorem rel_same_refl (r : Option Prec) : Option.Rel Prec.Same r r := by
  cases r with
  | none => exact .none
  | some r => exact .some ⟨rfl, rfl, fun _ => .rfl⟩

/-- In sane states the holders can be read off the record. -/
theorem Sane.held_iff (h : Sane st) (h' : Sane st')
    (htr : Option.Rel Prec.Same (st.tracker.lookup p) (st'.tracker.lookup p)) (S : Addr) (k : CStr) :
    st'.held S k = some p ↔ st.held S k = some p := by
  rcases rel_same_cases htr with hnone | hsome
  · obtain ⟨hr, hr'⟩ := hnone
    have hnone : ∀ s : State, Sane s → s.tracker.lookup p = none → s.held S k ≠ some p := by
      intro s hs hno hh
      obtain ⟨r, hr⟩ := hs.held_tracked hh
      rw [hno] at hr
      cases hr
    exact iff_of_false (hnone st' h' hr') (hnone st h hr)
  · obtain ⟨r, r', hr, hr', hsame⟩ := hsome
    obtain ⟨-, o, -, hrec⟩ := h.record hr
    obtain ⟨-, o', -, hrec'⟩ := h'.record hr'
    rw [← mem_holders, ← mem_holders, ← hrec.mem, ← hrec'.mem, (hsame.recorded k).mem_iff]

/-- So can the references without an entry. -/
theorem Sane.surplus_same (h : Sane st) (h' : Sane st')
    (htr : Option.Rel Prec.Same (st.tracker.lookup p) (st'.tracker.lookup p)) :
    st'.surplus p = st.surplus p := by
  have hholders : st'.holders p = st.holders p := by
    ext ⟨S, k⟩
    rw [mem_holders, mem_holders, h.held_iff h' htr]
  rcases rel_same_cases htr with hnone | hsome
  · rw [surplus_untracked hnone.1, surplus_untracked hnone.2]
  · obtain ⟨r, r', hr, hr', hsame⟩ := hsome
    obtain ⟨-, o, -, hrec⟩ := h.record hr
    obtain ⟨-, o', -, hrec'⟩ := h'.record hr'
    have hcount := hrec.count
    have hcount' := hrec'.count
    rw [hsame.refcount, hholders] at hcount'
    omega

theorem Sane.silent_same (htr : Option.Rel Prec.Same (st.tracker.lookup p) (st'.tracker.lookup p)) :
    p ∈ st'.silent ↔ p ∈ st.silent := by
  rw [mem_silent, mem_silent]
  rcases rel_same_cases htr with hnone | hsome
  · simp [hnone.1, hnone.2]
  · obtain ⟨r, r', hr, hr', hsame⟩ := hsome
    simp [hr, hr', hsame.freeFn]

/-- Nor does it matter in which slots the origins are. -/
theorem State.Sole.same {S : Addr} (h : st.Sole p S) (hst : Sane st) (hst' : Sane st')
    (htr : Option.Rel Prec.Same (st.tracker.lookup p) (st'.tracker.lookup p)) : st'.Sole p S := by
  have hheld := hst.held_iff hst' htr
  obtain ⟨k, hk⟩ := h.held
  exact ⟨⟨k, (hheld S k).2 hk⟩, fun S' k' hh => h.only S' k' ((hheld S' k').1 hh),
    fun hc => h.loud ((Sane.silent_same htr).1 hc), (hst.surplus_same hst' htr).trans h.surplus⟩

/-- A step that leaves `p` and its record alone, but for the order in it. -/
theorem Lent.similar (h : Lent X p st0 st) (hst : Sane st) (hst' : Sane st')
    (htype : ∀ o, st.heap.lookup p = some o → ∃ o', st'.heap.lookup p = some o' ∧ o'.type = o.type)
    (htr : Option.Rel Prec.Same (st.tracker.lookup p) (st'.tracker.lookup p)) : Lent X p st0 st' := by
  have hheld := hst.held_iff hst' htr
  obtain ⟨o0, o, ho0, ho, hty⟩ := h.type
  obtain ⟨o', ho', hty'⟩ := htype o ho
  refine ⟨⟨o0, o', ho0, ho', hty'.trans hty⟩, fun S k hS => (hheld S k).trans (h.held S k hS),
    fun r0 hr0 => ?_, (hst.surplus_same hst' htr).trans h.surplus, fun hno r' hr' => ?_⟩
  · obtain ⟨r, hr, hf⟩ := h.tracked r0 hr0
    rcases rel_same_cases htr with hnone | hsome
    · rw [hnone.1] at hr
      cases hr
    · obtain ⟨r1, r', hr1, hr', hsame⟩ := hsome
      rw [hr] at hr1
      cases hr1
      exact ⟨r', hr', hf.trans ⟨hsame.freeFn, fun k S _ => .inl ((hsame.recorded k).count_eq S)⟩⟩
  · rcases rel_same_cases htr with hnone | hsome
    · rw [hnone.2] at hr'
      cases hr'
    · obtain ⟨r, r1, hr, hr1, hsame⟩ := hsome
      rw [hr'] at hr1
      cases hr1
      rw [hsame.freeFn]
      exact h.silent hno r hr

/-- An object that had no record is held by its first entry alone. -/
theorem Sane.setEntry_sole (h : Sane st) (E : Env) {S : Addr} {s : RpcStruct}
    (hs : st.struct? S = some s) {k : CStr} (hk : s.map.lookup k = none) {e : RpcTypeT}
    (hsz : e.Sized) (htgt : ∀ p, e.target = some p → ∃ o, st.heap.lookup p = some o ∧ o.type = e.type)
    (hnn : rpcIsPointer e.type = true → e.ptrValue ≠ 0) (hp : e.target = some p)
    (hno : st.tracker.lookup p = none)
    (hst' : st' = (trackElement st S k e).setObj S
      (.struct { s with map := s.map.insert k (strdupElement E st e) })) : st'.Sole p S := by
  obtain ⟨hsane, hsurplus⟩ := h.setEntry E hs hk hsz htgt hnn hst'
  have hheld : ∀ S' k', st'.held S' k' =
      if S' = S ∧ k' = k then some p else st.held S' k' := by
    intro S' k'
    rw [hst', held_insert hs (heap_trackElement S k e), target_strdupElement, hp]
  have hself : st'.held S k = some p := by rw [hheld, if_pos ⟨rfl, rfl⟩]
  obtain ⟨r, hr⟩ := hsane.held_tracked hself
  have hinv := set_spec (E := E) h.inv hs hk htgt (fun q hq => surplus_untracked hq)
    fun q hq _ => by
      obtain ⟨r, hr, -⟩ := mem_silent.1 hq
      exact ⟨r, hr⟩
  rw [← hst'] at hinv
  refine ⟨⟨k, hself⟩, fun S' k' hh => ?_, fun hc => ?_, ?_⟩
  · rw [hheld] at hh
    split at hh
    · rename_i hc
      exact hc.1
    · obtain ⟨r0, hr0⟩ := h.held_tracked hh
      rw [hno] at hr0
      cases hr0
  · exact Sane.loud_of_untracked hno ((hinv.silent_iff hr).1 hc)
  · rw [hsurplus p r hr, surplus_untracked hno]

theorem heap_create {o : Obj} {E : Env} (hp : ∃ x, st.heap.lookup p = some x) :
    (st.setObj (E.malloc st) o).heap.lookup p = st.heap.lookup p := by
  obtain ⟨x, hx⟩ := hp
  rw [lookup_setObj, if_neg]
  intro hc
  rw [hc, malloc_dead] at hx
  cases hx

theorem held_create (E : Env) {o : Obj} (ho : ∀ s, o = .struct s → s.map = ∅) (S : Addr) (k : CStr) :
    (st.setObj (E.malloc st) o).held S k = st.held S k := by
  by_cases hS : S = E.malloc st
  · rw [State.held, hS, create_none E ho]
    simp [State.held, State.entry, struct?, malloc_dead]
  · exact held_congr (by rw [lookup_setObj, if_neg hS]) k

/-- A new object is none of those lent. -/
theorem Lent.create (h : Lent X p st0 st) (E : Env) {o : Obj}
    (ho : ∀ s, o = .struct s → s.map = ∅) : Lent X p st0 (st.setObj (E.malloc st) o) :=
  h.same (fun x hx => ⟨x, (heap_create ⟨x, hx⟩).trans hx, rfl⟩)
    (fun S k => by rw [held_create E ho]) rfl

/-- A new entry for another object. -/
theorem Lent.setOther (h : Lent X p st0 st) {S : Addr} {s : RpcStruct} (hs : st.struct? S = some s)
    {k : CStr} (hk : s.map.lookup k = none) {e e' : RpcTypeT} (he : e'.target = e.target)
    (hp : e.target ≠ some p) :
    Lent X p st0 ((trackElement st S k e).setObj S
      (.struct { s with map := s.map.insert k e' })) := by
  have hentry : st.held S k = none := by
    rw [State.held, entry_of_struct hs, hk]
    rfl
  refine h.same (fun o ho => lookup_setObj_type _
    ((struct?_congr (by rw [heap_trackElement])).trans hs) (by rw [heap_trackElement]; exact ho))
    (fun S' k' => ?_) (trackElement_other S k hp)
  rw [held_insert hs (heap_trackElement S k e)]
  split
  · rename_i hSk
    rw [hSk.1, hSk.2, hentry, he]
    exact iff_of_false hp fun hh => by cases hh
  · rfl

/-- The record after a new entry of `S` counts the other structs as before. -/
theorem increment_fewer {r : Prec} {c : PrecPtrCtx} (hc : r.context = some c) (hs : r.Slots) {S : Addr}
    (hS0 : S ≠ 0) (hS : S ∈ X) (k : CStr) (f : Option FreeFn) :
    r.Fewer X (rpcStructIncrementCb { r with refcount := r.refcount + 1 } (some ⟨S, some k, f⟩)) := by
  have hslots : ∀ c, ({ r with refcount := r.refcount + 1 } : Prec).context = some c →
      ∀ k s, c.keys.lookup k = some s → s.SlotInv := hs
  obtain ⟨c', hc', hfree, -⟩ := slots_increment { r with refcount := r.refcount + 1 }
    ⟨S, some k, f⟩ hslots
  refine ⟨?_, fun k' S' hS' => .inl ?_⟩
  · rw [Prec.freeFn, hc', Option.bind_some, hfree, Prec.freeFn, hc, Option.bind_some]
    simp only [precPtrCtxCreateOrGet]
  · rw [(recorded_increment { r with refcount := r.refcount + 1 } ⟨S, some k, f⟩ rfl hS0 hslots
      k').count_eq]
    have hne : S ≠ S' := fun hc => hS' (hc ▸ hS)
    split
    · rw [List.count_cons_of_ne hne]
      rfl
    · rfl

/-- A new entry in a struct of `X`, for an object that has a record. -/
theorem Lent.setTracked (h : Lent X p st0 st) (hst : Sane st) {S : Addr} {s : RpcStruct}
    (hs : st.struct? S = some s) (hS : S ∈ X) {k : CStr} {e e' : RpcTypeT}
    (hp : e.target = some p) {r : Prec} (hr : st.tracker.lookup p = some r)
    (hst' : st' = (trackElement st S k e).setObj S (.struct { s with map := s.map.insert k e' }))
    (hsurplus : ∀ q r, st'.tracker.lookup q = some r → st'.surplus q = st.surplus q) :
    Lent X p st0 st' := by
  have hS0 : S ≠ 0 := by
    intro h0
    have hlive := struct?_eq_some.1 hs
    rw [h0, hst.inv.null] at hlive
    cases hlive
  obtain ⟨c, hc⟩ := hst.context hr
  have hfewer := increment_fewer (X := X) hc (hst.slots p r hr) hS0 hS k (rpcFreefnOf e.type)
  have htr : st'.tracker.lookup p = some (rpcStructIncrementCb { r with refcount := r.refcount + 1 }
      (some ⟨S, some k, rpcFreefnOf e.type⟩)) := by
    rw [hst', tracker_setObj, lookup_trackElement hp, if_pos rfl, hr]
    rfl
  obtain ⟨o0, o, ho0, ho, hty⟩ := h.type
  obtain ⟨o', ho', hty'⟩ := lookup_setObj_type
    { s with map := s.map.insert k e' } ((struct?_congr
      (by rw [heap_trackElement S k e])).trans hs)
    (by rw [heap_trackElement]; exact ho)
  rw [← hst'] at ho'
  refine ⟨⟨o0, o', ho0, ho', hty'.trans hty⟩, fun S' k' hS' => ?_, fun r0 hr0 => ?_,
    (hsurplus p _ htr).trans h.surplus, fun hno r' hr' => ?_⟩
  · rw [hst', held_insert hs (heap_trackElement S k e), if_neg fun hc : S' = S ∧ k' = k => hS' (hc.1 ▸ hS)]
    exact h.held S' k' hS'
  · obtain ⟨r1, hr1, hf1⟩ := h.tracked r0 hr0
    rw [hr] at hr1
    cases hr1
    exact ⟨_, htr, hf1.trans hfewer⟩
  · rw [htr] at hr'
    cases hr'
    rw [hfewer.freeFn]
    exact h.silent hno r hr

/-- A new entry in a struct of `X`, for an object that had no record: the callback of the
new one is switched off. -/
theorem Lent.setUntracked (h : Lent X p st0 st) {S : Addr} {s : RpcStruct}
    (hs : st.struct? S = some s) (hS : S ∈ X) {k : CStr} {e e' : RpcTypeT}
    (hno : st.tracker.lookup p = none)
    (hst' : st' = (trackElement st S k e).setObj S (.struct { s with map := s.map.insert k e' }))
    (hsurplus : ∀ q r, st'.tracker.lookup q = some r → st'.surplus q = st.surplus q) {r : Prec}
    (hr : st'.tracker.lookup p = some r) : Lent X p st0 (st'.setPrec p r.silenced) := by
  have hno0 : st0.tracker.lookup p = none := by
    cases hr0 : st0.tracker.lookup p with
    | none => rfl
    | some r0 =>
      obtain ⟨r1, hr1, -⟩ := h.tracked r0 hr0
      rw [hno] at hr1
      cases hr1
  obtain ⟨o0, o, ho0, ho, hty⟩ := h.type
  obtain ⟨o', ho', hty'⟩ := lookup_setObj_type
    { s with map := s.map.insert k e' } ((struct?_congr
      (by rw [heap_trackElement S k e])).trans hs)
    (by rw [heap_trackElement]; exact ho)
  rw [← hst'] at ho'
  refine ⟨⟨o0, o', ho0, ho', hty'.trans hty⟩, fun S' k' hS' => ?_, fun r0 hr0 => ?_, ?_,
    fun _ r' hr' => ?_⟩
  · rw [show (st'.setPrec p r.silenced).held S' k' = st'.held S' k' from rfl, hst',
      held_insert hs (heap_trackElement S k e), if_neg fun hc : S' = S ∧ k' = k => hS' (hc.1 ▸ hS)]
    exact h.held S' k' hS'
  · rw [hno0] at hr0
    cases hr0
  · have hsame : (st'.setPrec p r.silenced).surplus p = st'.surplus p := by
      rw [State.surplus, State.surplus, lookup_setPrec, if_pos rfl, hr, holders_of_heap rfl]
      rfl
    rw [hsame, hsurplus p r hr]
    exact h.surplus
  · rw [lookup_setPrec, if_pos rfl] at hr'
    cases hr'
    exact silenced_freeFn r

/-- Switching off the callback of another object, or of one that had no record. -/
theorem Lent.silence (h : Lent X p st0 st) {q : Addr} {r : Prec} (hr : st.tracker.lookup q = some r)
    (hq : q = p → st0.tracker.lookup p = none) : Lent X p st0 (st.setPrec q r.silenced) := by
  by_cases hqp : q = p
  · subst hqp
    refine ⟨h.type, h.held, fun r0 hr0 => ?_, ?_, fun _ r' hr' => ?_⟩
    · rw [hq rfl] at hr0
      cases hr0
    · rw [← h.surplus, State.surplus, State.surplus, lookup_setPrec, if_pos rfl, hr,
        holders_of_heap rfl]
      rfl
    · rw [lookup_setPrec, if_pos rfl] at hr'
      cases hr'
      exact silenced_freeFn r
  · exact h.same (fun o ho => ⟨o, ho, rfl⟩) (fun _ _ => .rfl)
      (by rw [lookup_setPrec, if_neg (Ne.symm hqp)])

/-- What is lent is not lost with what was not there at first: something keeps it. -/
theorem Lent.anchored (h : Lent X p st0 st) (hst0 : Sane st0) (hst : Sane st)
    (hX : ∀ a ∈ X, st0.heap.lookup a = none) {D : Set Addr} (hD : ∀ a ∈ D, st0.heap.lookup a = none)
    {S : Addr} {k : CStr} (hh : st.held S k = some p) :
    (p ∈ st.silent ∨ 0 < st.surplus p) ∨ ∃ S' k', S' ∉ D ∧ st.held S' k' = some p := by
  obtain ⟨r, hr⟩ := hst.held_tracked hh
  cases hr0 : st0.tracker.lookup p with
  | none => exact .inl (.inl (mem_silent.2 ⟨r, hr, h.silent hr0 r hr⟩))
  | some r0 =>
    rcases Nat.eq_zero_or_pos (st.surplus p) with hzero | hpos
    · obtain ⟨hpos, o, -, hrec⟩ := hst0.record hr0
      have hcount := hrec.count
      rw [← h.surplus, hzero] at hcount
      obtain ⟨⟨S', k'⟩, hm⟩ := Finset.card_pos.1 (show 0 < (st0.holders p).card by omega)
      have hh0 := mem_holders.1 hm
      have hlive : ∀ a, st0.heap.lookup a = none → S' ≠ a := by
        intro a ha hc
        obtain ⟨o, ho⟩ := live_of_held hh0
        rw [hc, ha] at ho
        cases ho
      exact .inr ⟨S', k', fun hc => hlive S' (hD S' hc) rfl,
        (h.held S' k' fun hc => hlive S' (hX S' hc) rfl).2 hh0⟩
    · exact .inl (.inr hpos)

/-- The release of structs that were not there at first. -/
theorem Lent.free (h : Lent X p st0 st) (hst0 : Sane st0) (hst : Sane st) (hX : ∀ a ∈ X, st0.heap.lookup a = none)
    {E : Env} {x : Addr} {s : RpcStruct} (hs : st.struct? x = some s) (hx : st.tracker.lookup x = none)
    (hnew : ∀ a ∈ st.reclaimed (raised st.silent st.surplus) {x} ∅, st0.heap.lookup a = none)
    (hok : rpcStructFree E st x = .ok st') : Sane st' ∧ Lent X p st0 st' := by
  obtain ⟨st1, hok1, hst1, hout, hsurplus, hgone⟩ := hst.free E hs hx
  rw [hok] at hok1
  cases hok1
  have hthin := hst.thinned hok
  obtain ⟨o0, o, ho0, ho, hty⟩ := h.type
  have hspared : p ∉ st.reclaimed (raised st.silent st.surplus) {x} ∅ := by
    intro hp
    rw [hnew p hp] at ho0
    cases ho0
  obtain ⟨o', ho', hless⟩ := hout.stay p o hspared ho
  have hdead : ∀ S k, st0.heap.lookup S = none → st0.held S k ≠ some p := by
    intro S k hS hh
    obtain ⟨o, ho⟩ := live_of_held hh
    rw [hS] at ho
    cases ho
  have hheld : ∀ S k, S ∉ X → (st'.held S k = some p ↔ st0.held S k = some p) := by
    intro S k hS
    by_cases hSr : S ∈ st.reclaimed (raised st.silent st.surplus) {x} ∅
    · refine iff_of_false (fun hh => ?_) (hdead S k (hnew S hSr))
      obtain ⟨o, ho⟩ := live_of_held hh
      rw [hout.gone S hSr] at ho
      cases ho
    · rw [← h.held S k hS]
      cases hoS : st.heap.lookup S with
      | none => simp [State.held, State.entry, struct?, hoS, hout.fresh S hoS]
      | some oS =>
        obtain ⟨oS', hoS', hl⟩ := hout.stay S oS hSr hoS
        unfold State.held
        rw [hl.entry hoS hoS' k]
  have hstays : ∀ r0, st0.tracker.lookup p = some r0 → ∃ r', st'.tracker.lookup p = some r' := by
    intro r0 hr0
    obtain ⟨r1, hr1, hf1⟩ := h.tracked r0 hr0
    cases hr' : st'.tracker.lookup p with
    | some r' => exact ⟨r', rfl⟩
    | none =>
      -- only a silent record without a reference of its own could go, and `p` is still held
      exfalso
      rcases hgone p r1 hr1 hr' with hdead' | ⟨-, hzero⟩
      · rw [ho'] at hdead'
        cases hdead'
      · obtain ⟨hpos, o1, -, hrec⟩ := hst0.record hr0
        have hcount := hrec.count
        rw [← h.surplus, hzero] at hcount
        obtain ⟨⟨S, k⟩, hm⟩ := Finset.card_pos.1 (show 0 < (st0.holders p).card by omega)
        have hh := mem_holders.1 hm
        have hS : S ∉ X := fun hc => hdead S k (hX S hc) hh
        obtain ⟨r', hr''⟩ := hst1.held_tracked ((hheld S k hS).2 hh)
        rw [hr'] at hr''
        cases hr''
  refine ⟨hst1, ⟨o0, o', ho0, ho', hless.type.trans hty⟩, hheld, fun r0 hr0 => ?_, ?_,
    fun hno r' hr' => ?_⟩
  · obtain ⟨r', hr'⟩ := hstays r0 hr0
    obtain ⟨r1, hr1, hf1⟩ := h.tracked r0 hr0
    obtain ⟨r2, hr2, hf2⟩ := hthin.fewer p r' hr'
    rw [hr1] at hr2
    cases hr2
    exact ⟨r', hr', hf1.trans (hf2.mono (Set.empty_subset X))⟩
  · rw [← h.surplus]
    cases hr' : st'.tracker.lookup p with
    | some r' => exact hsurplus p r' hr'
    | none =>
      rw [surplus_untracked hr']
      cases hr1 : st.tracker.lookup p with
      | none => rw [surplus_untracked hr1]
      | some r1 =>
        rcases hgone p r1 hr1 hr' with hdead' | ⟨-, hzero⟩
        · rw [ho'] at hdead'
          cases hdead'
        · exact hzero.symm
  · obtain ⟨r1, hr1, hf1⟩ := hthin.fewer p r' hr'
    rw [hf1.freeFn]
    exact h.silent hno r1 hr1

/-- What nothing holds goes only when it is released itself. -/
theorem Sane.notMem_cascade (h : Sane st) {a x : Addr} (ha : st.tracker.lookup a = none)
    (hne : a ≠ x) : a ∉ st.cascade x := by
  intro hc
  cases hc with
  | root hx => exact hne hx
  | orphan _ hheld _ =>
    obtain ⟨r, hr⟩ := h.held_tracked hheld
    rw [ha] at hr
    cases hr

theorem Thinned.untracked (h : Thinned st st') {a : Addr} (ha : st.tracker.lookup a = none) :
    st'.tracker.lookup a = none := by
  cases hr : st'.tracker.lookup a with
  | none => rfl
  | some r =>
    obtain ⟨r0, hr0, -⟩ := h.fewer a r hr
    rw [ha] at hr0
    cases hr0

/-- `st'` is `st` without `D`; what is lent by a state that had neither is lent still. -/
structure Swept (D : Set Addr) (st st' : State) : Prop where
  sane : Sane st'
  gone : ∀ a ∈ D, st'.heap.lookup a = none
  fresh : ∀ a, st.heap.lookup a = none → st'.heap.lookup a = none
  stay : ∀ a o, a ∉ D → st.heap.lookup a = some o →
    ∃ o', st'.heap.lookup a = some o' ∧ o.Less (fun _ => False) o'
  untracked : ∀ a, st.tracker.lookup a = none → st'.tracker.lookup a = none
  lent : ∀ X p st0, Sane st0 → (∀ a ∈ X, st0.heap.lookup a = none) →
    (∀ a ∈ D, st0.heap.lookup a = none) → Lent X p st0 st → Lent X p st0 st'

/-- Freeing a struct of the call. -/
theorem Sane.sweep (h : Sane st) (E : Env) {x : Addr} (hs : ∃ s, st.struct? x = some s)
    (hx : st.tracker.lookup x = none) {D : Set Addr} (hD : st.cascade x = D) :
    ∃ st', rpcStructFree E st x = .ok st' ∧ Swept D st st' := by
  subst hD
  obtain ⟨s, hs⟩ := hs
  obtain ⟨st', hok, hst', hout, -, -⟩ := h.free E hs hx
  exact ⟨st', hok, hst', hout.gone, hout.fresh, hout.stay, fun a ha => (h.thinned hok).untracked ha,
    fun X p st0 hst0 hX hnew hl => (hl.free hst0 h hX hs hx hnew hok).2⟩

/-- When the structs of `X` hold nothing any more, the record is what it was. -/
theorem Lent.back (h : Lent X p st0 st) (hst0 : Sane st0) (hst : Sane st)
    (hX : ∀ S ∈ X, st0.heap.lookup S = none) (hX' : ∀ S ∈ X, ∀ k, st.held S k ≠ some p) :
    Option.Rel Prec.Same (st0.tracker.lookup p) (st.tracker.lookup p) := by
  have hdead : ∀ S ∈ X, ∀ k, st0.held S k ≠ some p := by
    intro S hS k hh
    obtain ⟨o, ho⟩ := live_of_held hh
    rw [hX S hS] at ho
    cases ho
  have hholders : st.holders p = st0.holders p := by
    ext ⟨S, k⟩
    rw [mem_holders, mem_holders]
    by_cases hS : S ∈ X
    · exact iff_of_false (hX' S hS k) (hdead S hS k)
    · exact h.held S k hS
  cases hr0 : st0.tracker.lookup p with
  | none =>
    cases hr : st.tracker.lookup p with
    | none => exact .none
    | some r =>
      exfalso
      obtain ⟨hpos, o, -, hrec⟩ := hst.record hr
      have hcount := hrec.count
      have hempty := hst0.inv.untracked p (Set.notMem_empty p) hr0
      rw [Finset.sdiff_empty] at hempty
      rw [hholders, hempty, h.surplus, surplus_untracked hr0, Finset.card_empty] at hcount
      omega
  | some r0 =>
    obtain ⟨r, hr, hfewer⟩ := h.tracked r0 hr0
    rw [hr]
    obtain ⟨-, o0, -, hrec0⟩ := hst0.record hr0
    obtain ⟨-, o, -, hrec⟩ := hst.record hr
    have hmem : ∀ k S, S ∈ r.recorded k ↔ S ∈ r0.recorded k := by
      intro k S
      rw [hrec.mem, hrec0.mem, hholders]
    refine .some ⟨by rw [hrec.count, hrec0.count, hholders, h.surplus], hfewer.freeFn, fun k => ?_⟩
    refine List.perm_iff_count.2 fun S => ?_
    by_cases hS : S ∈ r0.recorded k
    · have hSX : S ∉ X := fun hc => hdead S hc k (mem_holders.1 ((hrec0.mem S k).1 hS))
      rcases hfewer.count k S hSX with hc | hc
      · exact hc
      · exact absurd ((hmem k S).2 hS) (List.count_eq_zero.1 hc)
    · rw [List.count_eq_zero.2 hS, List.count_eq_zero.2 (mt (hmem k S).1 hS)]

end

end FfiRpc
