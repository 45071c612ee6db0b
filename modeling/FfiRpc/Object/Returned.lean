import FfiRpc.Object.Transport
import FfiRpc.Wire.Built
import FfiRpc.Wire.Single

/-!
# What a closure returns

The reply owns what is under "return", and is freed before the closure returns:
`returned_kept`. A sizedbuf, function or struct that arrived with it is still there, with
all that hangs on it (`Entire`). A struct that stands for an object of the server is given
closures first (`Closured`), or is left behind for a copy of what the client has loaded.
-/
namespace FfiRpc

open State

/-! ## What is left of an object

A returned object is of use with what hangs on it. `Entire` says that all of it is there;
`Closured` allows what `closurefy` does on purpose, which is to point functions elsewhere
and to store what its closures need. -/

/-- The functions among the entries of `p`. -/
def State.functions (st : State) (p : Addr) : Set Addr := {f | ∃ k, st.entry p k = some (.function f)}

/-- The object `p`, with all that hangs on it. -/
structure Entire (st st' : State) (p : Addr) : Prop where
  live : ∃ o, st.heap.lookup p = some o
  kept : ∀ a, st.Hangs p a → KeptAt st st' a

/-- The struct `p`, but for an entry "cif_storage" and for where its functions point. -/
structure Closured (st st' : State) (p : Addr) : Prop where
  struct : ∃ s s', st.struct? p = some s ∧ st'.struct? p = some s' ∧ s'.ID = s.ID ∧
    ∀ k, k ≠ ascii "cif_storage" ∨ s.map.lookup k ≠ none → s'.map.lookup k = s.map.lookup k
  function : ∀ f ∈ st.functions p, ∀ fn, st.heap.lookup f = some (.function fn) →
    ∃ fnptr, st'.heap.lookup f = some (.function { fn with fnptr := fnptr })
  rest : ∀ a, st.Hangs p a → a ≠ p → a ∉ st.functions p → KeptAt st st' a

section
variable {st st' st'' : State} {p a : Addr}

theorem KeptAt.entry (h : KeptAt st st' a) {k : CStr} {e : RpcTypeT} (he : st.entry a k = some e) :
    st'.entry a k = some e := by
  cases ho : st.heap.lookup a with
  | none =>
    unfold State.entry struct? at he
    rw [ho] at he
    cases he
  | some o =>
    obtain ⟨o', ho', hl⟩ := h o ho
    exact (hl.entry ho ho' k).trans he

theorem KeptAt.held (h : KeptAt st st' a) {k : CStr} {q : Addr} (hh : st.held a k = some q) :
    st'.held a k = some q := by
  obtain ⟨e, he, ht⟩ := held_eq_some.1 hh
  exact held_eq_some.2 ⟨e, h.entry he, ht⟩

/-- A sizedbuf or a function has no entries that could be arranged differently. -/
theorem KeptAt.flat (h : KeptAt st st' a) {o : Obj} (ho : st.heap.lookup a = some o)
    (hty : o.type ≠ .struct) : st'.heap.lookup a = some o :=
  Keeps.flat (D := {a}ᶜ) (fun b o' hb => by
    rw [Set.notMem_compl_iff, Set.mem_singleton_iff] at hb
    rw [hb]
    exact h o') (Set.notMem_compl_iff.2 rfl) ho hty

/-- What hung on the object hangs on it still. -/
theorem Entire.hangs (h : Entire st st' p) (ha : st.Hangs p a) : st'.Hangs p a := by
  induction ha with
  | refl => exact .refl
  | tail hb hlink ih =>
    obtain ⟨k, hk⟩ := hlink
    exact ih.tail ⟨k, (h.kept _ hb).held hk⟩

theorem Entire.functions (h : Entire st st' p) {f : Addr} (hf : f ∈ st.functions p) :
    f ∈ st'.functions p := by
  obtain ⟨k, hk⟩ := hf
  exact ⟨k, (h.kept p .refl).entry hk⟩

theorem hangs_of_functions {f : Addr} (hf : f ∈ st.functions p) : st.Hangs p f := by
  obtain ⟨k, hk⟩ := hf
  exact Relation.ReflTransGen.single ⟨k, held_eq_some.2 ⟨_, hk, rfl⟩⟩

theorem Entire.trans (h : Entire st st' p) (h' : Entire st' st'' p) : Entire st st'' p :=
  ⟨h.live, fun a ha => (h.kept a ha).trans (h'.kept a (h.hangs ha))⟩

/-- First left alone, then given closures. -/
theorem Entire.closured (h : Entire st st' p) (h' : Closured st' st'' p) : Closured st st'' p := by
  obtain ⟨s', s'', hs', hs'', hid, hmap⟩ := h'.struct
  obtain ⟨o, ho⟩ := h.live
  obtain ⟨o', ho', hl⟩ := h.kept p .refl o ho
  cases o with
  | sizedbuf b =>
    cases hl
    cases (struct?_eq_some.1 hs').symm.trans ho'
  | function fn =>
    cases hl
    cases (struct?_eq_some.1 hs').symm.trans ho'
  | struct s =>
    have hs : st.struct? p = some s := struct?_eq_some.2 ho
    have hsame : ∀ k, s'.map.lookup k = s.map.lookup k := by
      intro k
      rw [← entry_of_struct hs', ← entry_of_struct hs]
      exact hl.entry ho ho' k
    obtain ⟨s1, hs1, hid1, -⟩ := (h.kept p .refl).struct hs
    rw [hs'] at hs1
    cases hs1
    refine ⟨⟨s, s'', hs, hs'', hid.trans hid1, fun k hk => ?_⟩, fun f hf fn hfn => ?_,
      fun a ha hap haf => ?_⟩
    · rw [← hsame] at hk ⊢
      exact hmap k hk
    · exact h'.function f (h.functions hf) fn
        ((h.kept f (hangs_of_functions hf)).flat hfn (fun hc => by cases hc))
    · refine (h.kept a ha).trans (h'.rest a (h.hangs ha) hap fun hc => haf ?_)
      obtain ⟨k, hk⟩ := hc
      rw [entry_of_struct hs', hsame, ← entry_of_struct hs] at hk
      exact ⟨k, hk⟩

/-- Given closures, then left alone. -/
theorem Closured.kept (h : Closured st st' p) (h' : ∀ a, st.Hangs p a → KeptAt st' st'' a) :
    Closured st st'' p := by
  obtain ⟨s, s', hs, hs', hid, hmap⟩ := h.struct
  obtain ⟨s'', hs'', hid', hentry⟩ := (h' p .refl).struct hs'
  refine ⟨⟨s, s'', hs, hs'', hid'.trans hid, fun k hk => ?_⟩, fun f hf fn hfn => ?_,
    fun a ha hap haf => (h.rest a ha hap haf).trans (h' a ha)⟩
  · have hk' := hentry k
    rw [entry_of_struct hs'', entry_of_struct hs'] at hk'
    exact hk'.trans (hmap k hk)
  · obtain ⟨fnptr, hptr⟩ := h.function f hf fn hfn
    exact ⟨fnptr, (h' f (hangs_of_functions hf)).flat hptr (fun hc => by cases hc)⟩

end

/-! ## Closures for an object

`closurefy` goes through the keys of the object: for each function it allocates a closure,
points the function at it, and keeps the allocation in a new struct. The loop's invariant
is about the store it started from. -/

section
variable {E : Env} {ffiClosureAlloc : State → Addr → Addr × Addr} {off : Finset Addr}
  {st st0 st' : State} {p storage : Addr} {S : Addr} {k : CStr} {e : RpcTypeT}

theorem rpcStructSet_cases (hok : Prod.fst <$> rpcStructSet E st S k e = .ok st') :
    st' = st ∨ Prod.fst <$> rpcStructSetInternal E st S k e = .ok st' := by
  unfold rpcStructSet at hok
  split at hok
  · cases hok
    exact .inl rfl
  · exact .inr hok

/-- The loop over the keys of `p`, from the store `st0`. -/
structure Closing (off : Finset Addr) (p storage : Addr) (st0 st : State) : Prop where
  later : Later off (insert storage (st0.functions p)) st0 st
  function : ∀ f fn, st0.heap.lookup f = some (.function fn) →
    ∃ fnptr, st.heap.lookup f = some (.function { fn with fnptr := fnptr })
  storage : ∃ s, st.struct? storage = some s

/-- A struct that is no function of its own. -/
theorem Muted.notMem_functions (h : Muted off st) {s : RpcStruct} (hs : st.struct? S = some s) :
    S ∉ st.functions p := by
  intro hc
  obtain ⟨k, hk⟩ := hc
  obtain ⟨o, ho, hty⟩ := h.inv.typed p k _ S hk rfl (Set.notMem_empty S) (Finset.notMem_empty _)
  rw [struct?_eq_some.1 hs] at ho
  cases ho
  cases hty

/-- One key: a function gets a closure, anything else is passed over. -/
theorem Closing.turn (h : Closing off p storage st0 st) (hst0 : Muted off st0)
    (hs : ∃ s, st0.struct? p = some s) (hnew : st0.heap.lookup storage = none) (c : CStr × Nat)
    (hok : closurefyKey E ffiClosureAlloc p storage st c = .ok st') : Closing off p storage st0 st' := by
  obtain ⟨s, hs⟩ := hs
  have hp : p ∉ insert storage (st0.functions p) := by
    intro hc
    rcases hc with hc | hc
    · rw [hc, struct?_eq_some, hnew] at hs
      cases hs
    · exact hst0.notMem_functions hs hc
  unfold closurefyKey at hok
  split at hok
  · rename_i f hf
    have hmem : f ∈ st0.functions p := by
      rw [rpcStructGetInternal, h.later.kept.entry hp (struct?_eq_some.1 hs)] at hf
      cases he : st0.entry p c.1 with
      | none =>
        rw [he] at hf
        cases hf
      | some e =>
        rw [he] at hf
        cases hf
        exact ⟨c.1, he⟩
    dsimp only at hok
    obtain ⟨st1, hptr, hset⟩ := bind_eq_ok.1 hok
    have h1 := h.later.function (Set.mem_insert_of_mem _ hmem) hptr
    have hfun1 : ∀ f' fn, st0.heap.lookup f' = some (.function fn) →
        ∃ fnptr, st1.heap.lookup f' = some (.function { fn with fnptr := fnptr }) := by
      intro f' fn hfn
      obtain ⟨ptr, hfn'⟩ := h.function f' fn hfn
      unfold rpcFunctionSetFnptr onFunction at hptr
      split at hptr
      · rename_i fn0 hfn0
        cases hptr
        simp only [lookup_setObj]
        split
        · rename_i heq
          rw [heq, hfn0] at hfn'
          cases hfn'
          exact ⟨_, rfl⟩
        · exact ⟨ptr, hfn'⟩
      · cases hptr
    have hstorage1 : ∃ s, st1.struct? storage = some s := by
      obtain ⟨x, hx⟩ := h.storage
      obtain ⟨x', hx'⟩ := ((Later.refl h.later.muted _).function (D := {f}) rfl hptr).struct hx
      exact ⟨x', hx'⟩
    rcases rpcStructSet_cases hset with rfl | hset
    · exact ⟨h1, hfun1, hstorage1⟩
    · obtain ⟨x, hx⟩ := hstorage1
      refine ⟨h1.set hst0 (Set.mem_insert ..) hx (e := .unknown _) trivial
        (fun q hq => by cases hq) hset, fun f' fn hfn => ?_, ?_⟩
      · obtain ⟨ptr, hfn'⟩ := hfun1 f' fn hfn
        refine ⟨ptr, (setInternal_keeps hset).flat (fun hc => ?_) hfn' (fun hc => by cases hc)⟩
        rw [Set.mem_singleton_iff.1 hc, hnew] at hfn
        cases hfn
      · exact ((Later.refl h1.muted {storage}).set h1.muted rfl hx (e := .unknown _) trivial
          (fun q hq => by cases hq) hset).struct hx
  · cases hok
    exact h

/-- All keys. -/
theorem closing_loop (hst0 : Muted off st0) (hs : ∃ s, st0.struct? p = some s)
    (hnew : st0.heap.lookup storage = none) (l : List (CStr × Nat)) (h : Closing off p storage st0 st)
    (hok : l.foldlM (closurefyKey E ffiClosureAlloc p storage) st = .ok st') :
    Closing off p storage st0 st' := by
  induction l generalizing st with
  | nil =>
    cases hok
    exact h
  | cons c l ih =>
    rw [List.foldlM_cons] at hok
    obtain ⟨st1, hturn, hok⟩ := bind_eq_ok.1 hok
    exact ih (h.turn hst0 hs hnew c hturn) hok

/-- What `closurefy` does to an object. -/
theorem closurefy_spec (h : Muted off st) (hs : ∃ s, st.struct? p = some s)
    (hok : closurefy E ffiClosureAlloc st p = .ok st') :
    Later off (insert p (st.functions p)) st st' ∧ Closured st st' p := by
  unfold closurefy at hok
  dsimp only at hok
  obtain ⟨st2, hloop, hset⟩ := bind_eq_ok.1 hok
  set storage := (rpcStructCreate E st).2 with hstorage
  have hnew : st.heap.lookup storage = none := malloc_dead E st
  have hfirst : Closing off p storage st (rpcStructCreate E st).1 := by
    refine ⟨(Later.refl h _).create E fun s hs => ?_, fun f fn hfn => ⟨fn.fnptr, ?_⟩,
      ⟨_, struct?_eq_some.2 ((lookup_setObj ..).trans (if_pos rfl))⟩⟩
    · cases hs
      exact ⟨by rw [List.length_append, E.random_length]; rfl, rfl⟩
    · exact (heap_create ⟨_, hfn⟩).trans hfn
  have hloop := closing_loop h hs hnew _ hfirst hloop
  obtain ⟨s, hs⟩ := hs
  have hpf : p ∉ st.functions p := h.notMem_functions hs
  have hp : p ∉ insert storage (st.functions p) := by
    intro hc
    rcases hc with hc | hc
    · rw [hc, struct?_eq_some, hnew] at hs
      cases hs
    · exact hpf hc
  obtain ⟨s2, hs2, hid2, hmap2⟩ := hloop.later.kept.struct hp hs
  obtain ⟨x, hx⟩ := hloop.storage
  have hdead : ∀ a ∈ insert p (insert storage (st.functions p)),
      a ∈ insert p (st.functions p) ∨ st.heap.lookup a = none := by
    intro a ha
    rcases ha with ha | ha | ha
    · exact .inl (.inl ha)
    · exact .inr (ha ▸ hnew)
    · exact .inl (.inr ha)
  have hlater2 := (hloop.later.mono (Set.subset_insert p _)).shrink hdead
  have hrest : Closured st st2 p := by
    refine ⟨⟨s, s2, hs, hs2, hid2, fun k _ => hmap2 k⟩, fun f _ fn => hloop.function f fn,
      fun a _ hap haf o ho => hlater2.kept a o (fun hc => ?_) ho⟩
    rcases hc with hc | hc
    · exact hap hc
    · exact haf hc
  rcases rpcStructSet_cases hset with rfl | hset
  · exact ⟨hlater2, hrest⟩
  · have hlater := hlater2.set h (Set.mem_insert ..) hs2 (e := .struct storage) trivial (fun q hq _ => by
      cases hq
      exact ⟨hnew, _, struct?_eq_some.1 hx, rfl⟩) hset
    have hkeep := setInternal_keeps hset
    obtain ⟨s', hs', hid', hmap'⟩ := setInternal_map hs2 (e := .struct storage)
      (fun _ => malloc_ne_zero E st) hset
    refine ⟨hlater, ⟨s, s', hs, hs', hid'.trans hid2, fun k hk => ?_⟩, fun f hf fn hfn => ?_,
      fun a ha hap haf o ho => ?_⟩
    · rw [hmap', if_neg, hmap2]
      intro hc
      rcases hk with hk | hk
      · exact hk hc.1
      · rw [hc.1, ← hmap2] at hk
        exact hk hc.2
    · obtain ⟨fnptr, hptr⟩ := hloop.function f fn hfn
      refine ⟨fnptr, hkeep.flat (fun hc => ?_) hptr (fun hc => by cases hc)⟩
      rw [Set.mem_singleton_iff.1 hc] at hf
      exact hpf hf
    · refine hlater.kept a o (fun hc => ?_) ho
      rcases hc with hc | hc
      · exact hap hc
      · exact haf hc

end

/-! ## The reply is freed

Before it takes the value out of the reply, the client switches the callback of the object
off if it had no record before the call. That is what lets the object outlive the reply. -/

/-- The object `p`, which the reply has, and which does not go with it. -/
structure Taken (off : Finset Addr) (st : State) (reply p : Addr) : Prop where
  muted : Muted off st
  struct : ∃ r, st.struct? reply = some r
  unheld : ∀ S k, st.held S k ≠ some reply
  loud : reply ∉ off
  object : ∃ o, st.heap.lookup p = some o
  stays : p ∉ st.lost off reply

section
variable {E : Env} {off : Finset Addr} {D : Set Addr} {infos : Table Addr Bool} {st st' st'' : State}
  {reply p a : Addr}

theorem Taken.live (h : Taken off st reply p) (ha : st.Hangs p a) :
    ∃ o, st.heap.lookup a = some o := by
  rcases ha.cases_tail with rfl | ⟨S, -, k, hk⟩
  · exact h.object
  · exact h.muted.inv.held_live hk

/-- What hangs on the object is there when the reply is gone. -/
theorem Taken.freed (h : Taken off st reply p) (hl : Later off D st st')
    (hok : rpcStructFree E st' reply = .ok st'') :
    Muted off st'' ∧ ∀ a, st.Hangs p a → KeptAt st' st'' a := by
  obtain ⟨r, hr⟩ := h.struct
  obtain ⟨r', hr'⟩ := hl.struct hr
  obtain ⟨st1, hok1, hmuted, hout, -⟩ := hl.muted.free E hr' h.loud
  rw [hok] at hok1
  cases hok1
  refine ⟨hmuted, fun a ha o ho => ?_⟩
  obtain ⟨o', ho', hless⟩ := hout.stay a o
    (hl.notMem_lost (h.live ha) (hangs_notMem_lost h.unheld h.stays ha)) ho
  have hP : (fun k => (a, k) ∈ {e : Addr × CStr | st'.heldAt e = some reply}) = fun _ => False := by
    funext k
    refine eq_false fun hc => ?_
    rcases hl.new a k reply hc with hold | hdead
    · exact h.unheld a k hold
    · rw [struct?_eq_some.1 hr] at hdead
      cases hdead
  rw [hP] at hless
  exact ⟨o', ho', hless⟩

/-- The callback of the object is off, or it stays anyway. -/
theorem Received.taken (h : Received st reply) {k : CStr} (hh : st.held reply k = some p)
    (hstay : infos.lookup p = some true → p ∉ st.cascade reply) :
    (keepReturned infos st p).heap = st.heap ∧
      Taken (keepReturned infos st p).silent (keepReturned infos st p) reply p := by
  obtain ⟨o, ho⟩ := h.sane.inv.held_live hh
  unfold keepReturned
  split
  · rename_i hinfo
    exact ⟨rfl, h.sane.muted, h.struct, h.unheld, h.loud, ⟨o, ho⟩, hstay hinfo⟩
  · obtain ⟨r, hr⟩ := h.sane.held_tracked hh
    obtain ⟨c, hc⟩ := h.sane.context hr
    rw [disableFree_eq hr hc]
    have hne : p ≠ reply := by
      intro heq
      rw [heq] at hh
      exact h.unheld reply k hh
    refine ⟨rfl, (h.sane.silence hr).muted, h.struct, h.unheld, fun hs => h.loud ?_, ⟨o, ho⟩,
      notMem_lost ?_ hne⟩
    · obtain ⟨r', hr', hf⟩ := mem_silent.1 hs
      rw [lookup_setPrec, if_neg hne.symm] at hr'
      exact mem_silent.2 ⟨r', hr', hf⟩
    · exact mem_silent.2 ⟨_, (lookup_setPrec ..).trans (if_pos rfl), silenced_freeFn r⟩

end

/-! ## What is at `ret`

One constructor of `Given` for each way a value can take; see `returnStruct_given` for the
structs and `returnValue_given` for all objects. -/

/-- What the closure leaves at `ret` for the object under "return": `st` is the store with
the reply as the server has put it together, `s1` the client when it gets it, and `st'` the
store when the closure returns. -/
inductive Given (E : Env) (methodRequest : Server → Addr → Except Fault (Server × Addr))
    (udata : RpcClosureUdata) (infos : Table Addr Bool) (st : State) (s1 : Server) (st' : State) :
    RpcTypeT → Addr → Prop
  | sizedbuf {p} : Entire st st' p → Given E methodRequest udata infos st s1 st' (.sizedbuf p) p
  | function {p} : Entire st st' p → Given E methodRequest udata infos st s1 st' (.function p) p
  | struct {p s2} :
    rpcStructExists s1.store udata.loadedCobjects (rpcStructIdGet s1.store p) = false →
    isObject E methodRequest { s1 with store := keepReturned infos s1.store p }
      (rpcStructIdGet s1.store p) = .ok (s2, false) →
    Entire st st' p → Given E methodRequest udata infos st s1 st' (.struct p) p
  | object {p s2} :
    rpcStructExists s1.store udata.loadedCobjects (rpcStructIdGet s1.store p) = false →
    isObject E methodRequest { s1 with store := keepReturned infos s1.store p }
      (rpcStructIdGet s1.store p) = .ok (s2, true) →
    Closured st st' p → Given E methodRequest udata infos st s1 st' (.struct p) p
  | loaded {p l r copy r'} :
    rpcStructGetStruct s1.store udata.loadedCobjects (rpcStructIdGet s1.store p) = some l →
    s1.store.struct? l = some r → s1.store.heap.lookup copy = none → st'.struct? copy = some r' →
    (∀ k, Option.Rel RpcTypeT.SameValue (r.map.lookup k) (r'.map.lookup k)) →
    Given E methodRequest udata infos st s1 st' (.struct p) copy

section
variable {E : Env} {utf8 : CStr → Bool} {ffiClosureAlloc : State → Addr → Addr × Addr}
  {conn : Connection} {r0 : Registry} {udata : RpcClosureUdata} {proto : List UInt32}
  {args : Nat → Passed} {infos : Table Addr Bool} {st st' : State} {s1 s2 s' : Server}
  {reply p a : Addr} {slot : ReturnSlot} {k : CStr}

/-- A loaded object is copied, and then the reply is freed. -/
theorem copied_freed {off : Finset Addr} {l : Addr} {r : RpcStruct} (h : Taken off st reply p)
    (hl : st.struct? l = some r) {st1 st2 : State} {copy : Addr}
    (hcopy : rpcStructCopy E st l = .ok (st1, copy)) (hok : rpcStructFree E st1 reply = .ok st2) :
    Sane st2 ∧ st.heap.lookup copy = none ∧ ∃ r', st2.struct? copy = some r' ∧
      ∀ k, Option.Rel RpcTypeT.SameValue (r.map.lookup k) (r'.map.lookup k) := by
  obtain ⟨st1', copy', hcopy', hinv, hstored, hcopied⟩ := copy_spec E h.muted.inv h.muted.stored hl
  rw [hcopy] at hcopy'
  cases hcopy'
  have hdead : st.heap.lookup copy = none := by
    cases ho : st.heap.lookup copy with
    | none => rfl
    | some o => exact absurd (.inr (.inl ⟨o, ho⟩)) hcopied.fresh
  have hother : ∀ b o, st.heap.lookup b = some o → b ≠ copy := by
    intro b o ho hc
    rw [hc, hdead] at ho
    cases ho
  have h1 : Muted off st1 := hinv.muted hstored fun q hq => by
    obtain ⟨o, ho⟩ := h.muted.live q hq
    exact ⟨o, (hcopied.frame q (hother q o ho)).trans ho⟩
  obtain ⟨x, hx⟩ := h.struct
  have hne : reply ≠ copy := hother reply _ (struct?_eq_some.1 hx)
  have hx1 : st1.struct? reply = some x := (struct?_congr (hcopied.frame reply hne)).trans hx
  obtain ⟨st2', hok', h2, hout, -⟩ := h1.free E hx1 h.loud
  rw [hok] at hok'
  cases hok'
  have hstay : copy ∉ st1.lost off reply := by
    intro hc
    cases hc with
    | root hroot => exact hne (Set.mem_singleton_iff.1 hroot).symm
    | @orphan _ e _ hheld _ => exact hcopied.unheld hl h.muted.inv e.1 e.2 hheld
  obtain ⟨r1, hr1, -, hno, hall⟩ := hcopied.map
  obtain ⟨o', ho', hless⟩ := hout.stay copy _ hstay (struct?_eq_some.1 hr1)
  have hP : ∀ k, ¬ (copy, k) ∈ {e : Addr × CStr | st1.heldAt e = some reply} := by
    intro k hc
    have hh : st1.held copy k = some reply := hc
    rw [hcopied.held hl, if_pos rfl] at hh
    exact h.unheld l k hh
  cases o' with
  | sizedbuf b => cases hless
  | function fn => cases hless
  | struct r' =>
    refine ⟨h2.sane, hdead, r', struct?_eq_some.2 ho', fun k => ?_⟩
    rw [(hless.2.2 k).2 (hP k)]
    cases hk : r.map.lookup k with
    | none =>
      rw [hno k hk]
      exact .none
    | some e =>
      obtain ⟨e', he', hsame⟩ := hall k e hk
      rw [he']
      exact .some hsame

theorem entire_of_heap {st1 : State} (hheap : st1.heap = st.heap) (hp : ∃ o, st.heap.lookup p = some o) :
    Entire st st1 p :=
  ⟨hp, fun a _ => keptAt_of_eq (by rw [hheap])⟩

/-- A struct is returned. -/
theorem returnStruct_given (h : Entire st s1.store p) (hs : ∃ s, s1.store.struct? p = some s)
    (hheap : (keepReturned infos s1.store p).heap = s1.store.heap)
    (htaken : Taken (keepReturned infos s1.store p).silent (keepReturned infos s1.store p) reply p)
    (hconn : conn.Sound r0 udata proto args)
    (hok : returnStruct E (conn.methodRequest E utf8) ffiClosureAlloc udata infos
      { s1 with store := keepReturned infos s1.store p } p = .ok (s2, a))
    (hfree : rpcStructFree E s2.store reply = .ok st') :
    Sane st' ∧ Given E (conn.methodRequest E utf8) udata infos st s1 st' (.struct p) a := by
  set stK := keepReturned infos s1.store p with hstK
  have hstruct : ∀ b, stK.struct? b = s1.store.struct? b := fun b => struct?_congr (by rw [hheap])
  have hK : Entire st stK p := by
    obtain ⟨s, hs⟩ := hs
    exact h.trans (entire_of_heap hheap ⟨_, struct?_eq_some.1 hs⟩)
  have hsK : ∃ s, stK.struct? p = some s := by
    rw [hstruct]
    exact hs
  rcases returnStruct_cases hheap hok with hcopied | hasked
  · obtain ⟨l, st1, hl, hcopy, rfl⟩ := hcopied
    cases hr : stK.struct? l with
    | none => simp only [rpcStructCopy, hr, reduceCtorEq] at hcopy
    | some r =>
      obtain ⟨hsane, hdead, r', hr', hfields⟩ := copied_freed htaken hr hcopy hfree
      rw [hheap] at hdead
      rw [hstruct] at hr
      exact ⟨hsane, .loaded hl hr hdead hr' hfields⟩
  · obtain ⟨hloaded, rfl, s3, found, hask, hfound⟩ := hasked
    have hlater : Later stK.silent ∅ stK s3.store := isObject_later htaken.muted.sane hconn hask
    have hentire : Entire stK s3.store a :=
      ⟨htaken.object, fun b _ o ho => hlater.kept b o (Set.notMem_empty b) ho⟩
    rcases hfound with ⟨rfl, rfl⟩ | ⟨rfl, st4, hclosure, rfl⟩
    · obtain ⟨hmuted, hkept⟩ := htaken.freed hlater hfree
      exact ⟨hmuted.sane, .struct hloaded hask
        (hK.trans ⟨htaken.object, fun b hb => (hentire.kept b hb).trans (hkept b hb)⟩)⟩
    · obtain ⟨sK, hsK⟩ := hsK
      obtain ⟨hlater4, hclosured⟩ := closurefy_spec hlater.muted (hlater.struct hsK) hclosure
      obtain ⟨hmuted, hkept⟩ := htaken.freed ((hlater.mono (Set.empty_subset _)).trans hlater4) hfree
      exact ⟨hmuted.sane, .object hloaded hask (hK.closured ((hentire.closured hclosured).kept hkept))⟩

/-- An object is returned. -/
theorem returnValue_given (hrec : Received s1.store reply) (hst : Sane st)
    (hkept : ∀ b, st.Hangs reply b → KeptAt st s1.store b) (hconn : conn.Sound r0 udata proto args)
    {e : RpcTypeT} (he : st.entry reply k = some e) (ht : e.target = some p)
    (hstay : infos.lookup p = some true → p ∉ s1.store.cascade reply)
    (hok : returnValue E (conn.methodRequest E utf8) ffiClosureAlloc udata infos s1 e = .ok (s2, slot))
    (hfree : rpcStructFree E s2.store reply = .ok st') :
    Sane st' ∧ ∃ a, slot = .address a ∧
      Given E (conn.methodRequest E utf8) udata infos st s1 st' e a := by
  have hh : st.held reply k = some p := held_eq_some.2 ⟨e, he, ht⟩
  obtain ⟨hheap, htaken⟩ := hrec.taken ((hkept reply .refl).held hh) hstay
  have hentire : Entire st s1.store p := ⟨hst.inv.held_live hh, fun b hb => hkept b (.head ⟨k, hh⟩ hb)⟩
  have hflat : ∀ st1, rpcStructFree E (keepReturned infos s1.store p) reply = .ok st1 →
      Sane st1 ∧ Entire st st1 p := by
    intro st1 hok1
    obtain ⟨hmuted, hkept1⟩ := htaken.freed (.refl htaken.muted ∅) hok1
    obtain ⟨o, ho⟩ := htaken.object
    rw [hheap] at ho
    exact ⟨hmuted.sane, (hentire.trans (entire_of_heap hheap ⟨o, ho⟩)).trans ⟨htaken.object, hkept1⟩⟩
  cases e with
  | sizedbuf q =>
    cases ht
    cases hok
    obtain ⟨hsane, hw⟩ := hflat st' hfree
    exact ⟨hsane, p, rfl, .sizedbuf hw⟩
  | function q =>
    cases ht
    cases hok
    obtain ⟨hsane, hw⟩ := hflat st' hfree
    exact ⟨hsane, p, rfl, .function hw⟩
  | struct q =>
    cases ht
    obtain ⟨⟨s3, a⟩, hstruct, hok⟩ := bind_eq_ok.1 hok
    cases hok
    have hs : ∃ s, s1.store.struct? p = some s := by
      obtain ⟨o, ho, hty⟩ := hrec.sane.inv.typed reply k _ p ((hkept reply .refl).entry he) rfl
        (Set.notMem_empty p) (Finset.notMem_empty _)
      cases o with
      | struct s => exact ⟨s, struct?_eq_some.2 ho⟩
      | sizedbuf b => cases hty
      | function f => cases hty
    obtain ⟨hsane, hgiven⟩ := returnStruct_given hentire hs hheap htaken hconn hstruct hfree
    exact ⟨hsane, a, rfl, hgiven⟩
  | none => cases ht
  | number raw => cases ht
  | real raw => cases ht
  | string q t => cases ht
  | unknown q => cases ht

/-- A call by a client, in the same process or over TCP. A struct, sizedbuf or function under
"return" is what the closure returns, unless it stands for an object that the client has
loaded: then it is a copy of that one. What is returned outlives the reply, as the server
has put it there; but for an argument that had a record before the call, this takes
that something other than the reply keeps it. -/
theorem returned_kept {s : Server} {fn : RpcFunction} (hst : Sane s.store)
    (hfn : udata.function s.store = .ok fn) (hfits : Fits s.store (fn.prototype.getD []) args)
    (hconn : conn.Sound s.toRegistry udata (fn.prototype.getD []) args)
    (hok : callRpcClosure E (conn.methodRequest E utf8) ffiClosureAlloc udata s args =
      .ok (s', slot)) :
    ∃ packed request s1 reply, packRequest E udata fn s.store args = .ok (packed, request) ∧
      conn.methodRequest E utf8 { s with store := packed.store } request = .ok (s1, reply) ∧
      (reply = 0 ∧ slot = .untouched ∨
        ∃ st, conn.Replies E utf8 { s with store := packed.store } request st reply ∧
          ∀ e p, st.entry reply (ascii "return") = some e → e.target = some p →
            (PointerArg (fn.prototype.getD []) args p → s.store.tracker.lookup p ≠ none →
              p ∉ s1.store.cascade reply) →
            Sane s'.store ∧ ∃ a, slot = .address a ∧
              Given E (conn.methodRequest E utf8) udata packed.infos st s1 s'.store e a) := by
  obtain ⟨packed, request, callRequest, fnArgs, hpack, hreq⟩ :=
    packRequest_spec hst E (RpcClosureUdata.function_cobj hfn) hfits
  unfold callRpcClosure at hok
  obtain ⟨fn', hfn', hok⟩ := bind_eq_ok.1 hok
  rw [lift_eq_ok, hfn] at hfn'
  cases hfn'
  obtain ⟨r, hr, hok⟩ := bind_eq_ok.1 hok
  rw [hpack] at hr
  cases hr
  obtain ⟨⟨s1, reply⟩, hrequest, hok⟩ := bind_eq_ok.1 hok
  rw [lift_eq_ok] at hrequest
  refine ⟨packed, request, s1, reply, hpack, hrequest, ?_⟩
  dsimp only at hok
  split at hok
  · rename_i hzero
    cases hok
    exact .inl ⟨hzero, rfl⟩
  · rename_i hreply
    obtain ⟨hrec, st, hreplies, hsane, hkept⟩ :=
      reply_received (s := { s with store := packed.store }) rfl hreq hfits.code hconn hrequest hreply
    refine .inr ⟨st, hreplies, fun e p he ht hstay => ?_⟩
    unfold takeReturn at hok
    obtain ⟨fn2, -, hok⟩ := bind_eq_ok.1 hok
    split at hok
    · cases hok
    · obtain ⟨⟨s4, slot'⟩, hvalue, hok⟩ := bind_eq_ok.1 hok
      obtain ⟨st5, hfree, hok⟩ := bind_eq_ok.1 hok
      cases hok
      rw [lift_eq_ok] at hfree
      rw [rpcStructGetInternal, (hkept reply .refl).entry he, Option.getD_some] at hvalue
      refine returnValue_given hrec hsane hkept hconn he ht (fun hinfo => ?_) hvalue hfree
      refine hstay ((hreq.seen p).1 (by rw [hinfo]; rfl)) fun hnone => ?_
      have hrecord := hreq.info p true hinfo
      rw [hnone] at hrecord
      cases hrecord

end

/-- The reply of "f" has the argument 8, which the server has left alone. -/
theorem borrow_reply : ((build .bump .empty borrowOps).bind fun st =>
    (RpcClosureUdata.function ⟨5, [102], 4, 3⟩ st).toOption.bind fun fn =>
    (packRequest .bump ⟨5, [102], 4, 3⟩ fn st borrowArgs).toOption.bind fun r =>
    (rpcServerLocalnetJob .bump (returnsBuf 8) (Server.replying .bump { callServer st with store := r.1.store })
      r.2 (Env.bump.malloc r.1.store)).toOption.map fun t =>
    decide (t.1.store.entry (Env.bump.malloc r.1.store) (ascii "return") = some (.sizedbuf 8) ∧
      t.1.store.heap.lookup 8 = st.heap.lookup 8)) = some true := by
  decide +kernel

/-- "f" returns 8, a sizedbuf with one byte. -/
theorem returned_kept_argument : ∃ s s' o, graphApi.Reachable s.store ∧
    callRpcClosure .bump (localRequestor .bump (returnsBuf 8)) (fun _ _ => (0, 0)) ⟨5, [102], 4, 3⟩ s
      borrowArgs = .ok (s', .address 8) ∧
    o.type = .sizedbuf ∧ s.store.heap.lookup 8 = some o ∧ s'.store.heap.lookup 8 = some o := by
  obtain ⟨st, fn, s', hst, hreach, hrun, hfn, hproto, hfits, hharmless, -, -, h8, -⟩ := borrow_call
  obtain ⟨packed, request, s1, reply, hpack, -, hreturned⟩ := @returned_kept .bump (fun _ => true)
    (fun _ _ => (0, 0)) (.inProcess (returnsBuf 8)) ⟨5, [102], 4, 3⟩ borrowArgs s' (.address 8)
    (callServer st) fn (api_wf hreach.of_restrict).sane hfn (by rw [hproto]; exact hfits)
    (by rw [hproto]; exact hharmless.toTidy) hrun
  rcases hreturned with ⟨-, hslot⟩ | ⟨st2, hreplies, hgiven⟩
  · cases hslot
  · cases hreplies with
    | @inProcess _ s2 hjob =>
      have hfacts := borrow_reply
      rw [hst, Option.bind_some, hfn, Except.toOption, Option.bind_some, show packRequest .bump
        ⟨5, [102], 4, 3⟩ fn st borrowArgs = .ok (packed, request) from hpack, Except.toOption,
        Option.bind_some, hjob, Except.toOption, Option.map_some, Option.some.injEq] at hfacts
      obtain ⟨hentry, hsame⟩ := of_decide_eq_true hfacts
      obtain ⟨-, a, -, hgiven⟩ := hgiven _ 8 hentry rfl fun _ hc => absurd h8 hc
      cases hgiven with
      | sizedbuf hentire =>
        obtain ⟨o, ho, hty⟩ : ∃ o, st.heap.lookup 8 = some o ∧ o.type = .sizedbuf := by
          obtain ⟨t, hcode, -, -, htgt⟩ := hfits.typed 3 _ rfl
          cases hcode
          exact htgt 8 rfl
        refine ⟨callServer st, s', o, hreach, hrun, hty, ho, ?_⟩
        exact (hentire.kept 8 .refl).flat (hsame.trans ho) (by rw [hty]; decide)

/-! ## What is lost

The two exceptions are real: a string, which has no record, and an object the client has
loaded. -/

/-- An object with a function "f" without arguments; the client has loaded the struct 7 under
the identifier of the struct 6. -/
def returnOps (t : RpcTypes) : List Op :=
  [.structCreate, .structCreate, .structCreate, .functionCreate, .setPrototype 4 [],
    .setReturnType 4 t.code, .set 3 [102] (.function 4), .set 1 (List.replicate 64 97) (.struct 3),
    .structCreate, .structCreate, .structCreate, .set 7 [107] (.number [9]),
    .set 5 (List.replicate 64 97) (.struct 7)]

/-- A string that "f" returns is gone with the reply. And when "f" returns the struct 6, which
has no entries, the closure returns another struct, which has what 7 has. -/
theorem returned_lost :
    (∃ s s' a, graphApi.Reachable s.store ∧
      callRpcClosure .bump (localRequestor .bump fun _ s => (s, ⟨1, [104]⟩)) (fun _ _ => (0, 0))
        ⟨5, [102], 4, 3⟩ s (fun _ => ⟨0, []⟩) = .ok (s', .address a) ∧ ¬ s'.store.InUse a) ∧
    ∃ s s' a, graphApi.Reachable s.store ∧
      callRpcClosure .bump (localRequestor .bump fun _ s => (s, ⟨6, []⟩)) (fun _ _ => (0, 0))
        ⟨5, [102], 4, 3⟩ s (fun _ => ⟨0, []⟩) = .ok (s', .address a) ∧
      a ≠ 6 ∧ s.store.entry 6 [107] = none ∧ s'.store.entry a [107] = some (.number [9]) := by
  have hstring : ((build .bump .empty (returnOps .string)).bind fun st =>
      (callRpcClosure .bump (localRequestor .bump fun _ s => (s, ⟨1, [104]⟩)) (fun _ _ => (0, 0))
        ⟨5, [102], 4, 3⟩ (callServer st) (fun _ => ⟨0, []⟩)).toOption.map fun r =>
      decide (r.2 = .address 15 ∧ 15 ∉ r.1.store.addrs)) = some true := by
    decide +kernel
  have hstruct : ((build .bump .empty (returnOps .struct)).bind fun st =>
      (callRpcClosure .bump (localRequestor .bump fun _ s => (s, ⟨6, []⟩)) (fun _ _ => (0, 0))
        ⟨5, [102], 4, 3⟩ (callServer st) (fun _ => ⟨0, []⟩)).toOption.map fun r =>
      decide (r.2 = .address 15 ∧ st.entry 6 [107] = none ∧
        r.1.store.entry 15 [107] = some (.number [9]))) = some true := by
    decide +kernel
  obtain ⟨st, hst, hstring⟩ := Option.bind_eq_some_iff.1 hstring
  obtain ⟨⟨s', slot⟩, hrun, hfacts⟩ := Option.map_eq_some_iff.1 hstring
  obtain ⟨hslot, hgone⟩ := of_decide_eq_true hfacts
  cases hslot
  obtain ⟨st1, hst1, hstruct⟩ := Option.bind_eq_some_iff.1 hstruct
  obtain ⟨⟨s1', slot1⟩, hrun1, hfacts1⟩ := Option.map_eq_some_iff.1 hstruct
  obtain ⟨hslot1, hempty, hentry⟩ := of_decide_eq_true hfacts1
  cases hslot1
  refine ⟨⟨callServer st, s', 15, build_reachable (.init rfl) hst, ok_of_toOption hrun, fun hc => ?_⟩,
    callServer st1, s1', 15, build_reachable (.init rfl) hst1, ok_of_toOption hrun1, by decide, hempty,
    hentry⟩
  rcases hc.mem_addrs with h0 | hmem
  · cases h0
  · exact hgone hmem

end FfiRpc
