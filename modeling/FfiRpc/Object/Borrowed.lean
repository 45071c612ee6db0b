import FfiRpc.Object.LocalCall

/-!
# What a call borrows

The arguments of a call by a local client, when the closure returns: `arguments_restored`.
The reply holds at most one of them (`Settled`); `is_object` leaves everything as it was
(`isObject_intact`); and with the reply gone the records are those from before the call.
-/
namespace FfiRpc

open State

/-! ## A question to the server

When a struct comes back, the closure asks the server whether it stands for an object.
The question is a call of its own, with a request, its parameters and a reply; the server
is in the same process, so what has to be shown is that all three are gone again and that
nothing else has noticed (`isObject_intact`). -/

/-- `st'` has what `st` has, as it was, and nothing else. -/
structure Intact (st st' : State) : Prop where
  sane : Sane st'
  kept : ∀ a, KeptAt st st' a
  dead : ∀ a, st.heap.lookup a = none → st'.heap.lookup a = none
  record : ∀ p, Option.Rel Prec.Same (st.tracker.lookup p) (st'.tracker.lookup p)

section
variable {E : Env} {ffiCall : FfiCall} {st st' : State} {S : Addr} {k : CStr} {e : RpcTypeT}

/-- The assertion is that the setter returned 0. -/
theorem setAsserted_eq_ok :
    setAsserted E st S k e = .ok st' ↔ rpcStructSet E st S k e = .ok (st', 0) := by
  unfold setAsserted
  constructor
  · intro h
    obtain ⟨⟨st1, ret⟩, hr, h⟩ := bind_eq_ok.1 h
    rw [lift_eq_ok] at hr
    dsimp only at h
    split at h
    · rename_i hzero
      cases h
      rw [hr, hzero]
    · cases h
  · intro h
    exact bind_eq_ok.2 ⟨(st', 0), lift_eq_ok.2 h, rfl⟩

theorem methods_isCobject : methods E ffiCall (ascii "is_cobject") = some (isCobject E) := rfl

/-- A number or a string changes no record. -/
theorem FieldAdded.plain {l : List (CStr × RpcTypeT)} (h : FieldAdded S k e l st st')
    (he : e.target = none) {q : Addr} : st'.tracker.lookup q = st.tracker.lookup q :=
  h.tracker q fun hc => by rw [he] at hc; cases hc

/-- The method writes one number into the reply, whatever the server finds. -/
theorem isCobject_run (s : Server) (request reply : Addr) :
    ∃ found, ∀ st' ret, rpcStructSet E s.store reply (ascii "is_cobject") (.number (toLE 4 found)) =
      .ok (st', ret) → isCobject E s request reply = .ok ({ s with store := st' }, 0) := by
  unfold isCobject
  cases rpcStructGetString s.store request (ascii "ID") with
  | none => exact ⟨0, fun st' ret hset => bind_eq_ok.2 ⟨(st', ret), hset, rfl⟩⟩
  | some ID => exact ⟨_, fun st' ret hset => bind_eq_ok.2 ⟨(st', ret), hset, rfl⟩⟩

/-- A struct without objects goes alone. -/
theorem HasFields.cascade {l : List (CStr × RpcTypeT)} (h : HasFields st S l)
    (hl : ∀ f ∈ l, f.2.target = none) : st.cascade S = {S} := by
  refine Set.Subset.antisymm (cascade_subset rfl fun S' hS' k a hh => ?_)
    (Set.singleton_subset_iff.2 (self_mem_cascade st S))
  rw [Set.mem_singleton_iff.1 hS'] at hh
  obtain ⟨f, hf, ht⟩ := h.held hh
  rw [hl f hf] at ht
  cases ht

/-- The request of `is_object` is built. -/
structure Asked (st : State) (ID : CStr) (request params : Addr) (st' : State) : Prop where
  sane : Sane st'
  new : ∀ a ∈ ({request, params} : Set Addr), st.heap.lookup a = none
  heap : ∀ a, a ∉ ({request, params} : Set Addr) → st'.heap.lookup a = st.heap.lookup a
  outer : HasFields st' request
    [(ascii "params", .struct params), (ascii "method", .string 1 (ascii "is_cobject"))]
  inner : HasFields st' params [(ascii "ID", .string 1 ID)]
  tracker : ∀ a, a ≠ params → st'.tracker.lookup a = st.tracker.lookup a
  loose : st'.tracker.lookup request = none
  sole : st'.Sole params request
  lent : ∀ p, (∃ o, st.heap.lookup p = some o) → Lent ∅ p st st'

/-- `is_object` builds its request, sends it and reads the answer: the second half says
exactly how a run of it ends, for any transport. -/
theorem asked (s : Server) (hst : Sane s.store) (ID : CStr) :
    ∃ st' request params, Asked s.store ID request params st' ∧
      ∀ (methodRequest : Server → Addr → Except Fault (Server × Addr)) s' found,
        isObject E methodRequest s ID = .ok (s', found) ↔
          ∃ s6 reply, methodRequest { s with store := st' } request = .ok (s6, reply) ∧
            (reply = 0 ∧ s' = s6 ∧ found = false ∨ reply ≠ 0 ∧ ∃ raw st7,
              rpcStructGetInternal s6.store reply (ascii "is_cobject") = .number raw ∧
              rpcStructFree E s6.store reply = .ok st7 ∧ s' = { s6 with store := st7 } ∧
              found = (raw.take 4).any (· ≠ 0)) := by
  have h1 := hst.created E
  set st1 := (rpcStructCreate E s.store).1 with hst1
  set request := (rpcStructCreate E s.store).2 with hrequest
  have h2 := h1.sane.created E
  set st2 := (rpcStructCreate E st1).1 with hst2
  set params := (rpcStructCreate E st1).2 with hparams
  obtain ⟨r1, hr1⟩ := h1.fields.struct
  obtain ⟨r2, hr2⟩ := h2.fields.struct
  have hne : params ≠ request := by
    intro hc
    have := h2.dead
    rw [hc, struct?_eq_some.1 hr1] at this
    cases this
  have hparamsnew : s.store.heap.lookup params = none := by
    rw [← h1.heap _ hne]
    exact h2.dead
  obtain ⟨st3, hset3, h3⟩ := (h1.fields.congr (h2.heap _ hne.symm)).set h2.sane E
    (k := ascii "method") (e := .string 1 (ascii "is_cobject")) rfl trivial (fun p hp => by cases hp)
    fun _ => Nat.one_ne_zero
  obtain ⟨st4, hset4, h4⟩ := h3.fields.set h3.sane E (k := ascii "params") (e := .struct params)
    rfl trivial (fun p hp => by
      cases hp
      exact ⟨_, (h3.heap _ hne).trans (struct?_eq_some.1 hr2), rfl⟩) fun _ => malloc_ne_zero E st1
  have hheap4 : st4.heap.lookup params = st2.heap.lookup params := by rw [h4.heap _ hne, h3.heap _ hne]
  obtain ⟨st5, hset5, h5⟩ := (h2.fields.congr hheap4).set h4.sane E (k := ascii "ID")
    (e := .string 1 ID) rfl trivial (fun p hp => by cases hp) fun _ => Nat.one_ne_zero
  have htracker : ∀ a, a ≠ params → st5.tracker.lookup a = s.store.tracker.lookup a := by
    intro a ha
    rw [h5.plain rfl, h4.tracker a fun hc => ha (Option.some.inj hc).symm, h3.plain rfl, h2.tracker,
      h1.tracker]
  refine ⟨st5, request, params, ⟨h5.sane, fun a ha => ?_, fun a ha => ?_,
    h4.fields.congr (h5.heap _ hne.symm), h5.fields, htracker, ?_, ?_, fun p hp => ?_⟩,
    fun methodRequest s' found => ?_⟩
  · rcases ha with rfl | rfl
    · exact h1.dead
    · exact hparamsnew
  · have ha1 : a ≠ request := fun hc => ha (.inl hc)
    have ha2 : a ≠ params := fun hc => ha (.inr hc)
    rw [h5.heap a ha2, h4.heap a ha1, h3.heap a ha1, h2.heap a ha2, h1.heap a ha1]
  · rw [htracker _ hne.symm]
    exact hst.dead_untracked h1.dead
  · have h4sole := h4.sole params rfl (by
      rw [h3.plain rfl, h2.tracker, h1.tracker]
      exact hst.dead_untracked hparamsnew)
    refine h4sole.same h4.sane h5.sane ?_
    rw [h5.plain rfl]
    exact rel_same_refl _
  · obtain ⟨o, ho⟩ := hp
    have hne' : some params ≠ some p := by
      intro hc
      rw [← Option.some.inj hc, hparamsnew] at ho
      cases ho
    have hl2 := h2.lent _ ∅ p (h1.lent _ _ p (Lent.refl ∅ ⟨o, ho⟩))
    exact h5.lent _ _ p (fun hc => by cases hc) (h4.lent _ _ p hne'
      (h3.lent _ _ p (fun hc => by cases hc) hl2))
  · -- the three insertions went through above; what is left of a run is the sending
    unfold isObject
    constructor
    · intro hok
      obtain ⟨st3', hset3', hok⟩ := bind_eq_ok.1 hok
      cases hset3.symm.trans hset3'
      obtain ⟨st4', hset4', hok⟩ := bind_eq_ok.1 hok
      cases hset4.symm.trans hset4'
      obtain ⟨st5', hset5', hok⟩ := bind_eq_ok.1 hok
      cases hset5.symm.trans hset5'
      obtain ⟨⟨s6, reply⟩, hrequest, hok⟩ := bind_eq_ok.1 hok
      refine ⟨s6, reply, lift_eq_ok.1 hrequest, ?_⟩
      dsimp only at hok
      split at hok
      · rename_i hzero
        cases hok
        exact .inl ⟨hzero, rfl, rfl⟩
      · rename_i hreply
        cases hget : rpcStructGetInternal s6.store reply (ascii "is_cobject") with
        | number raw =>
          simp only [hget] at hok
          obtain ⟨st7, hfree, hok⟩ := bind_eq_ok.1 hok
          cases hok
          exact .inr ⟨hreply, raw, st7, rfl, lift_eq_ok.1 hfree, rfl, rfl⟩
        | _ =>
          simp only [hget] at hok
          cases hok
    · intro hrun
      obtain ⟨s6, reply, hrequest, hreply⟩ := hrun
      refine bind_eq_ok.2 ⟨st3, hset3, bind_eq_ok.2 ⟨st4, hset4, bind_eq_ok.2 ⟨st5, hset5,
        bind_eq_ok.2 ⟨(s6, reply), lift_eq_ok.2 hrequest, ?_⟩⟩⟩⟩
      dsimp only
      rcases hreply with ⟨hzero, rfl, rfl⟩ | ⟨hreply, raw, st7, hget, hfree, rfl, rfl⟩
      · rw [if_pos hzero]
      · rw [if_neg hreply, hget]
        exact bind_eq_ok.2 ⟨st7, lift_eq_ok.2 hfree, rfl⟩

/-- The request of `is_object` takes its parameters with it. -/
theorem cascade_asked {request params : Addr} {ID : CStr}
    (houter : HasFields st request
      [(ascii "params", .struct params), (ascii "method", .string 1 (ascii "is_cobject"))])
    (hinner : HasFields st params [(ascii "ID", .string 1 ID)]) (hsole : st.Sole params request) :
    st.cascade request = {request, params} := by
  refine Set.Subset.antisymm (cascade_subset (Set.mem_insert _ _) fun S hS k a hh => .inl ?_)
    fun a ha => ?_
  · rcases hS with rfl | rfl
    · obtain ⟨f, hf, ht⟩ := houter.held hh
      simp only [List.mem_cons, List.not_mem_nil, or_false] at hf
      rcases hf with rfl | rfl
      · cases ht
        exact Set.mem_insert_of_mem _ rfl
      · cases ht
    · obtain ⟨f, hf, ht⟩ := hinner.held hh
      simp only [List.mem_cons, List.not_mem_nil, or_false] at hf
      rw [hf] at ht
      cases ht
  · rcases ha with rfl | rfl
    · exact self_mem_cascade _ _
    · exact hsole.mem_cascade (self_mem_cascade _ _)

/-- `is_object` leaves everything as it was. -/
theorem isObject_intact (s : Server) (hst : Sane s.store) (ID : CStr) :
    ∃ s' found, isObject E (localRequestor E ffiCall) s ID = .ok (s', found) ∧
      Intact s.store s'.store := by
  obtain ⟨st5, request, params, h5, hisObject⟩ := @asked E s hst ID
  have h6 := h5.sane.created E
  set st6 := (rpcStructCreate E st5).1 with hst6
  set reply := (rpcStructCreate E st5).2 with hreply
  have hlive5 : ∀ a l, HasFields st5 a l → a ≠ reply := by
    intro a l hl hc
    obtain ⟨x, hx⟩ := hl.struct
    have := h6.dead
    rw [← hc, struct?_eq_some.1 hx] at this
    cases this
  have hne1 := hlive5 _ _ h5.outer
  have hne2 := hlive5 _ _ h5.inner
  have hout : reply ∉ ({request, params} : Set Addr) := by
    intro hc
    rcases hc with hc | hc
    · exact hne1 hc.symm
    · exact hne2 hc.symm
  have hreplynew : s.store.heap.lookup reply = none := by
    rw [← h5.heap _ hout]
    exact h6.dead
  have houter6 := h5.outer.congr (h6.heap _ hne1)
  -- the answer
  set s6 : Server := { s with store := st6 } with hs6
  obtain ⟨found, hrun⟩ := isCobject_run (E := E) s6 params reply
  obtain ⟨st7, hset7, h7⟩ := h6.fields.set h6.sane E (k := ascii "is_cobject")
    (e := .number (toLE 4 found)) rfl (by
      show (toLE 4 found).length ∈ [1, 2, 4, 8]
      rw [length_toLE]
      decide) (fun p hp => by cases hp) fun hc => by cases hc
  have hjob : rpcServerLocalnetJob E ffiCall s6 request reply = .ok ({ s6 with store := st7 }, 0) := by
    rw [rpcServerLocalnetJob, houter6.getString rfl]
    simp only [methods_isCobject]
    rw [houter6.getStruct rfl, Option.getD_some]
    exact hrun st7 0 (setAsserted_eq_ok.1 hset7)
  have htracker : ∀ a, st7.tracker.lookup a = st5.tracker.lookup a := by
    intro a
    rw [h7.plain rfl, h6.tracker]
  -- the request goes, with its parameters, and then the reply
  have hsole : st7.Sole params request := h5.sole.same h5.sane h7.sane (by
    rw [htracker]
    exact rel_same_refl _)
  have houter7 := houter6.congr (h7.heap _ hne1)
  obtain ⟨st8, hfree8, h8⟩ := h7.sane.sweep E houter7.struct (by rw [htracker, h5.loose])
    (cascade_asked houter7 ((h5.inner.congr (h6.heap _ hne2)).congr (h7.heap _ hne2)) hsole)
  have hfields8 := h7.fields.kept fun o ho => h8.stay reply o hout ho
  obtain ⟨st9, hfree9, h9⟩ := h8.sane.sweep E hfields8.struct (h8.untracked _ (by
    rw [htracker, h5.tracker _ hne2.symm]
    exact hst.dead_untracked hreplynew)) (hfields8.cascade fun f hf => by
      rw [List.mem_singleton.1 hf]
      rfl)
  have hget : rpcStructGetInternal st8 reply (ascii "is_cobject") = .number (toLE 4 found) :=
    hfields8.get (e := .number (toLE 4 found)) rfl
  have hrequestor : localRequestor E ffiCall { s with store := st5 } request =
      .ok ({ s6 with store := st8 }, reply) := by
    unfold localRequestor
    exact bind_eq_ok.2 ⟨({ s6 with store := st7 }, 0), hjob, bind_eq_ok.2 ⟨st8, hfree8, rfl⟩⟩
  have hdead : ∀ a, s.store.heap.lookup a = none → st9.heap.lookup a = none := by
    intro a ha
    by_cases hreq : a ∈ ({request, params} : Set Addr)
    · exact h9.fresh a (h8.gone a hreq)
    · by_cases har : a = reply
      · exact h9.gone a har
      · refine h9.fresh a (h8.fresh a ?_)
        rw [h7.heap a har, h6.heap a har, h5.heap a hreq, ha]
  refine ⟨{ s6 with store := st9 }, ((toLE 4 found).take 4).any (· ≠ 0),
    (hisObject ..).2 ⟨{ s6 with store := st8 }, reply, hrequestor, .inr ⟨malloc_ne_zero E st5, _, st9,
      hget, hfree9, rfl, rfl⟩⟩,
    h9.sane, fun a o ho => ?_, hdead, fun p => ?_⟩
  · have hne : ∀ b, s.store.heap.lookup b = none → a ≠ b := by
      intro b hb hc
      rw [hc, hb] at ho
      cases ho
    have hreq : a ∉ ({request, params} : Set Addr) := fun hc => hne a (h5.new a hc) rfl
    have har := hne _ hreplynew
    obtain ⟨o8, ho8, hl8⟩ := h8.stay a o hreq (by
      rw [h7.heap a har, h6.heap a har, h5.heap a hreq, ho])
    obtain ⟨o9, ho9, hl9⟩ := h9.stay a o8 har ho8
    exact ⟨o9, ho9, hl8.trans hl9 fun _ => by simp⟩
  · -- none of the three structs held anything that was there before
    cases ho : s.store.heap.lookup p with
    | some o =>
      have hnone : ∀ a ∈ (∅ : Set Addr), s.store.heap.lookup a = none :=
        fun a ha => absurd ha (Set.notMem_empty a)
      have hl7 := h7.lent _ _ p (fun hc => by cases hc) (h6.lent _ _ p (h5.lent p ⟨o, ho⟩))
      have hl9 := h9.lent _ _ _ hst hnone (fun a ha => by
        rw [Set.mem_singleton_iff.1 ha]
        exact hreplynew) (h8.lent _ _ _ hst hnone h5.new hl7)
      exact hl9.back hst h9.sane hnone fun a ha => absurd ha (Set.notMem_empty a)
    | none =>
      rw [hst.dead_untracked ho, h9.sane.dead_untracked (hdead p ho)]
      exact .none

end

/-! ## A returned struct

Three things can become of it: the client has it loaded and takes a copy of that; the
server does not know it, and it is returned as it is; or it stands for an object and its
functions are made closures. -/

section
variable {E : Env} {methodRequest : Server → Addr → Except Fault (Server × Addr)}
  {ffiClosureAlloc : State → Addr → Addr × Addr} {udata : RpcClosureUdata} {infos : Table Addr Bool}

/-- Switching a callback off is a matter of the tracker. -/
theorem heap_keepReturned (infos : Table Addr Bool) (st : State) (p : Addr) :
    (keepReturned infos st p).heap = st.heap := by
  unfold keepReturned disableFree
  split
  · rfl
  · split <;> rfl

/-- What becomes of a returned struct, in a store with the heap of `st`: the client copies what it
has loaded, or the server is asked, and the struct gets closures if it stands for an object. -/
theorem returnStruct_cases {s s' : Server} {st : State} {p a : Addr} (hheap : s.store.heap = st.heap)
    (hok : returnStruct E methodRequest ffiClosureAlloc udata infos s p = .ok (s', a)) :
    (∃ l st1, rpcStructGetStruct st udata.loadedCobjects (rpcStructIdGet st p) = some l ∧
      rpcStructCopy E s.store l = .ok (st1, a) ∧ s' = { s with store := st1 }) ∨
    (rpcStructExists st udata.loadedCobjects (rpcStructIdGet st p) = false ∧ a = p ∧
      ∃ s1 found, isObject E methodRequest s (rpcStructIdGet st p) = .ok (s1, found) ∧
        (found = false ∧ s' = s1 ∨ found = true ∧
          ∃ st1, closurefy E ffiClosureAlloc s1.store p = .ok st1 ∧ s' = { s1 with store := st1 })) := by
  have hid : rpcStructIdGet s.store p = rpcStructIdGet st p := by
    have hstruct : s.store.struct? p = st.struct? p := struct?_congr (by rw [hheap])
    rw [rpcStructIdGet, rpcStructIdGet, hstruct]
  have hget : ∀ key, rpcStructGetInternal s.store udata.loadedCobjects key =
      rpcStructGetInternal st udata.loadedCobjects key := by
    intro key
    have hentry : s.store.entry udata.loadedCobjects key = st.entry udata.loadedCobjects key :=
      entry_congr (by rw [hheap]) key
    rw [rpcStructGetInternal, rpcStructGetInternal, hentry]
  unfold returnStruct at hok
  dsimp only at hok
  rw [hid, rpcStructExists, rpcStructGetStruct, hget, ← rpcStructExists, ← rpcStructGetStruct] at hok
  split at hok
  · split at hok
    · cases hok
    · rename_i l hl
      obtain ⟨⟨st1, copy⟩, hcopy, hok⟩ := bind_eq_ok.1 hok
      cases hok
      exact .inl ⟨l, st1, hl, lift_eq_ok.1 hcopy, rfl⟩
  · rename_i hloaded
    rw [Bool.not_eq_true] at hloaded
    obtain ⟨⟨s1, found⟩, hask, hok⟩ := bind_eq_ok.1 hok
    dsimp only at hok
    split at hok
    · rename_i hfound
      cases hok
      exact .inr ⟨hloaded, rfl, _, found, hask, .inl ⟨hfound, rfl⟩⟩
    · rename_i hfound
      rw [Bool.not_eq_false] at hfound
      split at hok
      · cases hok
      · obtain ⟨st1, hclosure, hok⟩ := bind_eq_ok.1 hok
        cases hok
        exact .inr ⟨hloaded, rfl, s1, found, hask, .inr ⟨hfound, st1, lift_eq_ok.1 hclosure, rfl⟩⟩

end

/-! ## The end of the call

From here on the reply is the only struct of the call that is left. `Settled` is kept by
switching off the callback of what was returned, by the question to the server and by
every way of taking the value; freeing the reply then gives the records back. -/

section
variable {E : Env} {ffiCall : FfiCall} {ffiClosureAlloc : State → Addr → Addr × Addr}
  {udata : RpcClosureUdata} {proto : List UInt32} {args : Nat → Passed} {infos : Table Addr Bool}
  {st0 st st' : State} {loaded fnArgs reply p : Addr} {field : Option (CStr × RpcTypeT)}

theorem Settled.live (h : Settled st0 loaded proto args fnArgs reply field st)
    (hp : ObjectArg proto args p) : ∃ o, st.heap.lookup p = some o := (h.lent p hp).live

/-- The question to the server changes nothing of this. -/
theorem Settled.intact (h : Settled st0 loaded proto args fnArgs reply field st)
    (hu : Intact st st') : Settled st0 loaded proto args fnArgs reply field st' := by
  refine ⟨hu.sane, h.fields.kept (hu.kept reply), ?_, hu.dead fnArgs h.gone, fun p hp =>
    (h.lent p hp).similar h.sane hu.sane (fun o ho => (hu.kept p).type ho) (hu.record p),
    fun p hp => ?_, h.returned⟩
  · have hrec := hu.record reply
    rw [h.loose] at hrec
    rcases rel_same_cases hrec with hnone | hsome
    · exact hnone.2
    · obtain ⟨r, r', hr, -⟩ := hsome
      cases hr
  · obtain ⟨o, ho⟩ := h.live hp
    exact (h.unloaded p hp).kept (hu.kept loaded) ho (hu.kept p)

/-- What the reply holds is one of the arguments. -/
theorem Settled.held (h : Settled st0 loaded proto args fnArgs reply field st) {k : CStr}
    (hh : st.held reply k = some p) : ObjectArg proto args p := by
  obtain ⟨f, hf, ht⟩ := h.fields.held hh
  exact h.returned f (Option.mem_toList.1 hf) p ht

/-- The callback goes off only where there was no record before the call. An argument is in
`arg_info_storage`, and what stands there is whether it had one. -/
theorem Settled.keepReturned (h : Settled st0 loaded proto args fnArgs reply field st)
    (hinfo : ∀ q b, infos.lookup q = some b → b = (st0.tracker.lookup q).isSome)
    (hseen : ∀ q, (infos.lookup q).isSome ↔ PointerArg proto args q) {k : CStr}
    (hh : st.held reply k = some p) :
    Settled st0 loaded proto args fnArgs reply field (keepReturned infos st p) := by
  have harg := h.held hh
  unfold FfiRpc.keepReturned
  split
  · exact h
  · rename_i hnew
    have hno : st0.tracker.lookup p = none := by
      obtain ⟨b, hb⟩ := Option.isSome_iff_exists.1 ((hseen p).2 harg.pointerArg)
      have hval := hinfo p b hb
      cases htr : st0.tracker.lookup p with
      | none => rfl
      | some r =>
        rw [htr] at hval
        subst hval
        exact absurd hb hnew
    obtain ⟨r, hr⟩ := h.sane.held_tracked hh
    obtain ⟨c, hc⟩ := h.sane.context hr
    rw [disableFree_eq hr hc]
    refine ⟨h.sane.silence hr, h.fields.congr rfl, ?_, h.gone,
      fun q hq => (h.lent q hq).silence hr fun hqp => hqp ▸ hno, h.unloaded, h.returned⟩
    rw [lookup_setPrec, if_neg, h.loose]
    intro hc
    rw [← hc, h.loose] at hr
    cases hr

/-- An argument that stands for no object of the client is returned as it is. -/
theorem returnStruct_settled {s s' : Server} {a : Addr}
    (h : Settled st0 udata.loadedCobjects proto args fnArgs reply field s.store)
    (hseen : ∀ q, (infos.lookup q).isSome ↔ PointerArg proto args q) (hp : ObjectArg proto args p)
    (hok : returnStruct E (localRequestor E ffiCall) ffiClosureAlloc udata infos s p = .ok (s', a)) :
    Settled st0 udata.loadedCobjects proto args fnArgs reply field s'.store := by
  obtain ⟨s1, found, hask, hu⟩ := @isObject_intact E ffiCall s h.sane
    (rpcStructIdGet s.store p)
  unfold returnStruct at hok
  rw [if_neg (by rw [(h.unloaded p hp).2]; exact Bool.false_ne_true)] at hok
  obtain ⟨r, hr, hok⟩ := bind_eq_ok.1 hok
  rw [hask] at hr
  cases hr
  dsimp only at hok
  split at hok
  · cases hok
    exact h.intact hu
  · rw [if_pos ((hseen p).2 hp.pointerArg)] at hok
    cases hok

/-- One case for each type. All but the objects are read off the reply and leave the store
as it is. -/
theorem returnValue_settled {s s' : Server} {slot : ReturnSlot} {k : CStr}
    (h : Settled st0 udata.loadedCobjects proto args fnArgs reply field s.store)
    (hinfo : ∀ q b, infos.lookup q = some b → b = (st0.tracker.lookup q).isSome)
    (hseen : ∀ q, (infos.lookup q).isSome ↔ PointerArg proto args q)
    (hok : returnValue E (localRequestor E ffiCall) ffiClosureAlloc udata infos s
      (rpcStructGetInternal s.store reply k) = .ok (s', slot)) :
    Settled st0 udata.loadedCobjects proto args fnArgs reply field s'.store := by
  have hheld : ∀ p, (rpcStructGetInternal s.store reply k).target = some p →
      s.store.held reply k = some p := by
    intro p hp
    rw [rpcStructGetInternal] at hp
    cases he : s.store.entry reply k with
    | none =>
      rw [he] at hp
      cases hp
    | some e =>
      rw [he] at hp
      rw [State.held, he]
      exact hp
  unfold returnValue at hok
  split at hok
  · cases hok
    exact h
  · cases hok
    exact h
  · cases hok
    exact h
  · cases hok
    exact h
  · cases hok
    exact h
  -- a sizedbuf and a function
  · rename_i p he
    cases hok
    exact h.keepReturned hinfo hseen (hheld p (by rw [he]; rfl))
  · rename_i p he
    cases hok
    exact h.keepReturned hinfo hseen (hheld p (by rw [he]; rfl))
  -- a struct, which may have to be asked about
  · rename_i p he
    have hh := hheld p (by rw [he]; rfl)
    obtain ⟨r, hr, hok⟩ := bind_eq_ok.1 hok
    cases hok
    exact returnStruct_settled (h.keepReturned hinfo hseen hh) hseen (h.held hh) hr

/-- The records when the reply is gone. It takes nothing with it: whatever kept an argument
before the call keeps it now. -/
theorem Settled.freed (h : Settled st0 loaded proto args fnArgs reply field st) (hst0 : Sane st0)
    (hnew : ∀ a ∈ ({fnArgs, reply} : Set Addr), st0.heap.lookup a = none)
    (hok : rpcStructFree E st reply = .ok st') (hp : ObjectArg proto args p) :
    (∃ o o', st0.heap.lookup p = some o ∧ st'.heap.lookup p = some o' ∧ o'.type = o.type) ∧
    Option.Rel Prec.Same (st0.tracker.lookup p) (st'.tracker.lookup p) := by
  have hreply : ∀ a ∈ ({reply} : Set Addr), st0.heap.lookup a = none :=
    fun a ha => hnew a (.inr ha)
  have hcascade : st.cascade reply = {reply} := by
    refine Set.Subset.antisymm (cascade_subset rfl fun S hS k a hh => ?_)
      (Set.singleton_subset_iff.2 (self_mem_cascade st reply))
    rw [Set.mem_singleton_iff.1 hS] at hh
    exact .inr ((h.lent a (h.held hh)).anchored hst0 h.sane hnew hreply hh)
  obtain ⟨st1, hok1, hswept⟩ := h.sane.sweep E h.fields.struct h.loose hcascade
  rw [hok] at hok1
  cases hok1
  have hl := hswept.lent _ p st0 hst0 hnew hreply (h.lent p hp)
  refine ⟨hl.type, hl.back hst0 hswept.sane hnew fun S hS k hh => ?_⟩
  obtain ⟨o, ho⟩ := live_of_held hh
  rcases hS with rfl | rfl
  · rw [hswept.fresh _ h.gone] at ho
    cases ho
  · rw [hswept.gone _ rfl] at ho
    cases ho

/-- A function that returns one of its sizedbufs. -/
def returnsBuf (v : UInt64) : FfiCall := fun inv s =>
  (s, ⟨if inv.fn.returnType = RpcTypes.sizedbuf.code then v else 0, []⟩)

/-- It is harmless when that sizedbuf is one of its arguments. -/
theorem harmless_returnsBuf {r0 : Registry} {v : UInt64} {o : Obj}
    (ho : r0.store.heap.lookup v.toNat = some o) (hty : o.type = .sizedbuf)
    (hv : ObjectArg proto args v.toNat) : Harmless (returnsBuf v) r0 udata proto args := by
  have hvalue : ∀ inv s t p, RpcTypes.ofCode inv.fn.returnType = some t →
      (returnElement t (returnsBuf v inv s).2).target = some p → p ≠ 0 →
      t = .sizedbuf ∧ p = v.toNat := by
    intro inv s t p hcode hp hne
    have hval := target_returnElement hp
    unfold returnsBuf at hval
    dsimp only at hval
    split at hval
    · rename_i hbuf
      rw [hbuf, RpcTypes.ofCode_code] at hcode
      cases hcode
      exact ⟨rfl, hval.symm⟩
    · exact absurd hval.symm hne
  refine ⟨⟨fun inv s h => h.sane, fun inv s h a o' _ ho' => ⟨ho', rfl⟩,
    fun inv s h t p hcode hp hne => ?_⟩,
    fun inv s h p _ => ⟨fun o' ho' => ⟨o', ho', rfl⟩, rel_same_refl _⟩,
    fun inv s h t p hcode hp hne => ?_, fun inv s h p _ hu => hu⟩
  · obtain ⟨rfl, rfl⟩ := hvalue inv s t p hcode hp hne
    exact ⟨⟨o, h.heap _ o ho, hty⟩, fun hno => by rw [hno] at ho; cases ho⟩
  · obtain ⟨-, rfl⟩ := hvalue inv s t p hcode hp hne
    exact hv

end

def borrowProto : List UInt32 :=
  [RpcTypes.struct.code, RpcTypes.struct.code, RpcTypes.struct.code, RpcTypes.sizedbuf.code]

/-- An object with a function "f" of three structs and a sizedbuf; the client has loaded
nothing into 5. The struct 6 holds the struct 7; nothing holds 6 or the sizedbuf 8. -/
def borrowOps : List Op :=
  [.structCreate, .structCreate, .structCreate, .functionCreate,
    .setPrototype 4 borrowProto, .setReturnType 4 RpcTypes.sizedbuf.code, .set 3 [102] (.function 4),
    .set 1 (List.replicate 64 97) (.struct 3), .structCreate, .structCreate, .structCreate,
    .sizedbufCreate [7], .set 6 [107] (.struct 7)]

theorem ok_of_toOption {α ε : Type} {x : Except ε α} {a : α} (h : x.toOption = some a) :
    x = .ok a := by
  cases x with
  | error e => cases h
  | ok b =>
    cases h
    rfl

/-- 6 twice, then 7 and 8. -/
def borrowArgs : Nat → Passed
  | 0 | 1 => ⟨6, []⟩
  | 2 => ⟨7, []⟩
  | _ => ⟨8, []⟩

theorem borrowArgs_cases {i : Nat} {c : UInt32} (h : borrowProto[i]? = some c) :
    ∃ t v, RpcTypes.ofCode c = some t ∧ borrowArgs i = ⟨v, []⟩ ∧
      ((t, v) = (.struct, 6) ∨ (t, v) = (.struct, 7) ∨ (t, v) = (.sizedbuf, 8)) := by
  match i with
  | 0 | 1 =>
    cases h
    exact ⟨.struct, 6, rfl, rfl, .inl rfl⟩
  | 2 =>
    cases h
    exact ⟨.struct, 7, rfl, rfl, .inr (.inl rfl)⟩
  | 3 =>
    cases h
    exact ⟨.sizedbuf, 8, rfl, rfl, .inr (.inr rfl)⟩

theorem borrowArgs_object {p : Addr} (h : ObjectArg borrowProto borrowArgs p) :
    p = 6 ∨ p = 7 ∨ p = 8 := by
  obtain ⟨i, c, t, hi, hcode, ht⟩ := h
  obtain ⟨t', v, hcode', hargs, hcases⟩ := borrowArgs_cases hi
  rw [hcode] at hcode'
  cases hcode'
  rw [hargs] at ht
  rcases hcases with hc | hc | hc <;> cases hc <;> cases ht
  · exact .inl rfl
  · exact .inr (.inl rfl)
  · exact .inr (.inr rfl)

/-- The call, evaluated, with what has to be known of the store before it. -/
theorem borrow_call : ∃ st fn s', build .bump .empty borrowOps = some st ∧ graphApi.Reachable st ∧
    callRpcClosure .bump (localRequestor .bump (returnsBuf 8)) (fun _ _ => (0, 0)) ⟨5, [102], 4, 3⟩
      (callServer st) borrowArgs = .ok (s', .address 8) ∧
    RpcClosureUdata.function ⟨5, [102], 4, 3⟩ st = .ok fn ∧ fn.prototype = some borrowProto ∧
    Fits st borrowProto borrowArgs ∧
    Harmless (returnsBuf 8) (callServer st).toRegistry ⟨5, [102], 4, 3⟩ borrowProto borrowArgs ∧
    (∀ p, ObjectArg borrowProto borrowArgs p → Unloaded st 5 p) ∧
    st.tracker.lookup 6 = none ∧ st.tracker.lookup 8 = none ∧ (st.tracker.lookup 7).isSome = true := by
  have hruns : ((build .bump .empty borrowOps).map fun st =>
      decide ((callRpcClosure .bump (localRequestor .bump (returnsBuf 8)) (fun _ _ => (0, 0))
          ⟨5, [102], 4, 3⟩ (callServer st) borrowArgs).toOption.map Prod.snd = some (.address 8) ∧
        (RpcClosureUdata.function ⟨5, [102], 4, 3⟩ st).toOption.map RpcFunction.prototype =
          some (some borrowProto) ∧
        (st.struct? 5).isSome = true)) = some true := by
    decide +kernel
  have hfacts : ((build .bump .empty borrowOps).map fun st =>
      decide ((st.heap.lookup 6).map Obj.type = some .struct ∧
        (st.heap.lookup 7).map Obj.type = some .struct ∧
        (st.heap.lookup 8).map Obj.type = some .sizedbuf ∧
        (∀ p ∈ [6, 7, 8], rpcStructExists st 5 (rpcStructIdGet st p) = false) ∧
        st.tracker.lookup 6 = none ∧ st.tracker.lookup 8 = none ∧
        (st.tracker.lookup 7).isSome = true)) = some true := by
    decide +kernel
  obtain ⟨st, hst, hruns⟩ := Option.map_eq_some_iff.1 hruns
  rw [hst, Option.map_some, Option.some.injEq] at hfacts
  obtain ⟨hrun, hfn, hloaded⟩ := of_decide_eq_true hruns
  obtain ⟨hty6, hty7, hty8, hids, h6, h8, h7⟩ := of_decide_eq_true hfacts
  obtain ⟨⟨s', slot⟩, hrun, hslot⟩ := Option.map_eq_some_iff.1 hrun
  obtain ⟨fn, hfn, hproto⟩ := Option.map_eq_some_iff.1 hfn
  cases hslot
  have htyped : ∀ i c, borrowProto[i]? = some c → ∃ t v, RpcTypes.ofCode c = some t ∧
      borrowArgs i = ⟨v, []⟩ ∧ t ≠ .none ∧ v ≠ 0 ∧
      ∃ o, st.heap.lookup v.toNat = some o ∧ o.type = t := by
    intro i c hi
    obtain ⟨t, v, hcode, hargs, hcases⟩ := borrowArgs_cases hi
    rcases hcases with hc | hc | hc
    · cases hc
      exact ⟨_, _, hcode, hargs, by decide, by decide, Option.map_eq_some_iff.1 hty6⟩
    · cases hc
      exact ⟨_, _, hcode, hargs, by decide, by decide, Option.map_eq_some_iff.1 hty7⟩
    · cases hc
      exact ⟨_, _, hcode, hargs, by decide, by decide, Option.map_eq_some_iff.1 hty8⟩
  obtain ⟨o8, ho8, htype8⟩ := Option.map_eq_some_iff.1 hty8
  refine ⟨st, fn, s', hst, build_reachable (.init rfl) hst, ok_of_toOption hrun, ok_of_toOption hfn,
    hproto, ⟨fun i c hi => ?_⟩, harmless_returnsBuf ho8 htype8 ⟨3, _, .sizedbuf, rfl, rfl, rfl⟩,
    fun p hp => ⟨Option.isSome_iff_exists.1 hloaded, hids p ?_⟩, h6, h8, h7⟩
  · obtain ⟨t, v, hcode, hargs, hne, hv, o, ho, hty⟩ := htyped i c hi
    refine ⟨t, hcode, hne, fun _ => by rw [hargs]; exact hv, fun p hp => ⟨o, ?_, hty⟩⟩
    rw [hargs] at hp
    rw [← target_returnElement hp]
    exact ho
  · rcases borrowArgs_object hp with rfl | rfl | rfl <;> decide

end FfiRpc
