import FfiRpc.Object.Closure
import FfiRpc.Object.Reply
import FfiRpc.Store.Callbacks

/-!
# The request of a call

What `call_rpc_closure` has built when it sends its request, for arguments that are what
the prototype says (`Fits`): `packRequest_spec`. Argument `i` is under the decimal of `i`;
an object that had no record has one whose callback is off; everything else is as before
(`Lent`). `arg_info_storage` has the pointers among the arguments, each with whether it had
a record before the call.
-/
namespace FfiRpc

open State

/-! ## What is handed to a closure -/

/-- An identifier as `rpc_struct_create` makes it. -/
def RpcStruct.RandomId (s : RpcStruct) : Prop :=
  ∃ id, s.ID = id ++ [0] ∧ id.length = 64 ∧ ∀ b ∈ id, b ∈ idAlphabet

/-- `S` is a struct of the call's own with the fields `l`, each with its value. -/
structure HasFields (st : State) (S : Addr) (l : List (CStr × RpcTypeT)) : Prop where
  struct : ∃ s, st.struct? S = some s
  entry : ∀ k, Option.Rel RpcTypeT.SameValue (l.lookup k) (st.entry S k)
  randomId : ∀ s, st.struct? S = some s → s.RandomId

/-- The arguments are what the prototype says: pointers that are not `NULL`, to live
objects of the type. -/
structure Fits (st : State) (proto : List UInt32) (args : Nat → Passed) : Prop where
  typed : ∀ i c, proto[i]? = some c → ∃ t, RpcTypes.ofCode c = some t ∧ t ≠ .none ∧
    (rpcIsPointer t = true → (args i).value ≠ 0) ∧
    ∀ p, (returnElement t (args i)).target = some p →
      ∃ o, st.heap.lookup p = some o ∧ o.type = t

/-- `p` is a pointer among the arguments. -/
def PointerArg (proto : List UInt32) (args : Nat → Passed) (p : Addr) : Prop :=
  ∃ i c t, proto[i]? = some c ∧ RpcTypes.ofCode c = some t ∧ rpcIsPointer t = true ∧
    (returnElement t (args i)).ptrValue = p

/-- `p` is a struct, sizedbuf or function among the arguments. -/
def ObjectArg (proto : List UInt32) (args : Nat → Passed) (p : Addr) : Prop :=
  ∃ i c t, proto[i]? = some c ∧ RpcTypes.ofCode c = some t ∧
    (returnElement t (args i)).target = some p

/-- The objects among the arguments are live before anything is built. -/
theorem Fits.live {st : State} {proto : List UInt32} {args : Nat → Passed}
    (h : Fits st proto args) {p : Addr} (hp : ObjectArg proto args p) :
    ∃ o, st.heap.lookup p = some o := by
  obtain ⟨i, c, t, hi, hcode, ht⟩ := hp
  obtain ⟨t', hcode', -, -, htgt⟩ := h.typed i c hi
  rw [hcode] at hcode'
  cases hcode'
  obtain ⟨o, ho, -⟩ := htgt p ht
  exact ⟨o, ho⟩

/-- The codes of the prototype are types of values. -/
theorem Fits.code {st : State} {proto : List UInt32} {args : Nat → Passed} (h : Fits st proto args)
    (i : Nat) (c : UInt32) (hi : proto[i]? = some c) : ∃ t, RpcTypes.ofCode c = some t ∧ t ≠ .none := by
  obtain ⟨t, hcode, hne, -⟩ := h.typed i c hi
  exact ⟨t, hcode, hne⟩

/-- A closure that finds its function has its struct. -/
theorem RpcClosureUdata.function_cobj {udata : RpcClosureUdata} {st : State} {fn : RpcFunction}
    (h : udata.function st = .ok fn) : ∃ c, st.struct? udata.cobj = some c := by
  unfold RpcClosureUdata.function at h
  split at h
  · exact ⟨_, ‹_›⟩
  · cases h
  · cases h

/-- `fnArgs` has the arguments for `proto`, and `infos` their pointers; `st0` is the state
before they were packed. -/
structure ArgsPacked (st0 st : State) (fnArgs : Addr) (proto : List UInt32) (args : Nat → Passed)
    (infos : Table Addr Bool) : Prop where
  sane : Sane st
  struct : ∃ s0 s, st0.struct? fnArgs = some s0 ∧ st.struct? fnArgs = some s ∧ s.ID = s0.ID
  heap : ∀ a, a ≠ fnArgs → st.heap.lookup a = st0.heap.lookup a
  entry : ∀ k e, st.entry fnArgs k = some e → ∃ i c t, proto[i]? = some c ∧
    RpcTypes.ofCode c = some t ∧ k = decimal i ∧ (returnElement t (args i)).SameValue e
  packed : ∀ i c t, proto[i]? = some c → RpcTypes.ofCode c = some t →
    ∃ e, st.entry fnArgs (decimal i) = some e ∧ (returnElement t (args i)).SameValue e
  lent : ∀ stB X p, fnArgs ∈ X → Lent X p stB st0 → Lent X p stB st
  info : ∀ p b, infos.lookup p = some b → b = (st0.tracker.lookup p).isSome
  seen : ∀ p, (infos.lookup p).isSome ↔ PointerArg proto args p
  others : ∀ p, ¬ ObjectArg proto args p → st.tracker.lookup p = st0.tracker.lookup p

/-! ### One insertion

`setAsserted` on a struct of the call never meets its assertion: the key is free and the
element is not `NULL`. What an insertion leaves is named `inserted`, so that its heap, its
entries and its records can each be stated once. -/

section
variable {E : Env} {st st0 : State} {S : Addr} {s : RpcStruct} {k : CStr} {e : RpcTypeT}

/-- On a record with a context, `ctx->free = NULL` silences the record and that is all. -/
theorem disableFree_eq {p : Addr} {r : Prec} (hr : st.tracker.lookup p = some r) {c : PrecPtrCtx}
    (hc : r.context = some c) : disableFree st p = st.setPrec p r.silenced := by
  obtain ⟨n, context⟩ := r
  cases hc
  unfold disableFree
  rw [hr]
  rfl

/-- The struct after an insertion. -/
def inserted (E : Env) (st : State) (S : Addr) (s : RpcStruct) (k : CStr) (e : RpcTypeT) : State :=
  (trackElement st S k e).setObj S (.struct { s with map := s.map.insert k (strdupElement E st e) })

theorem setAsserted_fresh (hs : st.struct? S = some s) (hk : s.map.lookup k = none)
    (hnn : rpcIsPointer e.type = true → e.ptrValue ≠ 0) :
    setAsserted E st S k e = .ok (inserted E st S s k e) := by
  have hfree : ¬ rpcStructExists st S k = true := by
    simp [rpcStructExists, rpcStructGetInternal, entry_of_struct hs, hk, RpcTypeT.type]
  unfold setAsserted
  rw [rpcStructSet, if_neg hfree, setInternal_fresh hs hk hnn]
  rfl

theorem entry_inserted (hs : st.struct? S = some s) (S' : Addr) (k' : CStr) :
    (inserted E st S s k e).entry S' k' =
      if S' = S ∧ k' = k then some (strdupElement E st e) else st.entry S' k' :=
  entry_insert hs (heap_trackElement S k e) k _ S' k'

theorem heap_inserted {a : Addr} (ha : a ≠ S) :
    (inserted E st S s k e).heap.lookup a = st.heap.lookup a := by
  rw [inserted, lookup_setObj, if_neg ha, heap_trackElement]

theorem struct_inserted :
    (inserted E st S s k e).struct? S =
      some { s with map := s.map.insert k (strdupElement E st e) } := by
  rw [inserted, struct?_setObj_struct, if_pos rfl]

theorem tracker_inserted {q : Addr} (hq : e.target ≠ some q) :
    (inserted E st S s k e).tracker.lookup q = st.tracker.lookup q := by
  rw [inserted, tracker_setObj, trackElement_other S k hq]

/-- An entry of a struct in `X`, whichever object it is for. The new holder is in `X`, so
an object with a record gains nothing that `Lent` counts; one without is the business of
`setUntracked`. -/
theorem Lent.setEntry {X : Set Addr} {p : Addr} {stB : State} (h : Lent X p stB st) (hst : Sane st)
    (hs : st.struct? S = some s) (hS : S ∈ X) (hk : s.map.lookup k = none)
    (hsurplus : ∀ q r, (inserted E st S s k e).tracker.lookup q = some r →
      (inserted E st S s k e).surplus q = st.surplus q)
    (hp : e.target = some p → ∃ r, st.tracker.lookup p = some r) :
    Lent X p stB (inserted E st S s k e) := by
  by_cases ht : e.target = some p
  · obtain ⟨r, hr⟩ := hp ht
    exact h.setTracked hst hs hS ht hr rfl hsurplus
  · exact h.setOther hs hk (target_strdupElement e) ht

end

/-! ## The arguments

The loop over the prototype, one argument more at a time: `ArgsPacked` is about the
prefix `l` packed so far, and `l ++ [c]` is the prefix after the turn. `pointer` is the
turn for the five pointer types, `argument` the turn for any type. -/

section
variable {E : Env} {st st0 : State} {fnArgs : Addr} {l : List UInt32} {args : Nat → Passed}
  {infos : Table Addr Bool} {c : UInt32} {t : RpcTypes}

theorem getElem?_concat_eq_some {α : Type} {l : List α} {a b : α} {i : Nat} :
    (l ++ [a])[i]? = some b ↔ l[i]? = some b ∨ i = l.length ∧ b = a := by
  rcases Nat.lt_trichotomy i l.length with hi | hi | hi
  · rw [List.getElem?_append_left hi]
    constructor
    · exact .inl
    · intro h
      exact h.resolve_right fun hc => by omega
  · subst hi
    simp [eq_comm]
  · rw [List.getElem?_eq_none (by rw [List.length_append, List.length_singleton]; omega),
      List.getElem?_eq_none hi.le]
    simp only [reduceCtorEq, false_or, false_iff, not_and]
    omega

/-- The pointers of one argument more. -/
theorem pointerArg_concat (hcode : RpcTypes.ofCode c = some t) {p : Addr} :
    PointerArg (l ++ [c]) args p ↔ PointerArg l args p ∨
      rpcIsPointer t = true ∧ (returnElement t (args l.length)).ptrValue = p := by
  constructor
  · intro h
    obtain ⟨i, c', t', hi, hcode', hptr, hp⟩ := h
    rcases getElem?_concat_eq_some.1 hi with hi | ⟨rfl, rfl⟩
    · exact .inl ⟨i, c', t', hi, hcode', hptr, hp⟩
    · rw [hcode] at hcode'
      cases hcode'
      exact .inr ⟨hptr, hp⟩
  · intro h
    rcases h with ⟨i, c', t', hi, hcode', hptr, hp⟩ | ⟨hptr, hp⟩
    · exact ⟨i, c', t', getElem?_concat_eq_some.2 (.inl hi), hcode', hptr, hp⟩
    · exact ⟨l.length, c, t, getElem?_concat_eq_some.2 (.inr ⟨rfl, rfl⟩), hcode, hptr, hp⟩

/-- A number and a real are stored in eight bytes, which is a width they may have. -/
theorem sized_returnElement (hne : t ≠ .none) (arg : Passed) : (returnElement t arg).Sized := by
  cases t with
  | none => exact absurd rfl hne
  | number =>
    show (toLE 8 arg.value.toNat).length ∈ [1, 2, 4, 8]
    rw [length_toLE]
    decide
  | real =>
    show (toLE 8 arg.value.toNat).length ∈ [4, 8]
    rw [length_toLE]
    decide
  | _ => trivial

/-- The objects among the arguments are in `arg_info_storage`. -/
theorem ObjectArg.pointerArg {proto : List UInt32} {p : Addr} (h : ObjectArg proto args p) :
    PointerArg proto args p := by
  obtain ⟨i, c, t, hi, hcode, ht⟩ := h
  obtain ⟨hptr, hp⟩ := rpcIsPointer_of_target ht
  rw [type_returnElement] at hptr
  exact ⟨i, c, t, hi, hcode, hptr, hp⟩

/-- A pointer not met so far has its record from before the loop. -/
theorem ArgsPacked.unseen (h : ArgsPacked st0 st fnArgs l args infos) {p : Addr}
    (hp : infos.lookup p = none) : st.tracker.lookup p = st0.tracker.lookup p := by
  refine h.others p fun hc => ?_
  have := (h.seen p).2 hc.pointerArg
  rw [hp] at this
  cases this

/-- The next position is free: no two positions print alike. -/
theorem ArgsPacked.fresh (h : ArgsPacked st0 st fnArgs l args infos) {s : RpcStruct}
    (hs : st.struct? fnArgs = some s) : s.map.lookup (decimal l.length) = none := by
  cases hk : s.map.lookup (decimal l.length) with
  | none => rfl
  | some e =>
    obtain ⟨i, c, t, hi, -, hkey, -⟩ := h.entry (decimal l.length) e (by rw [entry_of_struct hs, hk])
    have hlt := (List.getElem?_eq_some_iff.1 hi).1
    have := decimal_injective hkey
    omega

/-- One argument more: `st2` is the store with its entry, but for records. -/
theorem ArgsPacked.extend (h : ArgsPacked st0 st fnArgs l args infos) {s : RpcStruct}
    (hs : st.struct? fnArgs = some s) (hcode : RpcTypes.ofCode c = some t) {st2 : State}
    {infos2 : Table Addr Bool}
    (hheap : st2.heap = (inserted E st fnArgs s (decimal l.length)
      (returnElement t (args l.length))).heap)
    (hsane : Sane st2) (hlent : ∀ stB X p, fnArgs ∈ X → Lent X p stB st → Lent X p stB st2)
    (hinfo : ∀ p b, infos2.lookup p = some b → b = (st0.tracker.lookup p).isSome)
    (hseen : ∀ p, (infos2.lookup p).isSome ↔ (infos.lookup p).isSome ∨
      rpcIsPointer t = true ∧ (returnElement t (args l.length)).ptrValue = p)
    (hothers : ∀ p, (returnElement t (args l.length)).target ≠ some p →
      st2.tracker.lookup p = st.tracker.lookup p) :
    ArgsPacked st0 st2 fnArgs (l ++ [c]) args infos2 := by
  set e := returnElement t (args l.length) with he
  have hentry : ∀ k, st2.entry fnArgs k =
      if k = decimal l.length then some (strdupElement E st e) else st.entry fnArgs k := by
    intro k
    have hsame : st2.entry fnArgs k = (inserted E st fnArgs s (decimal l.length) e).entry fnArgs k :=
      entry_congr (by rw [hheap]) k
    rw [hsame, entry_inserted hs]
    simp
  obtain ⟨s0, s', hs0, hs', hid⟩ := h.struct
  rw [hs] at hs'
  cases hs'
  refine ⟨hsane, ⟨s0, _, hs0, (struct?_congr (by rw [hheap])).trans struct_inserted, hid⟩,
    fun a ha => ?_, fun k e' hk => ?_, fun i c' t' hi hcode' => ?_,
    fun stB X p hX hl => hlent stB X p hX (h.lent stB X p hX hl), hinfo, fun p => ?_, fun p hp => ?_⟩
  · rw [hheap, heap_inserted ha, h.heap a ha]
  · rw [hentry] at hk
    split at hk
    · rename_i hkey
      cases hk
      exact ⟨l.length, c, t, getElem?_concat_eq_some.2 (.inr ⟨rfl, rfl⟩), hcode, hkey,
        sameValue_strdupElement e⟩
    · obtain ⟨i, c', t', hi, hcode', hkey, hv⟩ := h.entry k e' hk
      exact ⟨i, c', t', getElem?_concat_eq_some.2 (.inl hi), hcode', hkey, hv⟩
  · rw [hentry]
    rcases getElem?_concat_eq_some.1 hi with hi | ⟨rfl, rfl⟩
    · have hlt := (List.getElem?_eq_some_iff.1 hi).1
      rw [if_neg fun hc => by have := decimal_injective hc; omega]
      exact h.packed i c' t' hi hcode'
    · rw [hcode] at hcode'
      cases hcode'
      exact ⟨_, if_pos rfl, sameValue_strdupElement e⟩
  · rw [hseen, h.seen, pointerArg_concat hcode]
  · rw [hothers p fun ht => hp ?_, h.others p fun hc => hp ?_]
    · obtain ⟨i, c', t', hi, hcode', ht⟩ := hc
      exact ⟨i, c', t', getElem?_concat_eq_some.2 (.inl hi), hcode', ht⟩
    · exact ⟨l.length, c, t, getElem?_concat_eq_some.2 (.inr ⟨rfl, rfl⟩), hcode, ht⟩

/-- `arg_info_storage` with one pointer more. -/
def addInfo (infos : Table Addr Bool) (p : Addr) (wasRefcounted : Bool) : Table Addr Bool :=
  match infos.lookup p with
  | some _ => infos
  | none => infos.insert p wasRefcounted

/-- The first answer for a pointer stays: by its second turn an object has a record. -/
theorem lookup_addInfo (p q : Addr) (b : Bool) :
    (addInfo infos p b).lookup q =
      if q = p ∧ infos.lookup p = none then some b else infos.lookup q := by
  unfold addInfo
  cases hp : infos.lookup p with
  | some b' => simp
  | none =>
    simp only [Table.lookup_insert_if, and_true]

/-- A pointer argument. An object that had no record gets one by the insertion, and its
callback is switched off at once; the assertion in between holds, since the record has a
context. Strings and pointers of unknown type have no records and are left as they are. -/
theorem ArgsPacked.pointer (h : ArgsPacked st0 st fnArgs l args infos)
    (hcode : RpcTypes.ofCode c = some t) (hptr : rpcIsPointer t = true)
    (hnn : (returnElement t (args l.length)).ptrValue ≠ 0)
    (htgt : ∀ p, (returnElement t (args l.length)).target = some p →
      p ≠ fnArgs ∧ ∃ o, st0.heap.lookup p = some o ∧ o.type = t) :
    ∃ packed, packPointer E fnArgs ⟨st, infos⟩ l.length (returnElement t (args l.length)) =
        .ok packed ∧
      ArgsPacked st0 packed.store fnArgs (l ++ [c]) args packed.infos := by
  obtain ⟨-, s, -, hs, -⟩ := h.struct
  have hk := h.fresh hs
  set e := returnElement t (args l.length) with he
  set p := e.ptrValue with hp
  have hty : e.type = t := type_returnElement t _
  have htlive : ∀ q, e.target = some q → ∃ o, st.heap.lookup q = some o ∧ o.type = e.type := by
    intro q hq
    obtain ⟨hqa, o, ho, hot⟩ := htgt q hq
    exact ⟨o, by rw [h.heap q hqa, ho], hot.trans hty.symm⟩
  have hne : t ≠ .none := by
    intro hc
    rw [hc] at hptr
    cases hptr
  obtain ⟨hsane, hsurplus⟩ := h.sane.setEntry E hs hk (sized_returnElement hne _) htlive
    (fun _ => hnn) rfl
  have hset : rpcStructSetInternal E st fnArgs (decimal l.length) e =
      .ok (inserted E st fnArgs s (decimal l.length) e, 0) := setInternal_fresh hs hk fun _ => hnn
  -- what `arg_info_storage` says of a pointer is how it was before: at its first turn, so far,
  -- nothing has touched its record
  have hinfo : ∀ q b, (addInfo infos p (rpcStructIsRefcounted st p)).lookup q = some b →
      b = (st0.tracker.lookup q).isSome := by
    intro q b hq
    rw [lookup_addInfo] at hq
    split at hq
    · rename_i hc
      cases hq
      rw [rpcStructIsRefcounted, hc.1, h.unseen hc.2]
    · exact h.info q b hq
  have hseen : ∀ q, ((addInfo infos p (rpcStructIsRefcounted st p)).lookup q).isSome ↔
      (infos.lookup q).isSome ∨ rpcIsPointer t = true ∧ p = q := by
    intro q
    rw [lookup_addInfo]
    by_cases hq : q = p
    · subst hq
      cases hl : infos.lookup p <;> simp [hptr]
    · simp [hq, Ne.symm hq]
  have hrun : packPointer E fnArgs ⟨st, infos⟩ l.length e =
      if rpcStructIsRefcounted st p = false ∧ e.type ≠ .string ∧ e.type ≠ .unknown then
        if (precContext (inserted E st fnArgs s (decimal l.length) e) p).isSome then
          .ok ⟨disableFree (inserted E st fnArgs s (decimal l.length) e) p,
            addInfo infos p (rpcStructIsRefcounted st p)⟩
        else .error .assertion
      else .ok ⟨inserted E st fnArgs s (decimal l.length) e,
        addInfo infos p (rpcStructIsRefcounted st p)⟩ := by
    unfold packPointer
    simp only [hset]
    rfl
  rw [hrun]
  by_cases hoff : rpcStructIsRefcounted st p = false ∧ e.type ≠ .string ∧ e.type ≠ .unknown
  · -- an object without a record
    rw [if_pos hoff]
    have hno : st.tracker.lookup p = none := by
      simpa [rpcStructIsRefcounted] using hoff.1
    have htp : e.target = some p := by
      have h1 := hoff.2.1
      have h2 := hoff.2.2
      rw [hty] at h1 h2
      rw [hp, he]
      cases t with
      | struct | sizedbuf | function => rfl
      | string => exact absurd rfl h1
      | unknown => exact absurd rfl h2
      | _ => cases hptr
    -- the insertion has made the record that is silenced here
    obtain ⟨r, hr⟩ : ∃ r, (inserted E st fnArgs s (decimal l.length) e).tracker.lookup p = some r :=
      ⟨_, by rw [inserted, tracker_setObj, lookup_trackElement htp, if_pos rfl]⟩
    obtain ⟨ctx, hctx⟩ := hsane.context hr
    have hsome : (precContext (inserted E st fnArgs s (decimal l.length) e) p).isSome = true := by
      rw [precContext, hr, Option.bind_some, hctx]
      rfl
    rw [if_pos hsome, disableFree_eq hr hctx]
    refine ⟨_, rfl, h.extend hs hcode rfl (hsane.silence hr) (fun stB X q hX hl => ?_) hinfo hseen
      fun q hq => ?_⟩
    · by_cases hqp : q = p
      · rw [hqp] at hl ⊢
        exact hl.setUntracked hs hX hno rfl hsurplus hr
      · have ht : e.target ≠ some q := fun hc => hqp (Option.some.inj (hc.symm.trans htp))
        exact (hl.setOther hs hk (target_strdupElement e) ht).silence hr
          fun hc => absurd hc.symm hqp
    · have hqp : q ≠ p := fun hc => hq (hc ▸ htp)
      rw [lookup_setPrec, if_neg hqp, tracker_inserted hq]
  · -- an object with a record, or no object
    rw [if_neg hoff]
    refine ⟨_, rfl, h.extend hs hcode rfl hsane (fun stB X q hX hl => ?_) hinfo hseen
      fun q hq => tracker_inserted hq⟩
    refine hl.setEntry h.sane hs hX hk hsurplus fun ht => ?_
    have hqp : p = q := (rpcIsPointer_of_target ht).2
    cases hr : st.tracker.lookup q with
    | some r => exact ⟨r, rfl⟩
    | none =>
      exfalso
      refine hoff ⟨by rw [rpcStructIsRefcounted, hqp, hr]; rfl, fun hc => ?_, fun hc => ?_⟩
      · rw [hty] at hc
        rw [he, hc] at ht
        cases ht
      · rw [hty] at hc
        rw [he, hc] at ht
        cases ht

/-- Any argument. A number and a real are inserted and nothing else is done. -/
theorem ArgsPacked.argument (h : ArgsPacked st0 st fnArgs l args infos)
    (hcode : RpcTypes.ofCode c = some t) (hne : t ≠ .none)
    (hnn : rpcIsPointer t = true → (args l.length).value ≠ 0)
    (htgt : ∀ p, (returnElement t (args l.length)).target = some p →
      p ≠ fnArgs ∧ ∃ o, st0.heap.lookup p = some o ∧ o.type = t) :
    ∃ packed, packArgument E fnArgs args ⟨st, infos⟩ (c, l.length) = .ok packed ∧
      ArgsPacked st0 packed.store fnArgs (l ++ [c]) args packed.infos := by
  have hplain : rpcIsPointer t = false → ∃ st1, setAsserted E st fnArgs (decimal l.length)
      (returnElement t (args l.length)) = .ok st1 ∧
      ArgsPacked st0 st1 fnArgs (l ++ [c]) args infos := by
    intro hptr
    obtain ⟨-, s, -, hs, -⟩ := h.struct
    have hk := h.fresh hs
    have hnotarget : ∀ q, (returnElement t (args l.length)).target ≠ some q := by
      intro q hq
      have := (rpcIsPointer_of_target hq).1
      rw [type_returnElement, hptr] at this
      cases this
    have hnull : rpcIsPointer (returnElement t (args l.length)).type = true →
        (returnElement t (args l.length)).ptrValue ≠ 0 := by
      intro hc
      rw [type_returnElement, hptr] at hc
      cases hc
    obtain ⟨hsane, hsurplus⟩ := h.sane.setEntry E hs hk (sized_returnElement hne _)
      (fun q hq => absurd hq (hnotarget q)) hnull rfl
    refine ⟨_, setAsserted_fresh hs hk hnull, h.extend hs hcode rfl hsane (fun stB X q hX hl =>
      hl.setEntry h.sane hs hX hk hsurplus fun ht => absurd ht (hnotarget q)) h.info
      (fun q => by simp [hptr]) fun q hq => tracker_inserted hq⟩
  have hvalue : rpcIsPointer t = true → (returnElement t (args l.length)).ptrValue ≠ 0 := by
    intro hptr hc
    have hzero : (args l.length).value.toNat = 0 := by
      cases t with
      | none | number | real => cases hptr
      | _ => exact hc
    exact hnn hptr (UInt64.toNat_inj.1 hzero)
  unfold packArgument
  rw [hcode]
  cases t with
  | none => exact absurd rfl hne
  | number =>
    obtain ⟨st1, hset, h1⟩ := hplain rfl
    exact ⟨⟨st1, infos⟩, by simp only [hset]; rfl, h1⟩
  | real =>
    obtain ⟨st1, hset, h1⟩ := hplain rfl
    exact ⟨⟨st1, infos⟩, by simp only [hset]; rfl, h1⟩
  | _ => exact h.pointer hcode rfl (hvalue rfl) htgt

end

/-! ## The request

`call_rpc_closure` makes three structs and nests them: `params` of the request is the
call's struct, `params` of that the arguments. `HasFields` follows a struct through the
insertions into the others, `FieldAdded` is one insertion into it. -/

section
variable {E : Env} {st st' st0 : State} {S : Addr} {l : List (CStr × RpcTypeT)} {k : CStr} {e : RpcTypeT}

/-- A struct nobody writes to keeps its fields. -/
theorem HasFields.congr (h : HasFields st S l) (hheap : st'.heap.lookup S = st.heap.lookup S) :
    HasFields st' S l := by
  refine ⟨?_, fun k => ?_, ?_⟩
  · rw [struct?_congr hheap]
    exact h.struct
  · rw [entry_congr hheap]
    exact h.entry k
  · rw [struct?_congr hheap]
    exact h.randomId

theorem HasFields.get (h : HasFields st S l) (hk : l.lookup k = some e) :
    e.SameValue (rpcStructGetInternal st S k) := by
  have hrel := h.entry k
  unfold rpcStructGetInternal
  rw [hk] at hrel
  cases he : st.entry S k with
  | none =>
    rw [he] at hrel
    cases hrel
  | some e' =>
    rw [he] at hrel
    cases hrel with
    | some hv => exact hv

theorem HasFields.getString (h : HasFields st S l) {a : Addr} {text : CStr}
    (hk : l.lookup k = some (.string a text)) : rpcStructGetString st S k = some text := by
  have hv := h.get hk
  unfold rpcStructGetString
  cases hget : rpcStructGetInternal st S k with
  | string b text' =>
    rw [hget] at hv
    cases hv
    rfl
  | _ =>
    rw [hget] at hv
    cases hv

theorem HasFields.getStruct (h : HasFields st S l) {a : Addr} (hk : l.lookup k = some (.struct a)) :
    rpcStructGetStruct st S k = some a := by
  have hv : rpcStructGetInternal st S k = .struct a := h.get hk
  rw [rpcStructGetStruct, hv]

/-- What the struct has is one of its fields. -/
theorem HasFields.mem (h : HasFields st S l) (he : st.entry S k = some e) :
    ∃ e0, (k, e0) ∈ l ∧ e0.SameValue e := by
  have hrel := h.entry k
  rw [he] at hrel
  cases hl : l.lookup k with
  | none =>
    rw [hl] at hrel
    cases hrel
  | some e0 =>
    rw [hl] at hrel
    cases hrel with
    | some hv =>
      obtain ⟨l1, l2, rfl, -⟩ := List.lookup_eq_some_iff.1 hl
      exact ⟨e0, by simp, hv⟩

/-- And what it holds is the object of one of them. -/
theorem HasFields.held (h : HasFields st S l) {p : Addr} (hh : st.held S k = some p) :
    ∃ f ∈ l, f.2.target = some p := by
  obtain ⟨e, he, ht⟩ := Option.bind_eq_some_iff.1 hh
  obtain ⟨e0, hmem, hv⟩ := h.mem he
  exact ⟨(k, e0), hmem, hv.target.symm.trans ht⟩

/-- The struct just made. -/
theorem hasFields_create (E : Env) (st : State) :
    HasFields (rpcStructCreate E st).1 (rpcStructCreate E st).2 [] := by
  have hs : (rpcStructCreate E st).1.struct? (rpcStructCreate E st).2 =
      some ⟨∅, E.random st ++ [0], 0⟩ := by
    rw [rpcStructCreate, struct?_setObj_struct, if_pos rfl]
  refine ⟨⟨_, hs⟩, fun k => ?_, fun s hs' => ?_⟩
  · rw [entry_of_struct hs]
    exact .none
  · rw [hs] at hs'
    cases hs'
    exact ⟨E.random st, rfl, E.random_length st, E.random_mem st⟩

/-- One more field in `S`, which is all that has changed. -/
structure FieldAdded (S : Addr) (k : CStr) (e : RpcTypeT) (l : List (CStr × RpcTypeT)) (st st' : State) :
    Prop where
  sane : Sane st'
  fields : HasFields st' S ((k, e) :: l)
  heap : ∀ a, a ≠ S → st'.heap.lookup a = st.heap.lookup a
  tracker : ∀ q, e.target ≠ some q → st'.tracker.lookup q = st.tracker.lookup q
  lent : ∀ st0 X p, e.target ≠ some p → Lent X p st0 st → Lent X p st0 st'
  sole : ∀ q, e.target = some q → st.tracker.lookup q = none → st'.Sole q S

/-- A field under a free key. -/
theorem HasFields.set (h : HasFields st S l) (hst : Sane st) (E : Env) (hk : l.lookup k = none)
    (hsz : e.Sized) (htgt : ∀ p, e.target = some p → ∃ o, st.heap.lookup p = some o ∧ o.type = e.type)
    (hnn : rpcIsPointer e.type = true → e.ptrValue ≠ 0) :
    ∃ st', setAsserted E st S k e = .ok st' ∧ FieldAdded S k e l st st' := by
  obtain ⟨s, hs⟩ := h.struct
  have hfree : s.map.lookup k = none := by
    have hrel := h.entry k
    rw [hk, entry_of_struct hs] at hrel
    cases hrel' : s.map.lookup k with
    | none => rfl
    | some e' =>
      rw [hrel'] at hrel
      cases hrel
  refine ⟨_, setAsserted_fresh hs hfree hnn, (hst.setEntry E hs hfree hsz htgt hnn rfl).1,
    ⟨⟨_, struct_inserted⟩, fun k' => ?_, fun s' hs' => ?_⟩, fun a ha => heap_inserted ha,
    fun q hq => tracker_inserted hq,
    fun st0 X p hp hl => hl.setOther hs hfree (target_strdupElement e) hp,
    fun q hq hno => hst.setEntry_sole E hs hfree hsz htgt hnn hq hno rfl⟩
  · rw [entry_inserted hs, List.lookup_cons]
    by_cases hkk : k' = k
    · subst hkk
      simp only [true_and, if_true, beq_self_eq_true]
      exact .some (sameValue_strdupElement e)
    · rw [if_neg fun hc => hkk hc.2, show (k' == k) = false from beq_false_of_ne hkk]
      exact h.entry k'
  · rw [struct_inserted] at hs'
    cases hs'
    exact h.randomId s hs

/-- A struct made. -/
structure Created (st st' : State) (S : Addr) : Prop where
  dead : st.heap.lookup S = none
  sane : Sane st'
  fields : HasFields st' S []
  heap : ∀ a, a ≠ S → st'.heap.lookup a = st.heap.lookup a
  tracker : st'.tracker = st.tracker
  lent : ∀ st0 X p, Lent X p st0 st → Lent X p st0 st'

theorem Sane.created (h : Sane st) (E : Env) :
    Created st (rpcStructCreate E st).1 (rpcStructCreate E st).2 := by
  refine ⟨malloc_dead E st, h.create E fun s hs => ?_, hasFields_create E st, fun a ha => ?_, rfl,
    fun st0 X p hl => hl.create E fun s hs => ?_⟩
  · cases hs
    exact ⟨by rw [List.length_append, E.random_length]; rfl, rfl⟩
  · exact (lookup_setObj ..).trans (if_neg ha)
  · cases hs
    rfl

/-- It takes the place of no object. -/
theorem Created.live (h : Created st st' S) {a : Addr} {o : Obj} (ha : st.heap.lookup a = some o) :
    st'.heap.lookup a = some o := by
  rw [h.heap a, ha]
  intro hc
  rw [hc, h.dead] at ha
  cases ha

end

section
variable {E : Env} {st st0 : State} {fnArgs : Addr} {args : Nat → Passed}

/-- Before the first turn. -/
theorem argsPacked_nil (hst : Sane st) (hf : HasFields st fnArgs []) :
    ArgsPacked st st fnArgs [] args ∅ := by
  obtain ⟨s, hs⟩ := hf.struct
  refine ⟨hst, ⟨s, s, hs, hs, rfl⟩, fun _ _ => rfl, fun k e he => ?_, fun i c t hi => ?_,
    fun _ _ _ _ hl => hl, fun p b hb => ?_, fun p => ⟨fun hp => ?_, fun hp => ?_⟩, fun _ _ => rfl⟩
  · have hrel := hf.entry k
    rw [he] at hrel
    cases hrel
  · cases hi
  · cases hb
  · cases hp
  · obtain ⟨i, c, t, hi, -⟩ := hp
    cases hi

/-- The loop over the prototype, by induction from its end: the last turn comes after the
turns of the prefix. -/
theorem packArguments_spec (hst : Sane st) (hf : HasFields st fnArgs []) {proto : List UInt32}
    (htyped : ∀ i c, proto[i]? = some c → ∃ t, RpcTypes.ofCode c = some t ∧ t ≠ .none ∧
      (rpcIsPointer t = true → (args i).value ≠ 0) ∧
      ∀ p, (returnElement t (args i)).target = some p →
        p ≠ fnArgs ∧ ∃ o, st.heap.lookup p = some o ∧ o.type = t) :
    ∃ packed, proto.zipIdx.foldlM (packArgument E fnArgs args) ⟨st, ∅⟩ = .ok packed ∧
      ArgsPacked st packed.store fnArgs proto args packed.infos := by
  induction proto using List.reverseRecOn with
  | nil => exact ⟨⟨st, ∅⟩, rfl, argsPacked_nil hst hf⟩
  | append_singleton l c ih =>
    obtain ⟨packed, hloop, hpacked⟩ := ih fun i c' hi =>
      htyped i c' (getElem?_concat_eq_some.2 (.inl hi))
    obtain ⟨t, hcode, hne, hnn, htgt⟩ := htyped l.length c (getElem?_concat_eq_some.2 (.inr ⟨rfl, rfl⟩))
    obtain ⟨packed', hturn, hpacked'⟩ := hpacked.argument hcode hne hnn htgt
    refine ⟨packed', ?_, hpacked'⟩
    rw [List.zipIdx_append, List.foldlM_append, hloop]
    simp only [Nat.zero_add, List.zipIdx_cons, List.zipIdx_nil, List.foldlM_cons, List.foldlM_nil]
    exact bind_eq_ok.2 ⟨packed, rfl, bind_eq_ok.2 ⟨packed', hturn, rfl⟩⟩

end

section
variable {E : Env} {st st' st0 : State}

/-- The store once the request is built. The three structs are new, different, and hold one
another and the arguments; what was there before is untouched but for the records of the
arguments (`lent`, `info`). -/
structure Requested (udata : RpcClosureUdata) (proto : List UInt32) (args : Nat → Passed)
    (st0 st : State) (infos : Table Addr Bool) (request callRequest fnArgs : Addr) : Prop where
  sane : Sane st
  new : ∀ a ∈ [request, callRequest, fnArgs], st0.heap.lookup a = none
  apart : [request, callRequest, fnArgs].Nodup
  heap : ∀ a, a ∉ [request, callRequest, fnArgs] → st.heap.lookup a = st0.heap.lookup a
  loose : st.tracker.lookup request = none
  outer : HasFields st request [(ascii "params", .struct callRequest),
    (ascii "method", .string 1 (ascii "call"))]
  inner : HasFields st callRequest [(ascii "params", .struct fnArgs),
    (ascii "function", .string 1 udata.fnName),
    (ascii "object", .string 1 (rpcStructIdGet st0 udata.cobj))]
  struct : ∃ s, st.struct? fnArgs = some s ∧ s.RandomId
  entry : ∀ k e, st.entry fnArgs k = some e → ∃ i c t, proto[i]? = some c ∧
    RpcTypes.ofCode c = some t ∧ k = decimal i ∧ (returnElement t (args i)).SameValue e
  packed : ∀ i c t, proto[i]? = some c → RpcTypes.ofCode c = some t →
    ∃ e, st.entry fnArgs (decimal i) = some e ∧ (returnElement t (args i)).SameValue e
  sole : st.Sole callRequest request ∧ st.Sole fnArgs callRequest
  lent : ∀ p, (∃ o, st0.heap.lookup p = some o) → Lent {fnArgs} p st0 st
  info : ∀ p b, infos.lookup p = some b → b = (st0.tracker.lookup p).isSome
  seen : ∀ p, (infos.lookup p).isSome ↔ PointerArg proto args p

section
variable {udata : RpcClosureUdata} {proto : List UInt32} {args : Nat → Passed}
  {infos : Table Addr Bool} {request callRequest fnArgs : Addr}

theorem Requested.live (h : Requested udata proto args st0 st infos request callRequest fnArgs)
    {a : Addr} {o : Obj} (ho : st0.heap.lookup a = some o) : st.heap.lookup a = some o := by
  rw [h.heap a, ho]
  intro hc
  rw [h.new a hc] at ho
  cases ho

/-- A block that is free when the request is built was free before. -/
theorem Requested.malloc_new (h : Requested udata proto args st0 st infos request callRequest fnArgs)
    (E : Env) : st0.heap.lookup (E.malloc st) = none := by
  cases ho : st0.heap.lookup (E.malloc st) with
  | none => rfl
  | some o =>
    have := h.live ho
    rw [malloc_dead] at this
    cases this

end

/-- The request of a call: it is always built, for arguments that fit. -/
theorem packRequest_spec {udata : RpcClosureUdata} {fn : RpcFunction} {args : Nat → Passed}
    (hst : Sane st) (E : Env) (hcobj : ∃ s, st.struct? udata.cobj = some s)
    (hfits : Fits st (fn.prototype.getD []) args) :
    ∃ packed request callRequest fnArgs, packRequest E udata fn st args = .ok (packed, request) ∧
      Requested udata (fn.prototype.getD []) args st packed.store packed.infos request callRequest
        fnArgs := by
  obtain ⟨obj, hobj⟩ := hcobj
  have h1 := hst.created E
  set st1 := (rpcStructCreate E st).1 with hst1
  set request := (rpcStructCreate E st).2 with hrequest
  have h2 := h1.sane.created E
  set st2 := (rpcStructCreate E st1).1 with hst2
  set callRequest := (rpcStructCreate E st1).2 with hcallRequest
  have h3 := h2.sane.created E
  set st3 := (rpcStructCreate E st2).1 with hst3
  set fnArgs := (rpcStructCreate E st2).2 with hfnArgs
  obtain ⟨r1, hr1⟩ := h1.fields.struct
  obtain ⟨r2, hr2⟩ := h2.fields.struct
  have hlive : ∀ a o, st.heap.lookup a = some o → st3.heap.lookup a = some o :=
    fun a o ha => h3.live (h2.live (h1.live ha))
  -- the three are new, and different
  have hne21 : callRequest ≠ request := by
    intro hc
    have := h2.dead
    rw [hc, struct?_eq_some.1 hr1] at this
    cases this
  have hne32 : fnArgs ≠ callRequest := by
    intro hc
    have := h3.dead
    rw [hc, struct?_eq_some.1 hr2] at this
    cases this
  have hne31 : fnArgs ≠ request := by
    intro hc
    have := h3.dead
    rw [hc, h2.heap _ hne21.symm, struct?_eq_some.1 hr1] at this
    cases this
  have hdead2 : st.heap.lookup callRequest = none := by
    rw [← h1.heap _ hne21]
    exact h2.dead
  have hdead3 : st.heap.lookup fnArgs = none := by
    rw [← h1.heap _ hne31, ← h2.heap _ hne32]
    exact h3.dead
  have htracker : st3.tracker = st.tracker := by rw [h3.tracker, h2.tracker, h1.tracker]
  -- the arguments go into the third
  obtain ⟨packed, hloop, hp⟩ := @packArguments_spec E _ _ args h3.sane h3.fields _
    fun i c hi => by
      obtain ⟨t, hcode, hne, hnn, htgt⟩ := hfits.typed i c hi
      refine ⟨t, hcode, hne, hnn, fun p hpt => ?_⟩
      obtain ⟨o, ho, hty⟩ := htgt p hpt
      refine ⟨fun hc => ?_, o, hlive p o ho, hty⟩
      rw [hc, hdead3] at ho
      cases ho
  -- the objects among the arguments were there before
  have hargs : ∀ a, st.heap.lookup a = none → ¬ ObjectArg (fn.prototype.getD []) args a := by
    intro a ha hc
    obtain ⟨o, ho⟩ := hfits.live hc
    rw [ha] at ho
    cases ho
  have hnotarg : ∀ a, st.heap.lookup a = none → packed.store.tracker.lookup a = none := by
    intro a ha
    rw [hp.others a (hargs a ha), htracker]
    exact hst.dead_untracked ha
  have hfields1 : HasFields packed.store request [] :=
    ((h1.fields.congr (h2.heap _ hne21.symm)).congr (h3.heap _ hne31.symm)).congr
      (hp.heap _ hne31.symm)
  have hfields2 : HasFields packed.store callRequest [] :=
    (h2.fields.congr (h3.heap _ hne32.symm)).congr (hp.heap _ hne32.symm)
  -- packing leaves the ID of the closure's struct alone
  have hid : rpcStructIdGet packed.store udata.cobj = rpcStructIdGet st udata.cobj := by
    have hne : udata.cobj ≠ fnArgs := by
      intro hc
      have := struct?_eq_some.1 hobj
      rw [hc, hdead3] at this
      cases this
    have hsame : packed.store.struct? udata.cobj = some obj := by
      rw [struct?_congr (hp.heap _ hne), struct?_eq_some]
      exact hlive _ _ (struct?_eq_some.1 hobj)
    rw [idGet_of_struct hsame, idGet_of_struct hobj]
  -- the fields of the two other structs
  obtain ⟨st4, hset4, h4⟩ := hfields2.set hp.sane E (k := ascii "object")
    (e := .string 1 (rpcStructIdGet st udata.cobj)) rfl trivial (fun p hp => by cases hp)
    fun _ => Nat.one_ne_zero
  obtain ⟨st5, hset5, h5⟩ := h4.fields.set h4.sane E (k := ascii "function")
    (e := .string 1 udata.fnName) rfl trivial (fun p hp => by cases hp) fun _ => Nat.one_ne_zero
  obtain ⟨s30, s3, hs30, hs3, hid3⟩ := hp.struct
  have hrandom3 : s3.RandomId := by
    have hrandom := h3.fields.randomId s30 hs30
    unfold RpcStruct.RandomId at hrandom ⊢
    rwa [hid3]
  have hheap3 : st5.heap.lookup fnArgs = packed.store.heap.lookup fnArgs := by
    rw [h5.heap _ hne32, h4.heap _ hne32]
  have hlive3 : st5.heap.lookup fnArgs = some (.struct s3) := by rw [hheap3, struct?_eq_some.1 hs3]
  obtain ⟨st6, hset6, h6⟩ := h5.fields.set h5.sane E (k := ascii "params") (e := .struct fnArgs)
    rfl trivial (fun p hp => by cases hp; exact ⟨_, hlive3, rfl⟩) fun _ => malloc_ne_zero E st2
  have hheap1 : st6.heap.lookup request = packed.store.heap.lookup request := by
    rw [h6.heap _ hne21.symm, h5.heap _ hne21.symm, h4.heap _ hne21.symm]
  obtain ⟨st7, hset7, h7⟩ := (hfields1.congr hheap1).set h6.sane E (k := ascii "method")
    (e := .string 1 (ascii "call")) rfl trivial (fun p hp => by cases hp) fun _ => Nat.one_ne_zero
  have hfields7 := h6.fields.congr (h7.heap _ hne21)
  obtain ⟨s2, hs2⟩ := hfields7.struct
  obtain ⟨st8, hset8, h8⟩ := h7.fields.set h7.sane E (k := ascii "params")
    (e := .struct callRequest) rfl trivial
    (fun p hp => by cases hp; exact ⟨_, struct?_eq_some.1 hs2, rfl⟩) fun _ => malloc_ne_zero E st1
  have hheap : ∀ a, a ≠ request → a ≠ callRequest →
      st8.heap.lookup a = packed.store.heap.lookup a := by
    intro a ha1 ha2
    rw [h8.heap a ha1, h7.heap a ha1, h6.heap a ha2, h5.heap a ha2, h4.heap a ha2]
  have hentry : ∀ k, st8.entry fnArgs k = packed.store.entry fnArgs k :=
    fun k => entry_congr (hheap _ hne31 hne32) k
  refine ⟨⟨st8, packed.infos⟩, request, callRequest, fnArgs, ?_, h8.sane, ?_, ?_, ?_, ?_, h8.fields,
    hfields7.congr (h8.heap _ hne21), ⟨s3, ?_, hrandom3⟩, ?_, ?_, ⟨?_, ?_⟩, ?_, ?_, hp.seen⟩
  · rw [← hid] at hset4
    unfold packRequest
    refine bind_eq_ok.2 ⟨packed, hloop, bind_eq_ok.2 ⟨st4, hset4, bind_eq_ok.2 ⟨st5, hset5,
      bind_eq_ok.2 ⟨st6, hset6, bind_eq_ok.2 ⟨st7, hset7, bind_eq_ok.2 ⟨st8, hset8, rfl⟩⟩⟩⟩⟩⟩
  · intro a ha
    rcases List.mem_cons.1 ha with rfl | ha
    · exact h1.dead
    · rcases List.mem_cons.1 ha with rfl | ha
      · exact hdead2
      · rw [List.mem_singleton.1 ha]
        exact hdead3
  · simp [hne21.symm, hne31.symm, hne32.symm]
  · intro a ha
    simp only [List.mem_cons, List.not_mem_nil, or_false, not_or] at ha
    obtain ⟨ha1, ha2, ha3⟩ := ha
    rw [hheap a ha1 ha2, hp.heap a ha3, h3.heap a ha3, h2.heap a ha2, h1.heap a ha1]
  · rw [h8.tracker request fun hc => hne21 (Option.some.inj hc), h7.tracker request nofun,
      h6.tracker request fun hc => hne31 (Option.some.inj hc), h5.tracker request nofun,
      h4.tracker request nofun]
    exact hnotarg request h1.dead
  · rw [struct?_congr (hheap _ hne31 hne32), hs3]
  · intro k e he
    rw [hentry] at he
    exact hp.entry k e he
  · intro i c t hi hcode
    obtain ⟨e, he, hv⟩ := hp.packed i c t hi hcode
    exact ⟨e, (hentry _).trans he, hv⟩
  · refine h8.sole callRequest rfl ?_
    rw [h7.tracker _ nofun, h6.tracker _ fun hc => hne32 (Option.some.inj hc),
      h5.tracker _ nofun, h4.tracker _ nofun]
    exact hnotarg callRequest hdead2
  · have h6sole := h6.sole fnArgs rfl (by
      rw [h5.tracker _ nofun, h4.tracker _ nofun]
      exact hnotarg fnArgs hdead3)
    have htr : st8.tracker.lookup fnArgs = st6.tracker.lookup fnArgs := by
      rw [h8.tracker _ fun hc => hne32 (Option.some.inj hc).symm, h7.tracker _ nofun]
    exact h6sole.same h6.sane h8.sane (by rw [htr]; exact rel_same_refl _)
  · intro p hplive
    obtain ⟨o, ho⟩ := hplive
    have hne : ∀ a, st.heap.lookup a = none → some a ≠ some p := by
      intro a ha hc
      rw [Option.some.inj hc, ho] at ha
      cases ha
    have hl := hp.lent st {fnArgs} p rfl (h3.lent _ _ p (h2.lent _ _ p (h1.lent _ _ p
      (Lent.refl {fnArgs} ⟨o, ho⟩))))
    exact h8.lent _ _ p (hne _ hdead2) (h7.lent _ _ p nofun (h6.lent _ _ p (hne _ hdead3)
      (h5.lent _ _ p nofun (h4.lent _ _ p nofun hl))))
  · intro p b hb
    rw [hp.info p b hb, htracker]

end

end FfiRpc
