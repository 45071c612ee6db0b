import FfiRpc.Object.Packing

/-!
# A call by a local client

The request of a closure reaches the server through `local_requestor`: the function runs on
the caller's own objects, its result goes into the reply, and the request is freed.
-/
namespace FfiRpc

open State

/-! ## What stays of an object

A function may do much to a store. Of a single object it is enough to know that it is
still there with its entries, and that is kept by most steps for most objects. -/

/-- What was at `a` still is, with its entries. -/
def KeptAt (st st' : State) (a : Addr) : Prop :=
  ∀ o, st.heap.lookup a = some o → ∃ o', st'.heap.lookup a = some o' ∧ o.Less (fun _ => False) o'

/-- The struct `loaded` has no entry under the identifier of `p`. -/
def Unloaded (st : State) (loaded p : Addr) : Prop :=
  (∃ c, st.struct? loaded = some c) ∧ rpcStructExists st loaded (rpcStructIdGet st p) = false

section
variable {st st' : State} {a p loaded S : Addr}

theorem keptAt_of_eq (h : st'.heap.lookup a = st.heap.lookup a) : KeptAt st st' a :=
  fun o ho => ⟨o, h.trans ho, Obj.less_refl fun _ => id⟩

theorem KeptAt.trans {st'' : State} (h : KeptAt st st' a) (h' : KeptAt st' st'' a) :
    KeptAt st st'' a := by
  intro o ho
  obtain ⟨o', ho', hl⟩ := h o ho
  obtain ⟨o'', ho'', hl'⟩ := h' o' ho'
  exact ⟨o'', ho'', hl.trans hl' fun _ => by simp⟩

theorem KeptAt.type (h : KeptAt st st' a) {o : Obj} (ho : st.heap.lookup a = some o) :
    ∃ o', st'.heap.lookup a = some o' ∧ o'.type = o.type := by
  obtain ⟨o', ho', hl⟩ := h o ho
  exact ⟨o', ho', hl.type⟩

theorem KeptAt.struct (h : KeptAt st st' S) {s : RpcStruct} (hs : st.struct? S = some s) :
    ∃ s', st'.struct? S = some s' ∧ s'.ID = s.ID ∧ ∀ k, st'.entry S k = st.entry S k := by
  have ho := struct?_eq_some.1 hs
  obtain ⟨o', ho', hl⟩ := h _ ho
  cases o' with
  | struct s' => exact ⟨s', struct?_eq_some.2 ho', hl.1, hl.entry ho ho'⟩
  | sizedbuf b => cases hl
  | function f => cases hl

/-- The fields of a struct of the call. -/
theorem HasFields.kept {l : List (CStr × RpcTypeT)} (h : HasFields st S l) (hS : KeptAt st st' S) :
    HasFields st' S l := by
  obtain ⟨s, hs⟩ := h.struct
  obtain ⟨s', hs', hid, hentry⟩ := hS.struct hs
  refine ⟨⟨s', hs'⟩, fun k => ?_, fun s'' hs'' => ?_⟩
  · rw [hentry]
    exact h.entry k
  · rw [hs'] at hs''
    cases hs''
    have hrandom := h.randomId s hs
    unfold RpcStruct.RandomId at hrandom ⊢
    rwa [hid]

/-- Whether a struct is loaded is a matter of its ID and of the entries of one struct. -/
theorem Unloaded.kept (h : Unloaded st loaded p) (hloaded : KeptAt st st' loaded) {o : Obj}
    (ho : st.heap.lookup p = some o) (hp : KeptAt st st' p) : Unloaded st' loaded p := by
  obtain ⟨⟨c, hc⟩, hexists⟩ := h
  obtain ⟨c', hc', -, hentry⟩ := hloaded.struct hc
  have hid : rpcStructIdGet st' p = rpcStructIdGet st p := by
    obtain ⟨o', ho', hl⟩ := hp o ho
    unfold rpcStructIdGet struct?
    rw [ho, ho']
    cases o with
    | struct s =>
      cases o' with
      | struct s' => simp only [Option.map_some, hl.1]
      | sizedbuf b => cases hl
      | function f => cases hl
    | sizedbuf b => cases hl; rfl
    | function f => cases hl; rfl
  refine ⟨⟨c', hc'⟩, ?_⟩
  rw [hid, rpcStructExists, rpcStructGetInternal, hentry]
  exact hexists

end

/-! ## The function

The function called is any function. What is asked of it is asked of the invocations of
this call only (`Calling`). -/

/-- The server `s` calls the function of `udata`, on the store of `r0` with the structs of
the call; what the invocation has of a string is at an address of its own. -/
structure Calling (r0 : Registry) (udata : RpcClosureUdata) (proto : List UInt32)
    (args : Nat → Passed) (inv : Invocation) (s : Server) : Prop where
  sane : Sane s.store
  heap : ∀ a o, r0.store.heap.lookup a = some o → s.store.heap.lookup a = some o
  registry : s.toRegistry = { r0 with store := s.store }
  fn : rpcStructGetFunction s.store
    (rpcCobjectGet s.toRegistry (rpcStructIdGet r0.store udata.cobj)) udata.fnName = some inv.fn
  values : ∀ i c t, proto[i]? = some c → RpcTypes.ofCode c = some t → t ≠ .string →
    inv.avalues[i]? = some (toLE 8 (args i).value.toNat)

/-- A function that works through the API, knows nothing of the structs of its call, and
returns live objects. -/
structure Tidy (ffiCall : FfiCall) (r0 : Registry) (udata : RpcClosureUdata)
    (proto : List UInt32) (args : Nat → Passed) : Prop where
  sane : ∀ inv s, Calling r0 udata proto args inv s → Sane (ffiCall inv s).1.store
  own : ∀ inv s, Calling r0 udata proto args inv s → ∀ a o,
    r0.store.heap.lookup a = none → s.store.heap.lookup a = some o →
    (ffiCall inv s).1.store.heap.lookup a = some o ∧
    (ffiCall inv s).1.store.tracker.lookup a = s.store.tracker.lookup a
  returns : ∀ inv s, Calling r0 udata proto args inv s → ∀ t p,
    RpcTypes.ofCode inv.fn.returnType = some t →
    (returnElement t (ffiCall inv s).2).target = some p → p ≠ 0 →
    (∃ o, (ffiCall inv s).1.store.heap.lookup p = some o ∧ o.type = t) ∧
    (r0.store.heap.lookup p = none → s.store.heap.lookup p = none)

/-- A function that moreover neither stores nor frees its arguments, returns no other
objects than those, and does not have one loaded by the client. -/
structure Harmless (ffiCall : FfiCall) (r0 : Registry) (udata : RpcClosureUdata)
    (proto : List UInt32) (args : Nat → Passed) : Prop extends
    Tidy ffiCall r0 udata proto args where
  keeps : ∀ inv s, Calling r0 udata proto args inv s → ∀ p, ObjectArg proto args p →
    (∀ o, s.store.heap.lookup p = some o →
      ∃ o', (ffiCall inv s).1.store.heap.lookup p = some o' ∧ o'.type = o.type) ∧
    Option.Rel Prec.Same (s.store.tracker.lookup p) ((ffiCall inv s).1.store.tracker.lookup p)
  returnsArg : ∀ inv s, Calling r0 udata proto args inv s → ∀ t p,
    RpcTypes.ofCode inv.fn.returnType = some t →
    (returnElement t (ffiCall inv s).2).target = some p → p ≠ 0 → ObjectArg proto args p
  unloaded : ∀ inv s, Calling r0 udata proto args inv s → ∀ p, ObjectArg proto args p →
    Unloaded s.store udata.loadedCobjects p →
    Unloaded (ffiCall inv s).1.store udata.loadedCobjects p

section
variable {E : Env} {ffiCall : FfiCall} {st st' st0 : State} {reply : Addr} {p : Addr}

/-- The method `call`, on an empty reply: what goes into it, and the store that it goes into. -/
theorem call_answer {s : Server} {request : Addr} {cobjName fnName : CStr} {fnParams : Addr}
    {c : RpcStruct} (hobject : rpcStructGetString s.store request (ascii "object") = some cobjName)
    (hfunction : rpcStructGetString s.store request (ascii "function") = some fnName)
    (hparams : rpcStructGetStruct s.store request (ascii "params") = some fnParams)
    (hempty : ∀ inv s', s'.toRegistry = s.toRegistry →
      (∃ cache, prepareCall s.store cache (rpcCobjectGet s.toRegistry cobjName) fnName fnParams =
        (s'.protocache, .ok inv)) →
      (ffiCall inv s').1.store.heap.lookup reply = s'.store.heap.lookup reply)
    (hc : s.store.struct? reply = some c) (hmap : c.map = ∅) :
    ∃ s' st1 field, call E ffiCall s request reply = .ok (s', 0) ∧ Put E st1 reply field s'.store ∧
      ((st1 = s.store ∧ ∀ f, field = some f → ∃ text, f = (ascii "error", .string 1 text)) ∨
        ∃ inv s0, s0.toRegistry = s.toRegistry ∧
          (∃ cache, prepareCall s.store cache (rpcCobjectGet s.toRegistry cobjName) fnName fnParams =
            (s0.protocache, .ok inv)) ∧
          st1 = (ffiCall inv s0).1.store ∧
          ∀ f, field = some f → ∃ t, RpcTypes.ofCode inv.fn.returnType = some t ∧
            (ffiCall inv s0).2.stored t = true ∧
            f = (ascii "return", returnElement t (ffiCall inv s0).2)) := by
  unfold call
  simp only [hobject, hfunction, hparams, rpcCobjectCall]
  cases hprepare : prepareCall s.store s.protocache (rpcCobjectGet s.toRegistry cobjName) fnName
    fnParams with
  | mk protocache result =>
    cases result with
    | error err =>
      obtain ⟨st', hok, hput⟩ := setString_put (E := E) hc hmap (ascii "error") err.text
      refine ⟨{ s with protocache := protocache, store := st' }, s.store, _, ?_, hput, .inl ⟨rfl, ?_⟩⟩
      · simp only [bind, Except.bind]
        rw [if_pos (prepareCall_error hprepare)]
        simp only [hok]
      · intro f hf
        obtain ⟨text, -, rfl⟩ := Option.map_eq_some_iff.1 hf
        exact ⟨text, rfl⟩
    | ok inv =>
      set s0 : Server := { s with protocache := protocache } with hs0
      have hcache : ∃ cache, prepareCall s.store cache (rpcCobjectGet s.toRegistry cobjName) fnName
          fnParams = (s0.protocache, .ok inv) := ⟨s.protocache, hprepare⟩
      cases hcode : RpcTypes.ofCode inv.fn.returnType with
      | none =>
        refine ⟨(ffiCall inv s0).1, _, none, ?_, rfl, .inr ⟨inv, s0, rfl, hcache, rfl, ?_⟩⟩
        · simp only [bind, Except.bind, hcode]
          rfl
        · intro f hf
          cases hf
      | some t =>
        have hc1 : (ffiCall inv s0).1.store.struct? reply = some c :=
          (struct?_congr (hempty inv s0 rfl hcache)).trans hc
        obtain ⟨st', hok, hput⟩ := setReturn_put (E := E) hc1 hmap t (ffiCall inv s0).2
        refine ⟨{ (ffiCall inv s0).1 with store := st' }, _, _, ?_, hput,
          .inr ⟨inv, s0, rfl, hcache, rfl, ?_⟩⟩
        · simp only [hs0] at hok
          simp only [bind, Except.bind, hcode, hok]
          rfl
        · intro f hf
          simp only [CallEnd.field] at hf
          split at hf
          · rename_i hstored
            cases hf
            exact ⟨t, hcode, hstored, rfl⟩
          · cases hf

/-- What the server hands over for an element that came as an argument: the eight bytes of
the argument, but for a string, which lies in a block of its own. -/
theorem argument_returnElement {t : RpcTypes} {arg : Passed} {e : RpcTypeT} (hne : t ≠ .none)
    (hstring : t ≠ .string) (he : (returnElement t arg).SameValue e) :
    e.argument = toLE 8 arg.value.toNat := by
  have hlen : (toLE 8 arg.value.toNat ++ List.replicate 8 0).take 8 = toLE 8 arg.value.toNat := by
    rw [List.take_append_of_le_length (by rw [length_toLE]), List.take_of_length_le
      (by rw [length_toLE])]
  cases t with
  | none => exact absurd rfl hne
  | string => exact absurd rfl hstring
  | number =>
    cases he
    exact hlen
  | real =>
    cases he
    exact hlen
  | _ =>
    cases he
    rfl

/-- A call that is prepared has found its function and read off its parameters. -/
theorem prepareCall_ok {cache cache' : Protocache} {cobj params : Addr} {fnName : CStr}
    {inv : Invocation} (h : prepareCall st cache cobj fnName params = (cache', .ok inv)) :
    rpcStructGetFunction st cobj fnName = some inv.fn ∧
    inv.avalues = (List.range (rpcStructLength st params)).map fun i =>
      (rpcStructGetInternal st params (decimal i)).argument := by
  unfold prepareCall at h
  split at h
  · cases h
  · split at h
    · cases h
    · split at h
      · cases h
        exact ⟨‹_›, rfl⟩
      · cases h

/-- The invocation `rpc_cobject_call` prepares from packed arguments has them. The values
are taken by counting up to the length of the parameters, so there must be at least as
many as the prototype has. -/
theorem marshalled {proto : List UInt32} {args : Nat → Passed} {params : Addr}
    (htyped : ∀ (i : Nat) c, proto[i]? = some c → ∃ t, RpcTypes.ofCode c = some t ∧ t ≠ .none)
    (hpacked : ∀ i c t, proto[i]? = some c → RpcTypes.ofCode c = some t →
      ∃ e, st.entry params (decimal i) = some e ∧ (returnElement t (args i)).SameValue e)
    {inv : Invocation} (hvalues : inv.avalues = (List.range (rpcStructLength st params)).map fun i =>
      (rpcStructGetInternal st params (decimal i)).argument) :
    ∀ i c t, proto[i]? = some c → RpcTypes.ofCode c = some t → t ≠ .string →
      inv.avalues[i]? = some (toLE 8 (args i).value.toNat) := by
  -- as many keys as positions
  have hlength : proto.length ≤ rpcStructLength st params := by
    have hnodup : ((List.range proto.length).map decimal).Nodup :=
      List.nodup_range.map decimal_injective
    have hsub : (List.range proto.length).map decimal ⊆ rpcStructKeys st params := by
      intro k hk
      obtain ⟨i, hi, rfl⟩ := List.mem_map.1 hk
      rw [List.mem_range] at hi
      obtain ⟨t, hcode, -⟩ := htyped i _ (List.getElem?_eq_getElem hi)
      obtain ⟨e, he, -⟩ := hpacked i _ t (List.getElem?_eq_getElem hi) hcode
      obtain ⟨s, hs, hmap⟩ := entry_eq_some.1 he
      rw [rpcStructKeys, hs, Option.map_some, Option.getD_some]
      exact Table.mem_keys_iff.2 ⟨e, hmap⟩
    have hle := (List.subperm_of_subset hnodup hsub).length_le
    rwa [List.length_map, List.length_range, length_rpcStructKeys] at hle
  intro i c t hi hcode hstring
  have hlt := (List.getElem?_eq_some_iff.1 hi).1
  obtain ⟨t', hcode', hne⟩ := htyped i c hi
  rw [hcode] at hcode'
  cases hcode'
  obtain ⟨e, he, hv⟩ := hpacked i c t hi hcode
  have hget : rpcStructGetInternal st params (decimal i) = e := by
    rw [rpcStructGetInternal, he, Option.getD_some]
  rw [hvalues, List.getElem?_map, List.getElem?_range (by omega), Option.map_some, hget,
    argument_returnElement hne hstring hv]

/-! ## The answer

The job of the server, from the reply it makes to the reply it has filled. In every case
the structs of the call come through untouched: the function knows nothing of them, and
the server writes to the reply alone. -/

/-- The structs of a call. -/
abbrev callStructs (request callRequest fnArgs reply : Addr) : List Addr :=
  [reply, request, callRequest, fnArgs]

/-- What goes into the reply: nothing, an error, or what the function returned. -/
structure Answer (ffiCall : FfiCall) (r0 : Registry) (udata : RpcClosureUdata) (proto : List UInt32)
    (args : Nat → Passed) (st1 stA : State) (field : Option (CStr × RpcTypeT)) : Prop where
  cases : (stA = st1 ∧ ∀ f, field = some f → ∃ text, f = (ascii "error", .string 1 text)) ∨
    ∃ inv s0, s0.store = st1 ∧ Calling r0 udata proto args inv s0 ∧ stA = (ffiCall inv s0).1.store ∧
      ∀ f, field = some f → ∃ t, RpcTypes.ofCode inv.fn.returnType = some t ∧
        (ffiCall inv s0).2.stored t = true ∧ f = (ascii "return", returnElement t (ffiCall inv s0).2)

/-- The job always ends with status 0: a failed preparation is an answer too. -/
theorem answer_spec {udata : RpcClosureUdata} {proto : List UInt32} {args : Nat → Passed}
    {infos : Table Addr Bool} {request callRequest fnArgs : Addr} {r0 : Registry} (s : Server)
    (hs : s.toRegistry = { r0 with store := s.store })
    (hreq : Requested udata proto args r0.store s.store infos request callRequest fnArgs)
    (htyped : ∀ (i : Nat) c, proto[i]? = some c → ∃ t, RpcTypes.ofCode c = some t ∧ t ≠ .none)
    (hffi : Tidy ffiCall r0 udata proto args) :
    ∃ s2 stA field, rpcServerLocalnetJob E ffiCall (s.replying E) request (E.malloc s.store) =
        .ok (s2, 0) ∧
      Put E stA (E.malloc s.store) field s2.store ∧ Sane stA ∧
      Answer ffiCall r0 udata proto args (s.replying E).store stA field ∧
      (∀ a ∈ callStructs request callRequest fnArgs (E.malloc s.store),
        stA.heap.lookup a = (s.replying E).store.heap.lookup a ∧
        stA.tracker.lookup a = (s.replying E).store.tracker.lookup a) := by
  have hcr : Created s.store (s.replying E).store (E.malloc s.store) := hreq.sane.created E
  -- the structs of the call are live, and were not there before
  have hreplynew := hreq.malloc_new E
  have hown : ∀ a ∈ callStructs request callRequest fnArgs (E.malloc s.store),
      r0.store.heap.lookup a = none ∧ ∃ o, (s.replying E).store.heap.lookup a = some o := by
    intro a ha
    have hold : ∀ b, (∃ x, s.store.struct? b = some x) →
        ∃ o, (s.replying E).store.heap.lookup b = some o := by
      intro b hb
      obtain ⟨x, hx⟩ := hb
      exact ⟨_, hcr.live (struct?_eq_some.1 hx)⟩
    rcases List.mem_cons.1 ha with rfl | ha'
    · obtain ⟨x, hx⟩ := hcr.fields.struct
      exact ⟨hreplynew, _, struct?_eq_some.1 hx⟩
    · refine ⟨hreq.new a ha', hold a ?_⟩
      rcases List.mem_cons.1 ha' with rfl | ha'
      · exact hreq.outer.struct
      · rcases List.mem_cons.1 ha' with rfl | ha'
        · exact hreq.inner.struct
        · rw [List.mem_singleton.1 ha']
          exact hreq.struct.imp fun _ hx => hx.1
  have hne : ∀ a, (∃ x, s.store.struct? a = some x) → a ≠ E.malloc s.store := by
    intro a ha hc
    obtain ⟨x, hx⟩ := ha
    have := struct?_eq_some.1 hx
    rw [hc, malloc_dead] at this
    cases this
  have houter := hreq.outer.congr (hcr.heap _ (hne _ hreq.outer.struct))
  have hinner := hreq.inner.congr (hcr.heap _ (hne _ hreq.inner.struct))
  have hpacked : ∀ i c t, proto[i]? = some c → RpcTypes.ofCode c = some t →
      ∃ e, (s.replying E).store.entry fnArgs (decimal i) = some e ∧
        (returnElement t (args i)).SameValue e := by
    intro i c t hi hcode
    obtain ⟨e, he, hv⟩ := hreq.packed i c t hi hcode
    exact ⟨e, (entry_congr (hcr.heap _ (hne _ (hreq.struct.imp fun _ hx => hx.1))) _).trans he, hv⟩
  obtain ⟨c, hc⟩ := hcr.fields.struct
  have hmap : c = ⟨∅, E.random s.store ++ [0], 0⟩ := by
    have hs : (s.replying E).store.struct? (E.malloc s.store) =
        some ⟨∅, E.random s.store ++ [0], 0⟩ := by
      rw [Server.replying, rpcStructCreate, struct?_setObj_struct, if_pos rfl]
    rw [hs] at hc
    cases hc
    rfl
  -- whatever invocation is prepared is one of this call
  have hfunction : ∀ inv (s' : Server), s'.toRegistry = (s.replying E).toRegistry →
      (∃ cache, prepareCall (s.replying E).store cache (rpcCobjectGet (s.replying E).toRegistry
        (rpcStructIdGet r0.store udata.cobj)) udata.fnName fnArgs = (s'.protocache, .ok inv)) →
      Calling r0 udata proto args inv s' := by
    intro inv s' hs' hprep
    obtain ⟨cache, hprep⟩ := hprep
    obtain ⟨hfn, hvalues⟩ := prepareCall_ok hprep
    have hstore : s'.store = (s.replying E).store := congrArg Registry.store hs'
    have hregistry : (s.replying E).toRegistry = { r0 with store := (s.replying E).store } :=
      congrArg (fun r : Registry => { r with store := (s.replying E).store }) hs
    refine ⟨hstore ▸ hcr.sane, fun a o ho => hstore ▸ hcr.live (hreq.live ho), ?_, ?_,
      marshalled htyped hpacked hvalues⟩
    · rw [hs', hregistry]
    · rw [hs']
      exact hfn
  obtain ⟨s2, stA, field, hcall, hput, hcases⟩ := @call_answer E ffiCall _ (s.replying E) _ _ _ _ _
    (hinner.getString rfl) (hinner.getString rfl) (hinner.getStruct rfl)
    (fun inv s' hs' hprep => by
      obtain ⟨o, ho⟩ := (hown _ List.mem_cons_self).2
      have hstore : s'.store = (s.replying E).store := congrArg Registry.store hs'
      rw [← hstore] at ho
      rw [(hffi.own inv s' (hfunction inv s' hs' hprep) _ o hreplynew ho).1, ho])
    hc (by rw [hmap])
  refine ⟨s2, stA, field, ?_, hput, ?_, ⟨?_⟩, ?_⟩
  · have hparams : rpcStructGetStruct (s.replying E).store request (ascii "params") =
        some callRequest := houter.getStruct rfl
    rw [rpcServerLocalnetJob, houter.getString rfl]
    simp only [methods_call, hparams, Option.getD_some]
    exact hcall
  · rcases hcases with ⟨rfl, -⟩ | ⟨inv, s0, hs0, hprep, rfl, -⟩
    · exact hcr.sane
    · exact hffi.sane inv s0 (hfunction inv s0 hs0 hprep)
  · rcases hcases with herror | hreturn
    · exact .inl herror
    · obtain ⟨inv, s0, hs0, hprep, hstA, hfield⟩ := hreturn
      exact .inr ⟨inv, s0, congrArg Registry.store hs0, hfunction inv s0 hs0 hprep, hstA, hfield⟩
  · intro a ha
    obtain ⟨hnew, o, ho⟩ := hown a ha
    rcases hcases with ⟨rfl, -⟩ | ⟨inv, s0, hs0, hprep, rfl, -⟩
    · exact ⟨rfl, rfl⟩
    · have hstore : s0.store = (s.replying E).store := congrArg Registry.store hs0
      rw [← hstore] at ho ⊢
      obtain ⟨hheap, htracker⟩ := hffi.own inv s0 (hfunction inv s0 hs0 hprep) a o hnew ho
      exact ⟨hheap.trans ho.symm, htracker⟩

/-- The reply with what was put into it. -/
structure Replied (reply : Addr) (field : Option (CStr × RpcTypeT)) (stA st2 : State) : Prop where
  sane : Sane st2
  fields : HasFields st2 reply field.toList
  heap : ∀ a, a ≠ reply → st2.heap.lookup a = stA.heap.lookup a
  tracker : ∀ q, (∀ f, field = some f → f.2.target ≠ some q) →
    st2.tracker.lookup q = stA.tracker.lookup q
  lent : ∀ X p stB, reply ∈ X → (∀ f, field = some f → f.2.target = some p →
    ∃ r, stA.tracker.lookup p = some r) → Lent X p stB stA → Lent X p stB st2

/-- Putting a value into an empty reply. -/
theorem Put.replied {field : Option (CStr × RpcTypeT)} (h : Put E st reply field st') (hst : Sane st)
    (hfields : HasFields st reply [])
    (hsz : ∀ f, field = some f → f.2.Sized)
    (htgt : ∀ f, field = some f → ∀ p, f.2.target = some p →
      ∃ o, st.heap.lookup p = some o ∧ o.type = f.2.type)
    (hnn : ∀ f, field = some f → rpcIsPointer f.2.type = true → f.2.ptrValue ≠ 0) :
    Replied reply field st st' := by
  cases field with
  | none =>
    subst h
    exact ⟨hst, hfields, fun _ _ => rfl, fun _ _ => rfl, fun _ _ _ _ _ hl => hl⟩
  | some f =>
    obtain ⟨c, hc, hmap, hst'⟩ := h
    have hk : c.map.lookup f.1 = none := by rw [hmap]; rfl
    obtain ⟨hsane, hsurplus⟩ := hst.setEntry E hc hk (hsz f rfl) (htgt f rfl) (hnn f rfl) hst'
    subst hst'
    refine ⟨hsane, ⟨⟨_, struct_inserted⟩, fun k => ?_, fun s hs => ?_⟩, fun a ha => heap_inserted ha,
      fun q hq => tracker_inserted (hq f rfl), fun X p stB hX hp hl =>
        hl.setEntry hst hc hX hk hsurplus (hp f rfl)⟩
    · have hentry := entry_inserted (E := E) (k := f.1) (e := f.2) hc reply k
      rw [inserted] at hentry
      rw [hentry, Option.toList_some, List.lookup_cons]
      by_cases hkey : k = f.1
      · subst hkey
        rw [if_pos ⟨rfl, rfl⟩, beq_self_eq_true]
        exact .some (sameValue_strdupElement f.2)
      · rw [if_neg fun hc => hkey hc.2, show (k == f.1) = false from beq_false_of_ne hkey]
        exact hfields.entry k
    · have hsame := @struct_inserted E st reply c f.1 f.2
      rw [inserted, hs] at hsame
      cases hsame
      exact hfields.randomId c hc

/-- What is put there is fit to be stored, and is no struct of the call: a tidy function
returns live objects, and does not know those. -/
theorem Answer.put {udata : RpcClosureUdata} {proto : List UInt32} {args : Nat → Passed}
    {r0 : Registry} {stA : State} {field : Option (CStr × RpcTypeT)}
    (h : Answer ffiCall r0 udata proto args st stA field) (hffi : Tidy ffiCall r0 udata proto args)
    {f : CStr × RpcTypeT} (hf : field = some f) :
    f.2.Sized ∧ (rpcIsPointer f.2.type = true → f.2.ptrValue ≠ 0) ∧
      ∀ p, f.2.target = some p → (∃ o, stA.heap.lookup p = some o ∧ o.type = f.2.type) ∧
        (r0.store.heap.lookup p = none → st.heap.lookup p = none) := by
  rcases h.cases with herror | hreturn
  · obtain ⟨text, rfl⟩ := herror.2 f hf
    exact ⟨trivial, fun _ => Nat.one_ne_zero, fun p hp => by cases hp⟩
  · obtain ⟨inv, s0, rfl, hcalling, rfl, hfield⟩ := hreturn
    obtain ⟨t, hcode, hstored, rfl⟩ := hfield f hf
    have hne : t ≠ .none := by
      intro hc
      rw [hc] at hstored
      cases hstored
    have hnn := returnElement_nonnull hstored
    refine ⟨sized_returnElement hne _, hnn, fun p hp => ?_⟩
    obtain ⟨hptr, hval⟩ := rpcIsPointer_of_target hp
    have hp0 : p ≠ 0 := hval ▸ hnn hptr
    obtain ⟨⟨o, ho, hty⟩, hnew⟩ := hffi.returns inv s0 hcalling t p hcode hp hp0
    exact ⟨⟨o, ho, by rw [hty, type_returnElement]⟩, hnew⟩

/-- The server has answered; the request is still there. -/
structure Answered (E : Env) (ffiCall : FfiCall) (r0 : Registry) (udata : RpcClosureUdata)
    (proto : List UInt32) (args : Nat → Passed) (request callRequest fnArgs : Addr) (s s2 : Server)
    (stA : State) (field : Option (CStr × RpcTypeT)) : Prop where
  job : rpcServerLocalnetJob E ffiCall (s.replying E) request (E.malloc s.store) = .ok (s2, 0)
  answer : Answer ffiCall r0 udata proto args (s.replying E).store stA field
  saneA : Sane stA
  own : ∀ a ∈ callStructs request callRequest fnArgs (E.malloc s.store),
    stA.heap.lookup a = (s.replying E).store.heap.lookup a ∧
    stA.tracker.lookup a = (s.replying E).store.tracker.lookup a
  replied : Replied (E.malloc s.store) field stA s2.store
  sent : ∀ a ∈ [request, callRequest, fnArgs], s2.store.heap.lookup a = s.store.heap.lookup a ∧
    s2.store.tracker.lookup a = s.store.tracker.lookup a
  loose : s2.store.tracker.lookup (E.malloc s.store) = none

/-- Such an answer there always is. -/
theorem answered {udata : RpcClosureUdata} {proto : List UInt32} {args : Nat → Passed}
    {infos : Table Addr Bool} {request callRequest fnArgs : Addr} {r0 : Registry} (s : Server)
    (hs : s.toRegistry = { r0 with store := s.store })
    (hreq : Requested udata proto args r0.store s.store infos request callRequest fnArgs)
    (htyped : ∀ (i : Nat) c, proto[i]? = some c → ∃ t, RpcTypes.ofCode c = some t ∧ t ≠ .none)
    (hffi : Tidy ffiCall r0 udata proto args) :
    ∃ s2 stA field,
      Answered E ffiCall r0 udata proto args request callRequest fnArgs s s2 stA field := by
  obtain ⟨s2, stA, field, hjob, hput, hstA, hanswer, hown⟩ :=
    answer_spec (E := E) s hs hreq htyped hffi
  have hcr : Created s.store (s.replying E).store (E.malloc s.store) := hreq.sane.created E
  have hfields : HasFields stA (E.malloc s.store) [] :=
    hcr.fields.congr (hown _ List.mem_cons_self).1
  have hval := fun f hf => hanswer.put hffi (f := f) hf
  have hreplied := hput.replied hstA hfields (fun f hf => (hval f hf).1)
    (fun f hf p hp => ((hval f hf).2.2 p hp).1) fun f hf => (hval f hf).2.1
  have hlive : ∀ a ∈ [request, callRequest, fnArgs], ∃ x, s.store.struct? a = some x := by
    intro a ha
    rcases List.mem_cons.1 ha with rfl | ha
    · exact hreq.outer.struct
    · rcases List.mem_cons.1 ha with rfl | ha
      · exact hreq.inner.struct
      · rw [List.mem_singleton.1 ha]
        exact hreq.struct.imp fun _ hx => hx.1
  have hne : ∀ a ∈ [request, callRequest, fnArgs], a ≠ E.malloc s.store := by
    intro a ha hc
    obtain ⟨x, hx⟩ := hlive a ha
    have := struct?_eq_some.1 hx
    rw [hc, malloc_dead] at this
    cases this
  have hreplynew := hreq.malloc_new E
  -- what was put into the reply is none of the structs of the call
  have htarget : ∀ a ∈ callStructs request callRequest fnArgs (E.malloc s.store),
      ∀ f, field = some f → f.2.target ≠ some a := by
    intro a ha f hf hc
    have hnew := ((hval f hf).2.2 a hc).2
    rcases List.mem_cons.1 ha with rfl | ha
    · obtain ⟨x, hx⟩ := hcr.fields.struct
      have := hnew hreplynew
      rw [struct?_eq_some.1 hx] at this
      cases this
    · obtain ⟨x, hx⟩ := hlive a ha
      have := hnew (hreq.new a ha)
      rw [hcr.live (struct?_eq_some.1 hx)] at this
      cases this
  refine ⟨s2, stA, field, hjob, hanswer, hstA, hown, hreplied, fun a ha => ⟨?_, ?_⟩, ?_⟩
  · rw [hreplied.heap a (hne a ha), (hown a (List.mem_cons_of_mem _ ha)).1, hcr.heap a (hne a ha)]
  · rw [hreplied.tracker a (htarget a (List.mem_cons_of_mem _ ha)),
      (hown a (List.mem_cons_of_mem _ ha)).2, hcr.tracker]
  · rw [hreplied.tracker _ (htarget _ List.mem_cons_self), (hown _ List.mem_cons_self).2, hcr.tracker]
    exact hreq.sane.dead_untracked hcr.dead

/-! ## The request is freed

`local_requestor` frees the request once the job is done. Its cascade is the three structs
of the request and no more (`Answered.cascade`): the arguments were there before, and each
is held by someone else or has its callback off. -/

variable {udata : RpcClosureUdata} {proto : List UInt32} {args : Nat → Passed}
  {infos : Table Addr Bool} {request callRequest fnArgs : Addr} {s s2 : Server} {stA : State}
  {field : Option (CStr × RpcTypeT)} {loaded : Addr} {r0 : Registry}

/-- The reply outlives the request: nothing holds it. -/
theorem Answered.requestor
    (h : Answered E ffiCall r0 udata proto args request callRequest fnArgs s s2 stA field)
    (hreq : Requested udata proto args r0.store s.store infos request callRequest fnArgs) {D : Set Addr}
    (hD : s2.store.cascade request = D) :
    ∃ st', localRequestor E ffiCall s request =
        .ok ({ s2 with store := st' }, E.malloc s.store) ∧
      Swept D s2.store st' ∧ E.malloc s.store ∉ D ∧
      HasFields st' (E.malloc s.store) field.toList ∧
      st'.tracker.lookup (E.malloc s.store) = none := by
  obtain ⟨hheap, htracker⟩ := h.sent request List.mem_cons_self
  obtain ⟨x, hx⟩ := hreq.outer.struct
  have hloose : s2.store.tracker.lookup request = none := by rw [htracker, hreq.loose]
  obtain ⟨st', hok, hswept⟩ := h.replied.sane.sweep E ⟨x, (struct?_congr hheap).trans hx⟩ hloose hD
  have hne : E.malloc s.store ≠ request := by
    intro hc
    have := struct?_eq_some.1 hx
    rw [← hc, malloc_dead] at this
    cases this
  have hout : E.malloc s.store ∉ D := by
    rw [← hD]
    exact h.replied.sane.notMem_cascade h.loose hne
  refine ⟨st', ?_, hswept, hout, h.replied.fields.kept fun o ho => hswept.stay _ o hout ho,
    hswept.untracked _ h.loose⟩
  unfold localRequestor
  exact bind_eq_ok.2 ⟨(s2, 0), h.job, bind_eq_ok.2 ⟨st', hok, rfl⟩⟩

/-- The request is gone; the reply has what a harmless function returned. -/
structure Settled (st0 : State) (loaded : Addr) (proto : List UInt32) (args : Nat → Passed)
    (fnArgs reply : Addr) (field : Option (CStr × RpcTypeT)) (st : State) : Prop where
  sane : Sane st
  fields : HasFields st reply field.toList
  loose : st.tracker.lookup reply = none
  gone : st.heap.lookup fnArgs = none
  lent : ∀ p, ObjectArg proto args p → Lent {fnArgs, reply} p st0 st
  unloaded : ∀ p, ObjectArg proto args p → Unloaded st loaded p
  returned : ∀ f, field = some f → ∀ p, f.2.target = some p → ObjectArg proto args p

/-- What the answer has put into the reply is one of the arguments. -/
theorem Answer.returned {st1 : State} (h : Answer ffiCall r0 udata proto args st1 stA field)
    (hffi : Harmless ffiCall r0 udata proto args) {f : CStr × RpcTypeT} (hf : field = some f)
    (hp : f.2.target = some p) : ObjectArg proto args p := by
  rcases h.cases with herror | hreturn
  · obtain ⟨text, rfl⟩ := herror.2 f hf
    cases hp
  · obtain ⟨inv, s0, -, hcalling, -, hfield⟩ := hreturn
    obtain ⟨t, hcode, hstored, rfl⟩ := hfield f hf
    obtain ⟨hptr, hval⟩ := rpcIsPointer_of_target hp
    exact hffi.returnsArg inv s0 hcalling t p hcode hp
      (hval ▸ returnElement_nonnull hstored hptr)

/-- The arguments when the function has returned. -/
theorem Answer.arguments {st1 : State} (h : Answer ffiCall r0 udata proto args st1 stA field)
    (hffi : Harmless ffiCall r0 udata proto args) (hp : ObjectArg proto args p) :
    (∀ o, st1.heap.lookup p = some o → ∃ o', stA.heap.lookup p = some o' ∧ o'.type = o.type) ∧
    Option.Rel Prec.Same (st1.tracker.lookup p) (stA.tracker.lookup p) ∧
    (Unloaded st1 udata.loadedCobjects p → Unloaded stA udata.loadedCobjects p) := by
  rcases h.cases with herror | hreturn
  · obtain ⟨rfl, -⟩ := herror
    exact ⟨fun o ho => ⟨o, ho, rfl⟩, rel_same_refl _, id⟩
  · obtain ⟨inv, s0, rfl, hcalling, rfl, -⟩ := hreturn
    obtain ⟨htype, hrec⟩ := hffi.keeps inv s0 hcalling p hp
    exact ⟨htype, hrec, hffi.unloaded inv s0 hcalling p hp⟩

/-- The request takes nothing with it but its own structs. -/
theorem Answered.cascade
    (h : Answered E ffiCall r0 udata proto args request callRequest fnArgs s s2 stA field)
    (hreq : Requested udata proto args r0.store s.store infos request callRequest fnArgs)
    (hst0 : Sane r0.store) {X : Set Addr} (hX : ∀ a ∈ X, r0.store.heap.lookup a = none)
    (hlent : ∀ p, ObjectArg proto args p → Lent X p r0.store s2.store) :
    s2.store.cascade request = {a | a ∈ [request, callRequest, fnArgs]} := by
  have hsame : ∀ a ∈ [request, callRequest, fnArgs], Option.Rel Prec.Same
      (s.store.tracker.lookup a) (s2.store.tracker.lookup a) := by
    intro a ha
    rw [(h.sent a ha).2]
    exact rel_same_refl _
  have hfields : ∀ a ∈ [request, callRequest, fnArgs], ∀ l, HasFields s.store a l →
      HasFields s2.store a l := fun a ha l hl => hl.congr (h.sent a ha).1
  have hmem1 : request ∈ [request, callRequest, fnArgs] := List.mem_cons_self
  have hmem2 : callRequest ∈ [request, callRequest, fnArgs] := List.mem_cons_of_mem _ List.mem_cons_self
  have hmem3 : fnArgs ∈ [request, callRequest, fnArgs] :=
    List.mem_cons_of_mem _ (List.mem_cons_of_mem _ List.mem_cons_self)
  refine Set.Subset.antisymm (cascade_subset hmem1 fun S hS k a hh => ?_) fun a ha => ?_
  · rcases List.mem_cons.1 hS with rfl | hS'
    · obtain ⟨f, hf, ht⟩ := (hfields _ hmem1 _ hreq.outer).held hh
      simp only [List.mem_cons, List.not_mem_nil, or_false] at hf
      rcases hf with rfl | rfl
      · cases ht
        exact .inl hmem2
      · cases ht
    · rcases List.mem_cons.1 hS' with rfl | hS'
      · obtain ⟨f, hf, ht⟩ := (hfields _ hmem2 _ hreq.inner).held hh
        simp only [List.mem_cons, List.not_mem_nil, or_false] at hf
        rcases hf with rfl | rfl | rfl
        · cases ht
          exact .inl hmem3
        · cases ht
        · cases ht
      · -- an argument is kept by what held it before the call, or by its silence
        rw [List.mem_singleton.1 hS'] at hh
        obtain ⟨e, he, ht⟩ := Option.bind_eq_some_iff.1 hh
        rw [entry_congr (h.sent fnArgs hmem3).1] at he
        obtain ⟨i, c, t, hi, hcode, -, hv⟩ := hreq.entry k e he
        have harg : ObjectArg proto args a := ⟨i, c, t, hi, hcode, hv.target.symm.trans ht⟩
        exact .inr ((hlent a harg).anchored hst0 h.replied.sane hX hreq.new hh)
  · have hcall := (hreq.sole.1.same hreq.sane h.replied.sane (hsame _ hmem2)).mem_cascade
      (self_mem_cascade s2.store request)
    rcases List.mem_cons.1 ha with rfl | ha
    · exact self_mem_cascade _ _
    · rcases List.mem_cons.1 ha with rfl | ha
      · exact hcall
      · rw [List.mem_singleton.1 ha]
        exact (hreq.sole.2.same hreq.sane h.replied.sane (hsame _ hmem3)).mem_cascade hcall

/-- With a harmless function the call comes so far, and every argument is lent to the
reply at most. -/
theorem settled (h : Answered E ffiCall r0 udata proto args request callRequest fnArgs s s2 stA field)
    (hreq : Requested udata proto args r0.store s.store infos request callRequest fnArgs)
    (hst0 : Sane r0.store)
    (hlive : ∀ p, ObjectArg proto args p → ∃ o, r0.store.heap.lookup p = some o)
    (hffi : Harmless ffiCall r0 udata proto args)
    (hunloaded : ∀ p, ObjectArg proto args p → Unloaded r0.store udata.loadedCobjects p) :
    ∃ st', localRequestor E ffiCall s request = .ok ({ s2 with store := st' }, E.malloc s.store) ∧
      Settled r0.store udata.loadedCobjects proto args fnArgs (E.malloc s.store) field st' := by
  have hcr : Created s.store (s.replying E).store (E.malloc s.store) := hreq.sane.created E
  have hmem3 : fnArgs ∈ [request, callRequest, fnArgs] := by simp
  have hX : ∀ a ∈ ({fnArgs, E.malloc s.store} : Set Addr), r0.store.heap.lookup a = none := by
    intro a ha
    rcases ha with rfl | rfl
    · exact hreq.new _ hmem3
    · exact hreq.malloc_new E
  -- every argument has a record, since `fnArgs` holds it
  have htracked : ∀ p, ObjectArg proto args p → ∃ r, stA.tracker.lookup p = some r := by
    intro p hp
    obtain ⟨i, c, t, hi, hcode, ht⟩ := hp
    obtain ⟨e, he, hv⟩ := hreq.packed i c t hi hcode
    obtain ⟨r, hr⟩ := hreq.sane.held_tracked (S := fnArgs) (k := decimal i) (p := p)
      (Option.bind_eq_some_iff.2 ⟨e, he, hv.target.trans ht⟩)
    rw [← hcr.tracker] at hr
    rcases rel_same_cases (h.answer.arguments hffi ⟨i, c, t, hi, hcode, ht⟩).2.1 with hnone | hsome
    · rw [hnone.1] at hr
      cases hr
    · obtain ⟨-, r', -, hr', -⟩ := hsome
      exact ⟨r', hr'⟩
  have hlent : ∀ p, ObjectArg proto args p → Lent {fnArgs, E.malloc s.store} p r0.store s2.store := by
    intro p hp
    obtain ⟨htype, hrec, -⟩ := h.answer.arguments hffi hp
    have hl := hcr.lent _ _ _ ((hreq.lent p (hlive p hp)).mono
      (Set.singleton_subset_iff.2 (Set.mem_insert fnArgs {E.malloc s.store})))
    exact h.replied.lent _ _ _ (Set.mem_insert_of_mem _ rfl) (fun _ _ _ => htracked p hp)
      (hl.similar hcr.sane h.saneA htype hrec)
  obtain ⟨st', hok, hswept, hout, hfields, hloose⟩ :=
    h.requestor hreq (h.cascade hreq hst0 hX hlent)
  refine ⟨st', hok, hswept.sane, hfields, hloose, hswept.gone fnArgs hmem3,
    fun p hp => hswept.lent _ _ _ hst0 hX hreq.new (hlent p hp), fun p hp => ?_,
    fun f hf p hp => h.answer.returned hffi hf hp⟩
  have hkept : ∀ a o, r0.store.heap.lookup a = some o → KeptAt s2.store st' a := by
    intro a o ho o' ho'
    refine hswept.stay a o' (fun hc => ?_) ho'
    rw [hreq.new a hc] at ho
    cases ho
  obtain ⟨o, ho⟩ := hlive p hp
  obtain ⟨⟨c, hc⟩, -⟩ := hunloaded p hp
  have hloaded := struct?_eq_some.1 hc
  have hne : ∀ a o, r0.store.heap.lookup a = some o → a ≠ E.malloc s.store := by
    intro a o ho hc
    rw [hc, hreq.malloc_new E] at ho
    cases ho
  have hreplying : ∀ a o, r0.store.heap.lookup a = some o → KeptAt r0.store (s.replying E).store a :=
    fun a o ho => keptAt_of_eq ((hcr.live (hreq.live ho)).trans ho.symm)
  -- not loaded before, so not after the reply was made, the function ran, the reply was
  -- filled and the request was freed
  have hA := (h.answer.arguments hffi hp).2.2
    ((hunloaded p hp).kept (hreplying _ _ hloaded) ho (hreplying _ _ ho))
  obtain ⟨oA, hoA, -⟩ := (h.answer.arguments hffi hp).1 o (hcr.live (hreq.live ho))
  have h2 := hA.kept (keptAt_of_eq (h.replied.heap _ (hne _ _ hloaded))) hoA
    (keptAt_of_eq (h.replied.heap _ (hne _ _ ho)))
  exact h2.kept (hkept _ _ hloaded) ((h.replied.heap _ (hne _ _ ho)).trans hoA) (hkept _ _ ho)

end

end FfiRpc
